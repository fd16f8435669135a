import Mathlib.Data.List.Forall2
import CachedStore.Activity.Plan
import CachedStore.Proofs.Activity.Strides

/-!
How plans run: whatever the scheduler does from turn to turn, the activities of a plan go on by
steps of one at a time, and the result is made of what they come to.
-/

namespace CachedStore

variable {σ α : Type} {supply : Nat → Moment}

/-! Activities of a plan -/

namespace Plan

mutual

def activities : Plan σ α → List (Activity σ α)
  | one activity => [activity]
  | all parts _ => activitiesOfAll parts

def activitiesOfAll : List (Option Nat × Plan σ α) → List (Activity σ α)
  | [] => []
  | (_, plan) :: rest => plan.activities ++ activitiesOfAll rest

end

/-- What a plan makes of the results of its activities. -/
inductive Makes : Plan σ α → List α → α → Prop where
  | one (activity : Activity σ α) (result : α) : Makes (.one activity) [result] result
  | all {parts : List (Option Nat × Plan σ α)} {given : List (List α × α)} (gather : List α → α)
      (each : List.Forall₂ (fun part gave => Makes part.2 gave.1 gave.2) parts given) :
      Makes (.all parts gather) (given.flatMap (·.1)) (gather (given.map (·.2)))

end Plan

abbrev Share (σ α : Type) : Type 1 := (Option Nat × Plan σ α) × List (Activity σ α)

namespace Progress

/-- What is left of the activities of a plan that has come this far. -/
inductive Remains : Progress σ α → Plan σ α → List (Activity σ α) → Prop where
  | finished {plan : Plan σ α} {results : List α} {result : α} (makes : plan.Makes results result) :
      Remains (.finished result) plan (results.map .done)
  | ahead (first activity : Activity σ α) :
      Remains (.task (.ahead activity)) (.one first) [activity]
  | task {task : Task σ α} {rest : Activity σ α} (first : Activity σ α)
      (remains : task.Remains rest) : Remains (.task task) (.one first) [rest]
  | waiting {part : Progress σ α} {plan : Plan σ α} {activities : List (Activity σ α)}
      (timer : Timer) (remains : Remains part plan activities) :
      Remains (.waiting timer part) plan activities
  | group {parts : List (Progress σ α)} {shares : List (Share σ α)} (gather : List α → α)
      (each : List.Forall₂ (fun part share => Remains part share.1.2 share.2) parts shares) :
      Remains (.group parts gather) (.all (shares.map (·.1)) gather) (shares.flatMap (·.2))
  | crowd {due resting : List (Nat × Progress σ α)} {shares : List (Share σ α)}
      (gather : List α → α)
      (numbers : ((due ++ resting).map (·.1)).Perm (List.range shares.length))
      (each : ∀ position part share, (position, part) ∈ due ++ resting →
        shares[position]? = some share → Remains part share.1.2 share.2) :
      Remains (.crowd due resting gather) (.all (shares.map (·.1)) gather) (shares.flatMap (·.2))

abbrev Shared (parts : List (Progress σ α)) (shares : List (Share σ α)) : Prop :=
  List.Forall₂ (fun part share => part.Remains share.1.2 share.2) parts shares

/-- The parts of a crowd, in whatever order, stand as the shares of their numbers tell. -/
structure Numbered (parts : List (Nat × Progress σ α)) (shares : List (Share σ α)) : Prop where
  numbers : (parts.map (·.1)).Perm (List.range shares.length)
  each : ∀ position part share, (position, part) ∈ parts → shares[position]? = some share →
    part.Remains share.1.2 share.2

namespace Numbered

variable {parts others due resting : List (Nat × Progress σ α)} {position : Nat}
  {part : Progress σ α} {shares : List (Share σ α)}

theorem perm (numbered : Numbered parts shares) (same : others.Perm parts) :
    Numbered others shares where
  numbers := (same.map _).trans numbered.numbers
  each position part share member := numbered.each position part share (same.mem_iff.mp member)

theorem nodup (numbered : Numbered parts shares) : (parts.map (·.1)).Nodup :=
  numbered.numbers.nodup_iff.mpr List.nodup_range

theorem share (numbered : Numbered parts shares) (member : (position, part) ∈ parts) :
    ∃ share, shares[position]? = some share ∧ part.Remains share.1.2 share.2 := by
  have listed : position ∈ List.range shares.length :=
    numbered.numbers.mem_iff.mp (List.mem_map.mpr ⟨_, member, rfl⟩)
  have found := List.getElem?_eq_getElem (List.mem_range.mp listed)
  exact ⟨_, found, numbered.each position part _ member found⟩

theorem replace (numbered : Numbered ((position, part) :: parts) shares) {share : Share σ α}
    (found : shares[position]? = some share) {changed : Progress σ α}
    {left : List (Activity σ α)} (remains : changed.Remains share.1.2 left) :
    Numbered ((position, changed) :: parts) (shares.set position (share.1, left)) := by
  refine ⟨by rw [List.length_set]; exact numbered.numbers, ?_⟩
  have absent := (List.nodup_cons.mp numbered.nodup).1
  intro other one given member present
  rcases List.mem_cons.mp member with same | elsewhere
  · obtain ⟨rfl, rfl⟩ := Prod.mk.inj same
    rw [List.getElem?_set_self (List.getElem?_eq_some_iff.mp found).1] at present
    obtain rfl := Option.some.inj present
    exact remains
  · have different : position ≠ other := by
      rintro rfl
      exact absent (List.mem_map.mpr ⟨_, elsewhere, rfl⟩)
    rw [List.getElem?_set_ne different] at present
    exact numbered.each other one given (List.mem_cons_of_mem _ elsewhere) present

theorem rouse {change : Nat × Progress σ α → Nat × Progress σ α}
    (numbered : Numbered (due ++ resting) shares) (own : ∀ entry, (change entry).1 = entry.1)
    (keeps : ∀ entry plan activities, entry.2.Remains plan activities →
      (change entry).2.Remains plan activities) :
    Numbered (due.map change ++ resting) shares where
  numbers := by
    have same : (due.map change ++ resting).map (·.1) = (due ++ resting).map (·.1) := by
      simp [own]
    exact same ▸ numbered.numbers
  each position part share member found := by
    rcases List.mem_append.mp member with front | back
    · obtain ⟨entry, listed, same⟩ := List.mem_map.mp front
      have place : entry.1 = position := (own entry).symm.trans (congrArg Prod.fst same)
      have remains := numbered.each entry.1 entry.2 share (List.mem_append_left _ listed)
        (place ▸ found)
      have roused : (change entry).2 = part := congrArg Prod.snd same
      exact roused ▸ keeps entry _ _ remains
    · exact numbered.each position part share (List.mem_append_right _ back) found

theorem sorted (numbered : Numbered parts shares) :
    Shared ((parts.mergeSort fun one other => one.1 ≤ other.1).map (·.2)) shares := by
  let ordered := parts.mergeSort fun one other => one.1 ≤ other.1
  have same : ordered.Perm parts := List.mergeSort_perm parts _
  have ascending : (ordered.map (·.1)).Pairwise (· ≤ ·) := by
    let before (one other : Nat × Progress σ α) : Bool := one.1 ≤ other.1
    have transitive : ∀ one two three, before one two = true → before two three = true →
        before one three = true := by
      simp only [before, decide_eq_true_eq]
      omega
    have total : ∀ one other, (before one other || before other one) = true := by
      simp only [before, Bool.or_eq_true, decide_eq_true_eq]
      omega
    exact List.pairwise_map.mpr ((List.pairwise_mergeSort transitive total parts).imp
      fun order => of_decide_eq_true order)
  have numbers : ordered.map (·.1) = List.range shares.length :=
    ((same.map _).trans numbered.numbers).eq_of_pairwise
      (fun _ _ _ _ below above => Nat.le_antisymm below above) ascending
      (List.pairwise_lt_range.imp Nat.le_of_lt)
  have length : ordered.length = shares.length := by
    rw [← List.length_map (·.1), numbers, List.length_range]
  refine List.forall₂_iff_zip.mpr ⟨(List.length_map _).trans length, fun {part share} member => ?_⟩
  obtain ⟨position, found⟩ := List.mem_iff_getElem?.mp member
  obtain ⟨atPlace, given⟩ := List.getElem?_zip_eq_some.mp found
  obtain ⟨⟨number, one⟩, stands, rfl⟩ := Option.map_eq_some_iff.mp
    ((List.getElem?_map ..).symm.trans atPlace)
  have own : (ordered.map (·.1))[position]? = some number := by
    rw [List.getElem?_map, stands, Option.map_some]
  obtain rfl : position = number := by
    rw [numbers] at own
    exact (List.getElem?_eq_some_iff.mp own).2 ▸ (List.getElem_range _).symm
  exact numbered.each position one share (same.mem_iff.mp (List.mem_of_getElem? stands)) given

theorem of_mapIdx {parts : List (Progress σ α)} (stand : Shared parts shares) :
    Numbered (parts.mapIdx fun position part => (position, part)) shares where
  numbers := by
    refine List.Perm.of_eq (List.ext_getElem ?_ ?_)
    · simpa using stand.length_eq
    · simp
  each position part share member found := by
    obtain ⟨place, inside, same⟩ := List.mem_mapIdx.mp member
    obtain ⟨rfl, rfl⟩ := Prod.mk.inj same
    obtain ⟨within, rfl⟩ := List.getElem?_eq_some_iff.mp found
    exact stand.get inside within

theorem remains (numbered : Numbered (due ++ resting) shares) (gather : List α → α) :
    (crowd due resting gather).Remains (.all (shares.map (·.1)) gather) (shares.flatMap (·.2)) :=
  .crowd gather numbered.numbers numbered.each

end Numbered

end Progress

/-! Beginnings and ends -/

namespace Plan

mutual

theorem remains_begin : (plan : Plan σ α) → plan.begin.Remains plan plan.activities
  | .one activity => .ahead activity activity
  | .all parts gather => by
      obtain ⟨shares, rfl, left, stand⟩ := shared_beginAll parts
      rw [begin, activities, ← left]
      split
      · exact .group gather stand
      · have numbered := Progress.Numbered.of_mapIdx stand
        rw [← List.append_nil (List.mapIdx _ _)] at numbered
        exact numbered.remains gather

theorem shared_beginAll : (parts : List (Option Nat × Plan σ α)) →
    ∃ shares : List (Share σ α), shares.map (·.1) = parts ∧
      shares.flatMap (·.2) = activitiesOfAll parts ∧ Progress.Shared (beginAll parts) shares
  | [] => ⟨[], rfl, rfl, .nil⟩
  | (none, plan) :: rest => by
      obtain ⟨shares, plans, left, stand⟩ := shared_beginAll rest
      refine ⟨((none, plan), plan.activities) :: shares, ?_, ?_, ?_⟩
      · rw [List.map_cons, plans]
      · rw [List.flatMap_cons, left, activitiesOfAll]
      · exact .cons (remains_begin plan) stand
  | (some ticks, plan) :: rest => by
      obtain ⟨shares, plans, left, stand⟩ := shared_beginAll rest
      refine ⟨((some ticks, plan), plan.activities) :: shares, ?_, ?_, ?_⟩
      · rw [List.map_cons, plans]
      · rw [List.flatMap_cons, left, activitiesOfAll]
      · exact .cons (.waiting _ (remains_begin plan)) stand

end

end Plan

namespace Progress

theorem makes_of_results {parts : List (Progress σ α)} {shares : List (Share σ α)}
    (stand : Shared parts shares) {results : List α} (ended : parts.mapM result? = some results) :
    ∃ given : List (List α × α), given.map (·.2) = results ∧
      (given.flatMap (·.1)).map .done = shares.flatMap (·.2) ∧
      List.Forall₂ (fun part gave => Plan.Makes part.2 gave.1 gave.2) (shares.map (·.1)) given := by
  induction stand generalizing results with
  | nil =>
      obtain rfl := Option.some.inj ended
      exact ⟨[], rfl, rfl, .nil⟩
  | @cons part share parts shares first _ ih =>
      rw [List.mapM_cons] at ended
      obtain ⟨result, finished, onward⟩ := Option.bind_eq_some_iff.mp ended
      obtain ⟨later, listed, same⟩ := Option.bind_eq_some_iff.mp onward
      obtain rfl := Option.some.inj same
      obtain ⟨given, gave, left, all⟩ := ih listed
      obtain ⟨⟨pause, plan⟩, activities⟩ := share
      dsimp only at first
      cases first with
      | @finished _ own value makes =>
          obtain rfl := Option.some.inj finished
          refine ⟨(own, value) :: given, ?_, ?_, .cons makes all⟩
          · rw [List.map_cons, gave]
          · rw [List.flatMap_cons, List.map_append, left, List.flatMap_cons]
      | _ => cases finished

theorem remains_ofGroup {parts : List (Progress σ α)} {shares : List (Share σ α)}
    (stand : Shared parts shares) (gather : List α → α) :
    (ofGroup parts gather).Remains (.all (shares.map (·.1)) gather) (shares.flatMap (·.2)) := by
  unfold ofGroup
  cases ended : parts.mapM result? with
  | none => exact .group gather stand
  | some results =>
      obtain ⟨given, rfl, left, all⟩ := makes_of_results stand ended
      exact left ▸ .finished (.all gather all)

theorem remains_ofCrowd {due resting : List (Nat × Progress σ α)} {shares : List (Share σ α)}
    (numbered : Numbered (due ++ resting) shares) (gather : List α → α) :
    (ofCrowd due resting gather).Remains (.all (shares.map (·.1)) gather)
      (shares.flatMap (·.2)) := by
  unfold ofCrowd
  dsimp only
  split
  · rename_i results ended
    obtain ⟨given, rfl, left, all⟩ := makes_of_results numbered.sorted ended
    exact left ▸ .finished (.all gather all)
  · exact numbered.remains gather

theorem remains_ofTask {task : Task σ α} {rest : Activity σ α} (first : Activity σ α)
    (remains : task.Remains rest) : (ofTask task).Remains (.one first) [rest] := by
  cases remains with
  | finished result => exact .finished (.one first result)
  | paused timer ticks next => exact .task first (.paused timer ticks next)
  | limited timer ticks late next inside underway =>
      exact .task first (.limited timer ticks late next inside underway)

/-! Waking -/

theorem remains_wake (place : Place) {progress : Progress σ α} {plan : Plan σ α}
    {activities : List (Activity σ α)} (remains : progress.Remains plan activities) :
    (progress.wake place).Remains plan activities := by
  induction place generalizing progress plan activities with
  | nil => cases progress <;> exact remains
  | cons position place ih =>
      cases remains with
      | finished makes => exact .finished makes
      | ahead first activity => exact .ahead first activity
      | task first remains => exact .task first remains
      | waiting timer remains => exact .waiting timer remains
      | @group parts shares gather each =>
          refine .group gather ?_
          induction each generalizing position with
          | nil =>
              rw [List.modify_nil]
              exact .nil
          | cons first others onward =>
              cases position with
              | zero => exact .cons (ih first) others
              | succ position => exact .cons first (onward position)
      | @crowd due resting shares gather numbers each =>
          have numbered : Numbered (due ++ resting) shares := ⟨numbers, each⟩
          have parted := numbered.perm (List.Perm.append_left due
            (List.filter_append_perm (·.1 == position) resting))
          rw [← List.append_assoc] at parted
          rw [wake, List.partition_eq_filter_filter]
          refine (parted.rouse ?_ ?_).remains gather
          · intro entry
            split <;> rfl
          · intro entry plan activities remains
            split
            · exact ih remains
            · exact remains

theorem remains_wakeAll (places : List Place) {progress : Progress σ α} {plan : Plan σ α}
    {activities : List (Activity σ α)} (remains : progress.Remains plan activities) :
    (progress.wakeAll places).Remains plan activities := by
  induction places generalizing progress with
  | nil => exact remains
  | cons place rest ih => exact ih (remains_wake place remains)

/-! Turns -/

def GoesOn (supply : Nat → Moment) (plan : Plan σ α) (activities : List (Activity σ α))
    (moment : Nat) (state : σ) (outcome : Progress σ α × Bool × Turn × σ) : Prop :=
  ∃ left, outcome.1.Remains plan left ∧
    Interleaves supply activities moment state left outcome.2.2.1.moments outcome.2.2.2

def Advances (supply : Nat → Moment) (resume : Resumption σ α) : Prop :=
  ∀ (place : Place) {progress : Progress σ α} {plan : Plan σ α} {activities : List (Activity σ α)}
    (turn : Turn) (state : σ), progress.Remains plan activities →
    GoesOn supply plan activities turn.moments state (resume place progress turn state)

section Parts

variable {resume : Resumption σ α} {shares : List (Share σ α)}

theorem resumeAll_goesOn (advances : Advances supply resume) (place : Place)
    {parts : List (Progress σ α)} (stand : Shared parts shares) (position : Nat) (turn : Turn)
    (state : σ) :
    let outcome := resumeAll resume place position parts turn state
    ∃ later : List (Share σ α), later.map (·.1) = shares.map (·.1) ∧ Shared outcome.1 later ∧
      Interleaves supply (shares.flatMap (·.2)) turn.moments state (later.flatMap (·.2))
        outcome.2.2.1.moments outcome.2.2.2 := by
  induction stand generalizing position turn state with
  | nil => exact ⟨[], rfl, .nil, .refl _ _ (Nat.le_refl _)⟩
  | @cons part share parts shares first _ ih =>
      obtain ⟨left, remains, goes⟩ := advances (place ++ [position]) turn state first
      simp only [resumeAll]
      generalize resume (place ++ [position]) part turn state = outcome at remains goes
      obtain ⟨part, again, middle, between⟩ := outcome
      obtain ⟨later, plans, stands, onward⟩ := ih (position + 1) middle between
      refine ⟨(share.1, left) :: later, ?_, .cons remains stands, ?_⟩
      · rw [List.map_cons, plans, List.map_cons]
      · have before := goes.among [] (shares.flatMap (·.2))
        have after := onward.among left []
        simp only [List.nil_append, List.append_nil] at before after
        exact before.trans after

theorem interleaves_share {share : Share σ α} {position moment last : Nat} {state after : σ}
    {left : List (Activity σ α)} (found : shares[position]? = some share)
    (goes : Interleaves supply share.2 moment state left last after) :
    Interleaves supply (shares.flatMap (·.2)) moment state
      ((shares.set position (share.1, left)).flatMap (·.2)) last after := by
  obtain ⟨inside, rfl⟩ := List.getElem?_eq_some_iff.mp found
  obtain ⟨before, behind, parts, _, changed⟩ :=
    @List.exists_of_set _ position (shares[position].1, left) shares inside
  have first : shares.flatMap (·.2) =
      before.flatMap (·.2) ++ shares[position].2 ++ behind.flatMap (·.2) := by
    rw [List.append_assoc, ← List.flatMap_cons, ← List.flatMap_append, ← parts]
  rw [first, changed, List.flatMap_append, List.flatMap_cons, ← List.append_assoc]
  exact goes.among _ _

theorem map_fst_set {share : Share σ α} {position : Nat} (found : shares[position]? = some share)
    (left : List (Activity σ α)) :
    (shares.set position (share.1, left)).map (·.1) = shares.map (·.1) := by
  have own : (shares.map (·.1))[position]? = some share.1 := by
    rw [List.getElem?_map, found, Option.map_some]
  obtain ⟨inside, same⟩ := List.getElem?_eq_some_iff.mp own
  rw [List.map_set, ← same, List.set_getElem_self]

theorem resumeDue_goesOn (advances : Advances supply resume) (place : Place) (looks : Nat)
    (lap : Lap) (due resting : List (Nat × Progress σ α)) (again : Bool) (turn : Turn) (state : σ)
    (numbered : Numbered (due ++ resting) shares) :
    let outcome := resumeDue resume place looks lap due resting again turn state
    ∃ later : List (Share σ α), later.map (·.1) = shares.map (·.1) ∧
      Numbered (outcome.1.1 ++ outcome.1.2) later ∧
      Interleaves supply (shares.flatMap (·.2)) turn.moments state (later.flatMap (·.2))
        outcome.2.2.1.moments outcome.2.2.2 := by
  induction looks generalizing lap due resting again turn state shares with
  | zero => exact ⟨shares, rfl, numbered, .refl _ _ (Nat.le_refl _)⟩
  | succ looks ih =>
      cases due with
      | nil => exact ⟨shares, rfl, numbered, .refl _ _ (Nat.le_refl _)⟩
      | cons entry due =>
          obtain ⟨position, part⟩ := entry
          obtain ⟨share, found, stands⟩ := numbered.share List.mem_cons_self
          obtain ⟨left, remains, goes⟩ := advances (place ++ [position]) turn state stands
          simp only [resumeDue]
          generalize resume (place ++ [position]) part turn state = outcome at remains goes
          obtain ⟨part, restless, middle, between⟩ := outcome
          have replaced := numbered.replace found remains
          have first := interleaves_share found goes
          have plans := map_fst_set found left
          have retires : Numbered (due ++ (position, part) :: resting) _ :=
            replaced.perm List.perm_middle
          have queues : Numbered ((due ++ [(position, part)]) ++ resting) _ :=
            retires.perm (List.Perm.of_eq (List.append_cons ..).symm)
          by_cases finished : part.result?.isSome = true
          · rw [if_pos finished]
            obtain ⟨later, same, stand, onward⟩ :=
              ih lap.finish due ((position, part) :: resting) again middle between retires
            exact ⟨later, same.trans plans, stand, first.trans onward⟩
          · rw [if_neg finished]
            -- Wherever the part goes to, it keeps its number.
            let moved := if restless = true then (due ++ [(position, part)], resting)
              else (due, (position, part) :: resting)
            have keeps : Numbered (moved.1 ++ moved.2) (shares.set position (share.1, left)) := by
              cases restless with
              | true => exact queues
              | false => exact retires
            split
            · exact ⟨_, plans, keeps, first⟩
            · obtain ⟨later, same, stand, onward⟩ :=
                ih (lap.pause restless) moved.1 moved.2 (again || restless) middle between keeps
              exact ⟨later, same.trans plans, stand, first.trans onward⟩

end Parts

theorem resume_goesOn (supply : Nat → Moment) (depth : Nat) :
    Advances supply (resume supply depth : Resumption σ α) := by
  induction depth with
  | zero =>
      intro place progress plan activities turn state remains
      exact ⟨activities, remains, .refl _ _ (Nat.le_refl _)⟩
  | succ depth ih =>
      intro place progress plan activities turn state remains
      cases remains with
      | finished makes => exact ⟨_, .finished makes, .refl _ _ (Nat.le_refl _)⟩
      | ahead first activity =>
          obtain ⟨rest, left, goes⟩ := Task.start_goesOn supply place activity turn state
          exact ⟨[rest], remains_ofTask first left, .of_reaches goes [] []⟩
      | task first running =>
          obtain ⟨rest, left, goes⟩ := Task.resume_goesOn supply place running turn state
          exact ⟨[rest], remains_ofTask first left, .of_reaches goes [] []⟩
      | @waiting part plan activities timer remains =>
          have moments := turn.moments_check place timer
          simp only [resume]
          generalize turn.check place timer = checked at moments
          obtain ⟨_ | timer, later⟩ := checked
          · exact moments ▸ ih place later state remains
          · exact ⟨activities, .waiting timer remains, .refl _ _ (Nat.le_of_eq moments.symm)⟩
      | @group parts shares gather each =>
          obtain ⟨later, plans, stand, goes⟩ := resumeAll_goesOn ih place each 0 turn state
          simp only [resume]
          exact ⟨_, plans ▸ remains_ofGroup stand gather, goes⟩
      | @crowd due resting shares gather numbers each =>
          let unfinished := due.length + (resting.filter (·.2.result?.isNone)).length
          obtain ⟨later, plans, numbered, goes⟩ := resumeDue_goesOn ih place
            ((unfinished + 1) * (unfinished + 1)) ⟨unfinished, 0, 0⟩ due resting false turn state
            ⟨numbers, each⟩
          simp only [resume]
          exact ⟨_, plans ▸ remains_ofCrowd numbered gather, goes⟩

/-- The outcome of a run is what steps of the activities lead to, and its result what they make. -/
def RunsTo (supply : Nat → Moment) (plan : Plan σ α) (activities : List (Activity σ α))
    (moment : Nat) (state : σ) (outcome : Option α × Turn × σ) : Prop :=
  ∃ left, Interleaves supply activities moment state left outcome.2.1.moments outcome.2.2 ∧
    ∀ result, outcome.1 = some result →
      ∃ results, left = results.map .done ∧ plan.Makes results result

theorem runsTo (supply : Nat → Moment) (depth turns : Nat) {progress : Progress σ α}
    {plan : Plan σ α} {activities : List (Activity σ α)}
    (remains : progress.Remains plan activities) (turn : Turn) (state : σ) :
    RunsTo supply plan activities turn.moments state
      (progress.run supply depth turns turn state) := by
  induction turns generalizing progress activities turn state with
  | zero => exact ⟨activities, .refl _ _ (Nat.le_refl _), fun _ none => (by cases none)⟩
  | succ turns ih =>
      obtain ⟨left, remains, goes⟩ := resume_goesOn supply depth [] turn state remains
      simp only [run]
      generalize resume supply depth [] progress turn state = outcome at remains goes
      obtain ⟨progress, again, middle, between⟩ := outcome
      dsimp only at remains goes ⊢
      have onward : ∀ (places : List Place) (later : Turn), later.moments = middle.moments →
          RunsTo supply plan activities turn.moments state
            ((progress.wakeAll places).run supply depth turns later between) := by
        intro places later same
        obtain ⟨last, rest, makes⟩ := ih (remains_wakeAll places remains) later between
        exact ⟨last, goes.trans (same ▸ rest), makes⟩
      cases ended : progress.result? with
      | some result =>
          refine ⟨left, goes, fun other same => ?_⟩
          obtain rfl := Option.some.inj same
          cases remains with
          | finished makes =>
              obtain rfl := Option.some.inj ended
              exact ⟨_, rfl, makes⟩
          | _ => cases ended
      | none =>
          dsimp only
          split
          · exact onward middle.yielded middle.next rfl
          · split
            · exact ⟨left, goes, fun _ none => (by cases none)⟩
            · rename_i tick _
              exact onward _ { middle.next with now := tick } rfl

end Progress

/-- A plan runs by steps of its activities, one at a time. -/
theorem Plan.runsTo (supply : Nat → Moment) (plan : Plan σ α) (turn : Turn) (state : σ) :
    Progress.RunsTo supply plan plan.activities turn.moments state (plan.run supply turn state) :=
  Progress.runsTo supply plan.depth _ plan.remains_begin turn state

end CachedStore
