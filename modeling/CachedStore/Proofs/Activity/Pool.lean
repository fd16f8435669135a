import Mathlib.Logic.Relation
import CachedStore.Proofs.Activity.Ending

/-!
Activities that share a state and take their steps by turns, in any order, none of them held up
until its limit. Each is in two parts, so that it can be told what the first one gave.
-/

namespace CachedStore

/-- What shares a state, and how far each has come. -/
structure Pool (σ : Type) (τ : Type 1) : Type 1 where
  state : σ
  threads : List τ

namespace Pool

variable {σ : Type} {τ υ : Type 1}

def turn (advance : Moment → τ → σ → τ × σ) (pool : Pool σ τ) (turn : Nat × Moment) : Pool σ τ :=
  match pool.threads[turn.1]? with
  | none => pool
  | some thread =>
    let (thread, state) := advance turn.2 thread pool.state
    ⟨state, pool.threads.set turn.1 thread⟩

def run (advance : Moment → τ → σ → τ × σ) (pool : Pool σ τ) (turns : List (Nat × Moment)) :
    Pool σ τ := turns.foldl (Pool.turn advance) pool

theorem getElem?_turn (advance : Moment → τ → σ → τ × σ) {pool : Pool σ τ} {turn : Nat × Moment}
    {thread : τ} (found : pool.threads[turn.1]? = some thread) :
    (pool.turn advance turn).threads[turn.1]? = some (advance turn.2 thread pool.state).1 := by
  have inside := (List.getElem?_eq_some_iff.mp found).1
  simp only [Pool.turn, found, List.getElem?_set, ↓reduceIte, inside]

theorem getElem?_turn_of_ne (advance : Moment → τ → σ → τ × σ) (pool : Pool σ τ)
    {turn : Nat × Moment} {position : Nat} (other : turn.1 ≠ position) :
    (pool.turn advance turn).threads[position]? = pool.threads[position]? := by
  unfold Pool.turn
  cases pool.threads[turn.1]? with
  | none => rfl
  | some thread => exact List.getElem?_set_ne other

theorem turn_of_missing (advance : Moment → τ → σ → τ × σ) {pool : Pool σ τ} {turn : Nat × Moment}
    (missing : pool.threads[turn.1]? = none) : pool.turn advance turn = pool := by
  simp only [Pool.turn, missing]

theorem length_run (advance : Moment → τ → σ → τ × σ) (pool : Pool σ τ)
    (turns : List (Nat × Moment)) :
    (pool.run advance turns).threads.length = pool.threads.length := by
  induction turns generalizing pool with
  | nil => rfl
  | cons turn rest ih =>
      refine (ih (pool.turn advance turn)).trans ?_
      unfold Pool.turn
      cases pool.threads[turn.1]? with
      | none => rfl
      | some thread => exact List.length_set

def map (shows : τ → υ) (pool : Pool σ τ) : Pool σ υ := ⟨pool.state, pool.threads.map shows⟩

/-- So many turns of one thread, then so many of another, with a moment for each of them. -/
def rounds (moment : Nat → Moment) (counts : List (Nat × Nat)) : List (Nat × Moment) :=
  counts.flatMap fun (position, count) => List.replicate count (position, moment position)

section Map

variable {advance : Moment → τ → σ → τ × σ} {goes : Moment → υ → σ → υ × σ} {shows : τ → υ}
  {proper : τ → Prop}

theorem map_turn
    (same : ∀ moment thread state, proper thread →
      goes moment (shows thread) state =
        (shows (advance moment thread state).1, (advance moment thread state).2))
    {pool : Pool σ τ} (all : ∀ thread ∈ pool.threads, proper thread) (turn : Nat × Moment) :
    (pool.turn advance turn).map shows = (pool.map shows).turn goes turn := by
  unfold Pool.turn map
  rw [List.getElem?_map]
  cases found : pool.threads[turn.1]? with
  | none => rfl
  | some thread =>
      simp only [Option.map_some, same _ _ _ (all thread (List.mem_of_getElem? found)),
        List.map_set]

theorem map_run
    (same : ∀ moment thread state, proper thread →
      goes moment (shows thread) state =
        (shows (advance moment thread state).1, (advance moment thread state).2))
    (stays : ∀ moment thread state, proper thread → proper (advance moment thread state).1)
    {pool : Pool σ τ} (all : ∀ thread ∈ pool.threads, proper thread)
    (turns : List (Nat × Moment)) :
    (pool.run advance turns).map shows = (pool.map shows).run goes turns := by
  induction turns generalizing pool with
  | nil => rfl
  | cons turn rest ih =>
      have next : ∀ thread ∈ (pool.turn advance turn).threads, proper thread := by
        intro thread member
        unfold Pool.turn at member
        cases found : pool.threads[turn.1]? with
        | none =>
            rw [found] at member
            exact all thread member
        | some moved =>
            rw [found] at member
            rcases List.mem_or_eq_of_mem_set member with before | rfl
            · exact all thread before
            · exact stays _ _ _ (all moved (List.mem_of_getElem? found))
      have onward := ih next
      rw [map_turn same all turn] at onward
      exact onward

end Map

end Pool

/-- An activity in two parts, with what the first one gave once it is over. -/
inductive Staged (σ β α : Type) : Type 1 where
  | first (rest : Activity σ β) (next : β → Activity σ α)
  | second (given : β) (rest : Activity σ α)

namespace Staged

variable {σ W α β : Type}

def enter (next : β → Activity σ α) : Activity σ β → Staged σ β α
  | .done given => .second given (next given)
  | rest => .first rest next

def advance (moment : Moment) : Staged σ β α → σ → Staged σ β α × σ
  | first rest next, state =>
    (enter next (rest.advance moment 0 state).1, (rest.advance moment 0 state).2)
  | second given rest, state =>
    (second given (rest.advance moment 0 state).1, (rest.advance moment 0 state).2)

def activity : Staged σ β α → Activity σ α
  | first rest next => rest.bind next
  | second _ rest => rest

def given? : Staged σ β α → Option β
  | first _ _ => none
  | second given _ => some given

def result? : Staged σ β α → Option α
  | second _ (.done result) => some result
  | _ => none

def Proper : Staged σ β α → Prop
  | first rest _ => rest.isDone = false
  | second _ _ => True

theorem enter_of_underway {next : β → Activity σ α} {rest : Activity σ β}
    (underway : rest.isDone = false) : enter next rest = .first rest next := by
  cases rest with
  | done given => simp [Activity.isDone] at underway
  | _ => rfl

theorem activity_enter (next : β → Activity σ α) (rest : Activity σ β) :
    (enter next rest).activity = rest.bind next := by
  cases rest <;> rfl

theorem proper_enter (next : β → Activity σ α) (rest : Activity σ β) :
    (enter next rest).Proper := by
  cases rest with
  | done given => trivial
  | _ => rfl

theorem proper_advance {moment : Moment} {thread : Staged σ β α} {state : σ}
    (proper : thread.Proper) : (thread.advance moment state).1.Proper := by
  cases thread with
  | first rest next => exact proper_enter next _
  | second given rest => trivial

theorem advance_activity {moment : Moment} {thread : Staged σ β α} {state : σ}
    (proper : thread.Proper) :
    thread.activity.advance moment 0 state =
      ((thread.advance moment state).1.activity, (thread.advance moment state).2) := by
  cases thread with
  | first rest next =>
      rw [activity, rest.advance_bind proper]
      simp only [advance, activity_enter]
  | second given rest => rfl

/-- Activities that enter in their parts run as they do in one piece. -/
theorem run_enter {ι : Type} {members : List ι} {first : ι → Activity σ β}
    {next : ι → β → Activity σ α} {whole : ι → Activity σ α}
    (parts : ∀ member ∈ members, (first member).bind (next member) = whole member) (state : σ)
    (turns : List (Nat × Moment)) :
    (Pool.run Staged.advance ⟨state, members.map fun member => enter (next member) (first member)⟩
        turns).map activity =
      Pool.run (fun moment rest => rest.advance moment 0) ⟨state, members.map whole⟩ turns := by
  let pool : Pool σ (Staged σ β α) :=
    ⟨state, members.map fun member => enter (next member) (first member)⟩
  have shows : pool.map activity = ⟨state, members.map whole⟩ := by
    simp only [pool, Pool.map, List.map_map]
    congr 1
    refine List.map_congr_left fun member listed => ?_
    rw [Function.comp_apply, activity_enter, parts member listed]
  have proper : ∀ thread ∈ pool.threads, thread.Proper := by
    intro thread member
    obtain ⟨known, _, rfl⟩ := List.mem_map.mp member
    exact proper_enter _ _
  rw [← shows]
  exact Pool.map_run (fun _ _ _ proper => advance_activity proper)
    (fun _ _ _ => proper_advance) proper turns

theorem result_of_done {thread : Staged σ β α} (proper : thread.Proper)
    (finished : thread.activity.isDone = true) : thread.result?.isSome = true := by
  cases thread with
  | first rest next =>
      have underway : rest.isDone = false := proper
      cases rest with
      | done given => simp [Activity.isDone] at underway
      | act effect onward => simp [activity, Activity.bind, Activity.isDone] at finished
      | pause ticks onward => simp [activity, Activity.bind, Activity.isDone] at finished
      | within ticks late inner onward =>
          simp [activity, Activity.bind, Activity.isDone] at finished
  | second given rest =>
      obtain ⟨result, rfl⟩ := Activity.eq_done finished
      rfl

theorem ends_advance {moment : Moment} {thread : Staged σ β α} {state : σ} {steps : Nat}
    (proper : thread.Proper) (ends : thread.activity.EndsWithin (steps + 1)) :
    (thread.advance moment state).1.activity.EndsWithin steps := by
  have same : (thread.advance moment state).1.activity =
      (thread.activity.advance moment 0 state).1 := by rw [advance_activity proper]
  rw [same]
  by_cases finished : thread.activity.isDone = true
  · obtain ⟨result, done⟩ := Activity.eq_done finished
    rw [done]
    trivial
  · have underway : thread.activity.isDone = false := by simpa using finished
    obtain ⟨fewer, less, onward⟩ := ends.advance moment state underway
    exact onward.mono (by omega)

end Staged

namespace Pool

variable {σ α β : Type} (pool : Pool σ (Staged σ β α)) (position : Nat)

def given? : Option β := pool.threads[position]?.bind Staged.given?

def result? : Option α := pool.threads[position]?.bind Staged.result?

variable {pool position}

/-- A thread that has had as many turns as it takes at most has ended, whatever the others did. -/
theorem ended_of_turns {turns : List (Nat × Moment)} {thread : Staged σ β α}
    (found : pool.threads[position]? = some thread) (proper : thread.Proper)
    (ends : thread.activity.EndsWithin ((turns.map (·.1)).count position)) :
    ∃ last, (pool.run Staged.advance turns).threads[position]? = some last ∧
      last.result?.isSome = true := by
  induction turns generalizing pool thread with
  | nil => exact ⟨thread, found, Staged.result_of_done proper ends.isDone⟩
  | cons turn rest ih =>
      by_cases own : turn.1 = position
      · subst own
        rw [List.map_cons, List.count_cons_self] at ends
        exact ih (getElem?_turn Staged.advance found) (Staged.proper_advance proper)
          (Staged.ends_advance proper ends)
      · rw [List.map_cons, List.count_cons_of_ne own] at ends
        exact ih ((getElem?_turn_of_ne Staged.advance pool own).trans found) proper ends

theorem ended_of_enter {ι : Type} {members : List ι} {first : ι → Activity σ β}
    {next : ι → β → Activity σ α} {steps : Nat} (state : σ) {turns : List (Nat × Moment)}
    (ends : ∀ member ∈ members, ((first member).bind (next member)).EndsWithin steps)
    (enough : ∀ position < members.length, steps ≤ (turns.map (·.1)).count position) :
    ∀ thread ∈ (Pool.run Staged.advance
        ⟨state, members.map fun member => Staged.enter (next member) (first member)⟩
        turns).threads, thread.result?.isSome = true := by
  intro thread member
  obtain ⟨position, present⟩ := List.getElem?_of_mem member
  have inside : position < members.length := by
    have bound := (List.getElem?_eq_some_iff.mp present).1
    rwa [length_run, List.length_map] at bound
  let pool : Pool σ (Staged σ β α) :=
    ⟨state, members.map fun member => Staged.enter (next member) (first member)⟩
  have found : pool.threads[position]? =
      some (Staged.enter (next members[position]) (first members[position])) := by
    rw [List.getElem?_map, List.getElem?_eq_getElem inside]
    rfl
  have bounded := (ends _ (List.getElem_mem inside)).mono (enough position inside)
  rw [← Staged.activity_enter] at bounded
  obtain ⟨last, ran, ended⟩ := ended_of_turns found (Staged.proper_enter _ _) bounded
  obtain rfl := Option.some.inj (ran.symm.trans present)
  exact ended

end Pool

/-- What those at the several positions may do to a world that they share. -/
structure Protocol (σ W : Type) where
  state : W → σ
  admits : Moment → Prop
  step : Nat → W → Moment → W → Prop
  idle : ∀ position world moment, step position world moment world

namespace Protocol

variable {σ W : Type} (protocol : Protocol σ W)

def Other (position : Nat) (before after : W) : Prop :=
  ∃ other moment, other ≠ position ∧ protocol.admits moment ∧
    protocol.step other before moment after

def rules (position : Nat) : Rules σ W where
  state := protocol.state
  admits _ moment := protocol.admits moment
  later := Relation.ReflTransGen (protocol.Other position)
  step := protocol.step position
  limits := False
  refl _ := .refl
  trans := .trans
  idle {world moment} _ := ⟨world, protocol.idle position world moment, .refl, rfl⟩

end Protocol

section Stands

variable {σ W α β : Type} {protocol : Protocol σ W} {early : Nat → W → Prop}
  {cut : Nat → β → W → Prop} {post : Nat → β → α → W → Prop}

/--
A thread is safe at its position. In its first part `early` holds, in the second one `cut` does for
what the first one gave, and in the end `post` does.
-/
def Staged.Stands (protocol : Protocol σ W) (early : Nat → W → Prop) (cut : Nat → β → W → Prop)
    (post : Nat → β → α → W → Prop) (position : Nat) : Staged σ β α → W → Prop
  | .first rest next, world => rest.isDone = false ∧
    Activity.Safe (protocol.rules position) (early position) rest
      (fun given met => Activity.Safe (protocol.rules position) (cut position given) (next given)
        (post position given) met) world
  | .second given rest, world =>
    Activity.Safe (protocol.rules position) (cut position given) rest (post position given) world

theorem Staged.stands_enter {position : Nat} {rest : Activity σ β} {next : β → Activity σ α}
    {world : W}
    (safe : Activity.Safe (protocol.rules position) (early position) rest
      (fun given met => Activity.Safe (protocol.rules position) (cut position given) (next given)
        (post position given) met) world) :
    (Staged.enter next rest).Stands protocol early cut post position world := by
  by_cases finished : rest.isDone = true
  · obtain ⟨given, rfl⟩ := Activity.eq_done finished
    exact safe
  · have underway : rest.isDone = false := by simpa using finished
    rw [Staged.enter_of_underway underway]
    exact ⟨underway, safe⟩

def Lasting (protocol : Protocol σ W) (post : Nat → β → α → W → Prop) : Prop :=
  ∀ (position : Nat) (given : β) (result : α) (before after : W),
    protocol.Other position before after → post position given result before →
    post position given result after

theorem Staged.Stands.other {position : Nat} {thread : Staged σ β α} {before after : W}
    (lasts : Lasting protocol post) (stands : thread.Stands protocol early cut post position before)
    (other : protocol.Other position before after) :
    thread.Stands protocol early cut post position after := by
  cases thread with
  | first rest next => exact ⟨stands.1, stands.2.later stands.1 (.single other)⟩
  | second given rest =>
      by_cases finished : rest.isDone = true
      · obtain ⟨result, rfl⟩ := Activity.eq_done finished
        exact lasts position given result before after other stands
      · have underway : rest.isDone = false := by simpa using finished
        exact Activity.Safe.later stands underway (.single other)

theorem Staged.Stands.advance {position : Nat} {thread : Staged σ β α} {world : W}
    {moment : Moment} (stands : thread.Stands protocol early cut post position world)
    (admitted : protocol.admits moment) :
    ∃ after, protocol.step position world moment after ∧
      protocol.state after = (thread.advance moment (protocol.state world)).2 ∧
      (thread.advance moment (protocol.state world)).1.Stands protocol early cut post position
        after := by
  cases thread with
  | first rest next =>
      obtain ⟨after, step, state, safe⟩ := stands.2.advance stands.1
        ((protocol.rules position).refl world) admitted 0 (absurd rfl)
      exact ⟨after, step, state, Staged.stands_enter safe⟩
  | second given rest =>
      by_cases finished : rest.isDone = true
      · obtain ⟨result, rfl⟩ := Activity.eq_done finished
        exact ⟨world, protocol.idle position world moment, rfl, stands⟩
      · have underway : rest.isDone = false := by simpa using finished
        obtain ⟨after, step, state, safe⟩ := Activity.Safe.advance stands underway
          ((protocol.rules position).refl world) admitted 0 (absurd rfl)
        exact ⟨after, step, state, safe⟩

namespace Pool

structure Stands (protocol : Protocol σ W) (early : Nat → W → Prop) (cut : Nat → β → W → Prop)
    (post : Nat → β → α → W → Prop) (pool : Pool σ (Staged σ β α)) (world : W) : Prop where
  state : protocol.state world = pool.state
  threads : ∀ position (thread : Staged σ β α), pool.threads[position]? = some thread →
    thread.Stands protocol early cut post position world

variable {pool : Pool σ (Staged σ β α)} {world : W}

theorem Stands.turn (lasts : Lasting protocol post)
    (stands : pool.Stands protocol early cut post world) {turn : Nat × Moment}
    (admitted : protocol.admits turn.2) :
    ∃ after, protocol.step turn.1 world turn.2 after ∧
      (pool.turn Staged.advance turn).Stands protocol early cut post after := by
  cases found : pool.threads[turn.1]? with
  | none =>
      rw [turn_of_missing Staged.advance found]
      exact ⟨world, protocol.idle turn.1 world turn.2, stands⟩
  | some thread =>
      obtain ⟨after, step, state, stood⟩ := (stands.threads turn.1 thread found).advance admitted
      rw [stands.state] at state stood
      have inside := (List.getElem?_eq_some_iff.mp found).1
      refine ⟨after, step, ?_, fun position moved present => ?_⟩
      · simpa only [Pool.turn, found] using state
      · simp only [Pool.turn, found, List.getElem?_set] at present
        by_cases same : turn.1 = position
        · subst same
          obtain rfl : _ = moved := by simpa [inside] using present
          exact stood
        · rw [if_neg same] at present
          exact (stands.threads position moved present).other lasts
            ⟨turn.1, turn.2, same, admitted, step⟩

theorem Stands.run (lasts : Lasting protocol post) {turns : List (Nat × Moment)}
    (stands : pool.Stands protocol early cut post world)
    (admitted : ∀ turn ∈ turns, protocol.admits turn.2) :
    ∃ after, (pool.run Staged.advance turns).Stands protocol early cut post after := by
  induction turns generalizing pool world with
  | nil => exact ⟨world, stands⟩
  | cons turn rest ih =>
      obtain ⟨after, _, stood⟩ := stands.turn lasts (admitted turn List.mem_cons_self)
      exact ih stood fun other member => admitted other (.tail _ member)

theorem Stands.of_first {position : Nat} {thread : Staged σ β α}
    (stands : pool.Stands protocol early cut post world)
    (found : pool.threads[position]? = some thread) (still : thread.given? = none) :
    early position world := by
  have stood := stands.threads position thread found
  cases thread with
  | first rest next => exact stood.2.cut_now stood.1
  | second given rest => cases still

theorem Stands.of_second {position : Nat} {thread : Staged σ β α} {given : β}
    (stands : pool.Stands protocol early cut post world)
    (found : pool.threads[position]? = some thread) (gave : thread.given? = some given) :
    cut position given world ∨ ∃ result, post position given result world := by
  have stood := stands.threads position thread found
  cases thread with
  | first rest next => cases gave
  | second known rest =>
      obtain rfl : known = given := Option.some.inj gave
      by_cases finished : rest.isDone = true
      · obtain ⟨result, rfl⟩ := Activity.eq_done finished
        exact Or.inr ⟨result, stood⟩
      · have underway : rest.isDone = false := by simpa using finished
        exact Or.inl (Activity.Safe.cut_now stood underway)

theorem Stands.of_result {position : Nat} {thread : Staged σ β α} {result : α}
    (stands : pool.Stands protocol early cut post world)
    (found : pool.threads[position]? = some thread) (ended : thread.result? = some result) :
    ∃ given, thread.given? = some given ∧ post position given result world := by
  have stood := stands.threads position thread found
  cases thread with
  | first rest next => simp [Staged.result?] at ended
  | second given rest =>
      cases rest with
      | done last =>
          obtain rfl : last = result := Option.some.inj ended
          exact ⟨given, rfl, stood⟩
      | _ => simp [Staged.result?] at ended

end Pool

end Stands

end CachedStore
