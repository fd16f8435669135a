import CachedStore.Activity.Task
import CachedStore.Proofs.Activity.Clocked
import CachedStore.Proofs.Activity.Interference

/-!
The steps of an activity account for all that it does: each run alone, and each turn among others,
is a sequence of them, at moments of one clock in their order.
-/

namespace CachedStore

namespace Activity

variable {σ α β : Type} {clock : Nat → Moment}

/-- What an activity may come to between two moments, and in which state. -/
inductive Reaches (clock : Nat → Moment) :
    Activity σ α → Nat → σ → Activity σ α → Nat → σ → Prop where
  | refl (activity : Activity σ α) (state : σ) {moment last : Nat} (onward : moment ≤ last) :
      Reaches clock activity moment state activity last state
  | step {activity final : Activity σ α} {state after : σ} {moment now last : Nat} (late : Nat)
      (onward : moment ≤ now)
      (rest : Reaches clock (activity.advance (clock now) late state).1 now
        (activity.advance (clock now) late state).2 final last after) :
      Reaches clock activity moment state final last after

namespace Reaches

variable {moment now last : Nat} {state between after : σ}

theorem earlier {activity final : Activity σ α}
    (reaches : Reaches clock activity now state final last after) (onward : moment ≤ now) :
    Reaches clock activity moment state final last after := by
  cases reaches with
  | refl _ _ later => exact .refl _ _ (Nat.le_trans onward later)
  | step late later rest => exact .step late (Nat.le_trans onward later) rest

theorem trans {first middle final : Activity σ α}
    (reaches : Reaches clock first moment state middle now between)
    (goesOn : Reaches clock middle now between final last after) :
    Reaches clock first moment state final last after := by
  induction reaches with
  | refl activity state onward => exact goesOn.earlier onward
  | step late onward _ ih => exact .step late onward (ih goesOn)

theorem le {activity final : Activity σ α}
    (reaches : Reaches clock activity moment state final last after) : moment ≤ last := by
  induction reaches with
  | refl _ _ onward => exact onward
  | step late onward _ ih => exact Nat.le_trans onward ih

theorem eq_of_done {activity final : Activity σ α}
    (reaches : Reaches clock activity moment state final last after)
    (finished : activity.isDone = true) : final = activity ∧ after = state := by
  induction reaches with
  | refl activity state => exact ⟨rfl, rfl⟩
  | step late _ _ ih =>
      obtain ⟨result, rfl⟩ := eq_done finished
      exact ih rfl

theorem within {inner final : Activity σ β} {ticks : Nat} {late : β} {next : β → Activity σ α}
    (reaches : Reaches clock inner moment state final last after) :
    Reaches clock (.within ticks late inner next) moment state (final.pass ticks late next) last
      after := by
  induction reaches with
  | @refl inner state moment last onward =>
      by_cases finished : inner.isDone = true
      · obtain ⟨result, rfl⟩ := eq_done finished
        exact .step 0 (Nat.le_refl moment) (.refl _ _ onward)
      · rw [pass_of_underway (by simpa using finished)]
        exact .refl _ _ onward
  | @step inner final state after moment now last inside onward rest ih =>
      -- The limits inside are numbered from the second on.
      let outside := if inside = 0 then 0 else inside + 1
      have inward : outside - 1 = inside ∧ outside ≠ 1 := by
        by_cases noneInside : inside = 0
        · simp [outside, noneInside]
        · simp [outside, noneInside]
      have advanced : (Activity.within ticks late inner next).advance (clock now) outside state =
          ((inner.advance (clock now) inside state).1.pass ticks late next,
            (inner.advance (clock now) inside state).2) := by
        simp only [advance, inward.1, inward.2, false_and, ↓reduceIte]
      refine .step outside onward ?_
      rw [advanced]
      by_cases finished : (inner.advance (clock now) inside state).1.isDone = true
      · obtain ⟨same, stays⟩ := rest.eq_of_done finished
        rw [same, stays]
        exact .refl _ _ rest.le
      · rw [pass_of_underway (by simpa using finished)]
        exact ih

theorem giveUp {inner final : Activity σ β} {ticks : Nat} {late : β} {next : β → Activity σ α}
    (reaches : Reaches clock inner moment state final last after)
    (underway : final.isDone = false) :
    Reaches clock (.within ticks late inner next) moment state (next late) last after := by
  have behind : Reaches clock (.within ticks late inner next) moment state _ last after :=
    reaches.within
  rw [pass_of_underway underway] at behind
  refine behind.trans (.step 1 (Nat.le_refl last) ?_)
  simp only [advance, underway, and_self, ↓reduceIte]
  exact .refl _ _ (Nat.le_refl last)

end Reaches

/-! Runs alone -/

def Comes (clock : Nat → Moment) (activity : Activity σ α) (moment : Nat) (state : σ) :
    Option (α × Nat) × σ × Nat → Prop
  | (some (result, _), after, last) => Reaches clock activity moment state (.done result) last after
  | (none, after, last) => ∃ final : Activity σ α, final.isDone = false ∧
    Reaches clock activity moment state final last after

theorem Reaches.comes {activity middle : Activity σ α} {moment now : Nat} {state between : σ}
    {outcome : Option (α × Nat) × σ × Nat}
    (reaches : Reaches clock activity moment state middle now between)
    (comes : middle.Comes clock now between outcome) :
    activity.Comes clock moment state outcome := by
  obtain ⟨ended, after, last⟩ := outcome
  cases ended with
  | some result => exact reaches.trans comes
  | none =>
      obtain ⟨rest, underway, goesOn⟩ := comes
      exact ⟨rest, underway, reaches.trans goesOn⟩

theorem reaches_act (clock : Nat → Moment) (effect : Moment → σ → β × σ) (next : β → Activity σ α)
    (moment : Nat) (state : σ) :
    Reaches clock (.act effect next) moment state (next (effect (clock moment) state).1)
      (moment + 1) (effect (clock moment) state).2 :=
  .step 0 (Nat.le_refl moment) (.refl _ _ (Nat.le_succ moment))

theorem reaches_pause (clock : Nat → Moment) (ticks : Nat) (next : Activity σ α) (moment : Nat)
    (state : σ) : Reaches clock (.pause ticks next) moment state next moment state :=
  .step 0 (Nat.le_refl moment) (.refl _ _ (Nat.le_refl moment))

theorem runForOn_comes (clock : Nat → Moment) (activity : Activity σ α) (step left : Nat)
    (state : σ) : activity.Comes clock step state (activity.runForOn clock step left state) := by
  induction activity generalizing step left state with
  | done result => exact .refl _ _ (Nat.le_refl step)
  | act effect next ih => exact (reaches_act clock effect next step state).comes (ih _ _ _ _)
  | pause ticks next ih =>
      simp only [runForOn]
      by_cases enough : ticks ≤ left
      · rw [if_pos enough]
        exact (reaches_pause clock ticks next step state).comes (ih _ _ _)
      · rw [if_neg enough]
        exact ⟨_, rfl, .refl _ _ (Nat.le_refl step)⟩
  | within ticks late inner next ihInner ih =>
      -- The time that is left may end before the limit, which then stays in force.
      have inside := ihInner step (min ticks left) state
      simp only [runForOn]
      generalize inner.runForOn clock step (min ticks left) state = outcome at inside
      obtain ⟨_ | ⟨result, rest⟩, middle, later⟩ := outcome
      · obtain ⟨final, underway, reaches⟩ := inside
        dsimp only
        by_cases enough : ticks ≤ left
        · rw [if_pos enough]
          exact (reaches.giveUp underway).comes (ih _ _ _ _)
        · rw [if_neg enough]
          have behind : Reaches clock (.within ticks late inner next) step state
              (final.pass ticks late next) later middle := reaches.within
          rw [pass_of_underway underway] at behind
          exact ⟨_, rfl, behind⟩
      · have inside : Reaches clock inner step state (.done result) later middle := inside
        have behind : Reaches clock (.within ticks late inner next) step state (next result) later
            middle := inside.within
        exact behind.comes (ih _ _ _ _)

theorem runOn_reaches (clock : Nat → Moment) (activity : Activity σ α) (step : Nat) (state : σ) :
    Reaches clock activity step state (.done (activity.runOn clock step state).1)
      (activity.runOn clock step state).2.2 (activity.runOn clock step state).2.1 := by
  induction activity generalizing step state with
  | done result => exact .refl _ _ (Nat.le_refl step)
  | act effect next ih => exact (reaches_act clock effect next step state).trans (ih _ _ _)
  | pause ticks next ih => exact (reaches_pause clock ticks next step state).trans (ih _ _)
  | within ticks late inner next _ ih =>
      have inside := runForOn_comes clock inner step ticks state
      simp only [runOn]
      generalize inner.runForOn clock step ticks state = outcome at inside
      obtain ⟨_ | ⟨result, rest⟩, middle, later⟩ := outcome
      · obtain ⟨final, underway, reaches⟩ := inside
        exact (reaches.giveUp underway).trans (ih _ _ _)
      · have inside : Reaches clock inner step state (.done result) later middle := inside
        have behind : Reaches clock (.within ticks late inner next) step state (next result) later
            middle := inside.within
        exact behind.trans (ih _ _ _)

theorem run_reaches (moment : Moment) (activity : Activity σ α) (state : σ) :
    ∃ last, Reaches (fun _ => moment) activity 0 state (.done (activity.run moment state).1) last
      (activity.run moment state).2 := by
  rw [← runOn_still moment activity 0 state]
  exact ⟨_, runOn_reaches (fun _ => moment) activity 0 state⟩

end Activity

/-! Turns among others -/

namespace Turn

theorem moments_look (turn : Turn) (timer : Timer) :
    (turn.look timer).2.moments = turn.moments := by
  cases timer with
  | unset ticks =>
      rw [look]
      split <;> rfl
  | set tick order => rfl

theorem moments_check (turn : Turn) (place : Place) (timer : Timer) :
    (turn.check place timer).2.moments = turn.moments := by
  unfold check
  split
  · rfl
  · rw [← moments_look turn timer]
    split <;> rename_i looked <;> rw [looked]

theorem moments_checkLimit (turn : Turn) (place : Place) (before : Nat) (timer : Timer) :
    (turn.checkLimit place before timer).2.moments = turn.moments := by
  unfold checkLimit
  split
  · exact moments_look turn timer
  · exact moments_check turn place timer

end Turn

namespace Task

variable {σ α β : Type} {supply : Nat → Moment}

/--
What is left of a task that has gone on. How long its pauses and limits still last does not matter
for the steps.
-/
inductive Remains : {α : Type} → Task σ α → Activity σ α → Prop where
  | finished {α : Type} (result : α) : Remains (.finished result) (.done result)
  | paused {α : Type} (timer : Timer) (ticks : Nat) (next : Activity σ α) :
    Remains (.paused timer next) (.pause ticks next)
  | limited {α β : Type} {inner : Task σ β} {rest : Activity σ β} (timer : Timer) (ticks : Nat)
    (late : β) (next : β → Activity σ α) (remains : Remains inner rest)
    (underway : rest.isDone = false) :
    Remains (.limited timer late inner next) (.within ticks late rest next)

def GoesOn (supply : Nat → Moment) (activity : Activity σ α) (moment : Nat) (state : σ)
    (outcome : Task σ α × Turn × σ) : Prop :=
  ∃ rest, outcome.1.Remains rest ∧
    activity.Reaches supply moment state rest outcome.2.1.moments outcome.2.2

theorem goesOn_of_reaches {activity middle : Activity σ α} {moment now : Nat} {state between : σ}
    {outcome : Task σ α × Turn × σ}
    (reaches : activity.Reaches supply moment state middle now between)
    (goesOn : GoesOn supply middle now between outcome) :
    GoesOn supply activity moment state outcome := by
  obtain ⟨rest, remains, onward⟩ := goesOn
  exact ⟨rest, remains, reaches.trans onward⟩

theorem passLimit_goesOn {inner : Task σ β} {rest : Activity σ β} {place : Place}
    {before ticks : Nat} {limit : Timer} {late : β} {next : β → Activity σ α}
    {behind : β → Turn → σ → Task σ α × Turn × σ} {turn : Turn} {state : σ}
    (remains : inner.Remains rest)
    (goes : ∀ result (turn : Turn) state,
      GoesOn supply (next result) turn.moments state (behind result turn state)) :
    GoesOn supply (rest.pass ticks late next) turn.moments state
      (inner.passLimit place before limit late next behind turn state) := by
  have gone : ∀ later : Turn, later.moments = turn.moments → rest.isDone = false →
      GoesOn supply (rest.pass ticks late next) turn.moments state (behind late later state) := by
    intro later same underway
    have stays : rest.Reaches supply turn.moments state rest turn.moments state :=
      .refl _ _ (Nat.le_refl _)
    rw [Activity.pass_of_underway underway]
    exact goesOn_of_reaches (stays.giveUp underway) (same ▸ goes late later state)
  have waits : ∀ {unfinished : Task σ β} timer (later : Turn), later.moments = turn.moments →
      unfinished.Remains rest → rest.isDone = false →
      GoesOn supply (rest.pass ticks late next) turn.moments state
        (limited timer late unfinished next, later, state) := by
    intro unfinished timer later same remains underway
    rw [Activity.pass_of_underway underway]
    exact ⟨_, .limited timer ticks late next remains underway, .refl _ _ (Nat.le_of_eq same.symm)⟩
  have moments := turn.moments_checkLimit place before limit
  cases remains with
  | finished result => exact goes result turn state
  | paused timer wait goesOn =>
      simp only [passLimit]
      generalize turn.checkLimit place before limit = checked at moments
      obtain ⟨_ | limit, later⟩ := checked
      · exact gone later moments rfl
      · exact waits limit later moments (.paused timer wait goesOn) rfl
  | limited timer wait missed goesOn inside underway =>
      simp only [passLimit]
      generalize turn.checkLimit place before limit = checked at moments
      obtain ⟨_ | limit, later⟩ := checked
      · exact gone later moments rfl
      · exact waits limit later moments (.limited timer wait missed goesOn inside underway) rfl

theorem check_goesOn {place : Place} {timer : Timer} {next : Activity σ α} (ticks : Nat)
    (turn : Turn) (state : σ)
    (goes : ∀ later : Turn, later.moments = turn.moments →
      GoesOn supply next turn.moments state (next.start supply place later state)) :
    GoesOn supply (.pause ticks next) turn.moments state
      (match turn.check place timer with
        | (none, turn) => next.start supply place turn state
        | (some timer, turn) => (.paused timer next, turn, state)) := by
  have moments := turn.moments_check place timer
  generalize turn.check place timer = checked at moments
  obtain ⟨_ | timer, later⟩ := checked
  · exact goesOn_of_reaches (Activity.reaches_pause supply ticks next turn.moments state)
      (goes later moments)
  · exact ⟨_, .paused timer ticks next, .refl _ _ (Nat.le_of_eq moments.symm)⟩

theorem start_goesOn (supply : Nat → Moment) (place : Place) (activity : Activity σ α)
    (turn : Turn) (state : σ) :
    GoesOn supply activity turn.moments state (activity.start supply place turn state) := by
  induction activity generalizing turn state with
  | done result => exact ⟨_, .finished result, .refl _ _ (Nat.le_refl _)⟩
  | act effect next ih =>
      exact goesOn_of_reaches (Activity.reaches_act supply effect next turn.moments state)
        (ih _ { turn with moments := turn.moments + 1 } _)
  | pause ticks next ih =>
      exact check_goesOn ticks turn state fun later same => same ▸ ih later state
  | within ticks late inner next ihInner ih =>
      obtain ⟨rest, remains, reaches⟩ := ihInner turn state
      exact goesOn_of_reaches reaches.within (passLimit_goesOn remains ih)

/-- In every turn what is left of a task goes on by steps. -/
theorem resume_goesOn (supply : Nat → Moment) (place : Place) {task : Task σ α}
    {activity : Activity σ α} (remains : task.Remains activity) (turn : Turn) (state : σ) :
    GoesOn supply activity turn.moments state (task.resume supply place turn state) := by
  induction remains generalizing turn state with
  | finished result => exact ⟨_, .finished result, .refl _ _ (Nat.le_refl _)⟩
  | paused timer ticks next =>
      exact check_goesOn ticks turn state fun later same =>
        same ▸ start_goesOn supply place next later state
  | limited timer ticks late next inside underway ih =>
      obtain ⟨rest, remains, reaches⟩ := ih turn state
      exact goesOn_of_reaches reaches.within (passLimit_goesOn remains
        fun result later after => start_goesOn supply place (next result) later after)

end Task

end CachedStore
