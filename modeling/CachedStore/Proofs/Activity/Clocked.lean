import CachedStore.Activity

/-!
Activities that run alone while the clock goes on, so that each of their effects has a moment of its
own. The moments are numbered; a run tells the number of the next one.
-/

namespace CachedStore

namespace Activity

variable {σ α β : Type}

/-- As `runFor`, with the moments of a clock. -/
def runForOn (clock : Nat → Moment) :
    {α : Type} → (step left : Nat) → Activity σ α → σ → Option (α × Nat) × σ × Nat
  | _, step, left, done result, state => (some (result, left), state, step)
  | _, step, left, act effect next, state =>
    let (answer, state) := effect (clock step) state
    (next answer).runForOn clock (step + 1) left state
  | _, step, left, pause ticks next, state =>
    if ticks ≤ left then next.runForOn clock step (left - ticks) state else (none, state, step)
  | _, step, left, within ticks late inner next, state =>
    match inner.runForOn clock step (min ticks left) state with
    | (some (result, rest), state, step) =>
      (next result).runForOn clock step (left - (min ticks left - rest)) state
    | (none, state, step) =>
      if ticks ≤ left then (next late).runForOn clock step (left - ticks) state
      else (none, state, step)

def runOn (clock : Nat → Moment) (step : Nat) : Activity σ α → σ → α × σ × Nat
  | done result, state => (result, state, step)
  | act effect next, state =>
    let (answer, state) := effect (clock step) state
    (next answer).runOn clock (step + 1) state
  | pause _ next, state => next.runOn clock step state
  | within ticks late inner next, state =>
    match inner.runForOn clock step ticks state with
    | (some (result, _), state, step) => (next result).runOn clock step state
    | (none, state, step) => (next late).runOn clock step state

theorem runForOn_still (moment : Moment) (activity : Activity σ α) (step left : Nat) (state : σ) :
    ((activity.runForOn (fun _ => moment) step left state).1,
      (activity.runForOn (fun _ => moment) step left state).2.1) =
      activity.runFor moment left state := by
  induction activity generalizing step left state with
  | done result => rfl
  | act effect next ih =>
      simp only [runForOn, runFor]
      exact ih _ _ _ _
  | pause ticks next ih =>
      simp only [runForOn, runFor]
      by_cases enough : ticks ≤ left
      · rw [if_pos enough, if_pos enough]
        exact ih _ _ _
      · rw [if_neg enough, if_neg enough]
  | within ticks late inner next ihInner ih =>
      have same := ihInner step (min ticks left) state
      simp only [runForOn, runFor]
      rw [← same]
      rcases inner.runForOn (fun _ => moment) step (min ticks left) state with
        ⟨_ | ⟨result, rest⟩, after, later⟩
      · by_cases enough : ticks ≤ left
        · simpa only [if_pos enough] using ih late later (left - ticks) after
        · simp only [if_neg enough]
      · exact ih result later _ after

theorem runOn_still (moment : Moment) (activity : Activity σ α) (step : Nat) (state : σ) :
    ((activity.runOn (fun _ => moment) step state).1,
      (activity.runOn (fun _ => moment) step state).2.1) = activity.run moment state := by
  induction activity generalizing step state with
  | done result => rfl
  | act effect next ih =>
      simp only [runOn, run]
      exact ih _ _ _
  | pause ticks next ih => exact ih _ _
  | within ticks late inner next _ ih =>
      have same := runForOn_still moment inner step ticks state
      simp only [runOn, run]
      rw [← same]
      rcases inner.runForOn (fun _ => moment) step ticks state with
        ⟨_ | ⟨result, rest⟩, after, later⟩
      · exact ih late later after
      · exact ih result later after

theorem runOn_bind (clock : Nat → Moment) (activity : Activity σ α) (next : α → Activity σ β)
    (step : Nat) (state : σ) :
    (activity.bind next).runOn clock step state =
      (next (activity.runOn clock step state).1).runOn clock
        (activity.runOn clock step state).2.2 (activity.runOn clock step state).2.1 := by
  induction activity generalizing step state with
  | done result => rfl
  | act effect rest ih => exact ih _ _ _ _
  | pause ticks rest ih => exact ih _ _ _
  | within ticks late inner rest _ ih =>
      simp only [bind, runOn]
      rcases inner.runForOn clock step ticks state with ⟨_ | ⟨result, left⟩, after, later⟩
      · exact ih late next later after
      · exact ih result next later after

theorem runOn_bind_of {clock : Nat → Moment} {activity : Activity σ α} {step later : Nat}
    {state after : σ} {result : α} (ran : activity.runOn clock step state = (result, after, later))
    (next : α → Activity σ β) :
    (activity.bind next).runOn clock step state = (next result).runOn clock later after := by
  rw [runOn_bind, ran]

/-- No effect of the activity breaks what holds of the state. -/
def Keeps (kept : σ → Prop) : {α : Type} → Activity σ α → Prop
  | _, done _ => True
  | _, act effect next =>
    (∀ moment state, kept state → kept (effect moment state).2) ∧
      ∀ answer, (next answer).Keeps kept
  | _, pause _ next => next.Keeps kept
  | _, within _ _ inner next => inner.Keeps kept ∧ ∀ result, (next result).Keeps kept

namespace Keeps

variable {kept : σ → Prop} {activity : Activity σ α}

theorem bind {next : α → Activity σ β} (keeps : activity.Keeps kept)
    (rest : ∀ result, (next result).Keeps kept) : (activity.bind next).Keeps kept := by
  induction activity with
  | done result => exact rest result
  | act effect goesOn ih =>
      exact ⟨keeps.1, fun answer => ih answer (keeps.2 answer) rest⟩
  | pause ticks goesOn ih => exact ih keeps rest
  | within ticks late inner goesOn _ ih =>
      exact ⟨keeps.1, fun result => ih result (keeps.2 result) rest⟩

theorem onPart {τ : Type} {get : τ → σ} {set : σ → τ → τ} (keeps : activity.Keeps kept)
    (part : ∀ state whole, get (set state whole) = state) :
    (activity.onPart get set).Keeps fun whole => kept (get whole) := by
  induction activity with
  | done result => trivial
  | act effect next ih =>
      refine ⟨fun moment whole holds => ?_, fun answer => ih answer (keeps.2 answer)⟩
      change kept (get (set _ whole))
      rw [part]
      exact keeps.1 moment (get whole) holds
  | pause ticks next ih => exact ih keeps
  | within ticks late inner next ihInner ih =>
      exact ⟨ihInner keeps.1, fun result => ih result (keeps.2 result)⟩

theorem of_onPart {τ : Type} {get : τ → σ} {set : σ → τ → τ} {kept : τ → Prop}
    (activity : Activity σ α)
    (part : ∀ (_ : Moment) state whole, kept whole → kept (set state whole)) :
    (activity.onPart get set).Keeps kept := by
  induction activity with
  | done result => trivial
  | act effect next ih => exact ⟨fun moment _ => part moment _ _, ih⟩
  | pause ticks next ih => exact ih
  | within ticks late inner next ihInner ih => exact ⟨ihInner, ih⟩

theorem of_forall {kept : σ → Prop} (all : ∀ state, kept state) (activity : Activity σ α) :
    activity.Keeps kept := by
  induction activity with
  | done result => trivial
  | act effect next ih => exact ⟨fun _ _ _ => all _, ih⟩
  | pause ticks next ih => exact ih
  | within ticks late inner next ihInner ih => exact ⟨ihInner, ih⟩

theorem and {other : σ → Prop} (keeps : activity.Keeps kept) (others : activity.Keeps other) :
    activity.Keeps fun state => kept state ∧ other state := by
  induction activity with
  | done result => trivial
  | act effect next ih =>
      exact ⟨fun moment state both => ⟨keeps.1 moment state both.1, others.1 moment state both.2⟩,
        fun answer => ih answer (keeps.2 answer) (others.2 answer)⟩
  | pause ticks next ih => exact ih keeps others
  | within ticks late inner next ihInner ih =>
      exact ⟨ihInner keeps.1 others.1,
        fun result => ih result (keeps.2 result) (others.2 result)⟩

theorem of_part {τ : Type} {part : σ → τ} {kept : τ → Prop}
    (leaves : ∀ value, activity.Keeps fun state => part state = value) :
    activity.Keeps fun state => kept (part state) := by
  induction activity with
  | done result => trivial
  | act effect next ih =>
      refine ⟨fun moment state holds => ?_, fun answer => ih answer
        fun value => (leaves value).2 answer⟩
      have same : part (effect moment state).2 = part state := (leaves _).1 moment state rfl
      change kept (part (effect moment state).2)
      rw [same]
      exact holds
  | pause ticks next ih => exact ih leaves
  | within ticks late inner next ihInner ih =>
      exact ⟨ihInner fun value => (leaves value).1,
        fun result => ih result fun value => (leaves value).2 result⟩

theorem runForOn (keeps : activity.Keeps kept) (clock : Nat → Moment) (step left : Nat)
    {state : σ} (holds : kept state) : kept (activity.runForOn clock step left state).2.1 := by
  induction activity generalizing step left state with
  | done result => exact holds
  | act effect next ih =>
      exact ih _ (keeps.2 _) _ _ (keeps.1 (clock step) state holds)
  | pause ticks next ih =>
      rw [Activity.runForOn]
      by_cases enough : ticks ≤ left
      · rw [if_pos enough]
        exact ih keeps _ _ holds
      · rw [if_neg enough]
        exact holds
  | within ticks late inner next ihInner ih =>
      have met := ihInner keeps.1 step (min ticks left) holds
      rw [Activity.runForOn]
      generalize inner.runForOn clock step (min ticks left) state = ended at met ⊢
      obtain ⟨_ | ⟨result, rest⟩, after, later⟩ := ended
      · by_cases enough : ticks ≤ left
        · simp only [enough, ↓reduceIte]
          exact ih late (keeps.2 late) _ _ met
        · simp only [enough, ↓reduceIte]
          exact met
      · exact ih result (keeps.2 result) _ _ met

theorem runOn (keeps : activity.Keeps kept) (clock : Nat → Moment) (step : Nat) {state : σ}
    (holds : kept state) : kept (activity.runOn clock step state).2.1 := by
  induction activity generalizing step state with
  | done result => exact holds
  | act effect next ih =>
      exact ih _ (keeps.2 _) _ (keeps.1 (clock step) state holds)
  | pause ticks next ih => exact ih keeps _ holds
  | within ticks late inner next _ ih =>
      have met := keeps.1.runForOn clock step ticks holds
      rw [Activity.runOn]
      generalize inner.runForOn clock step ticks state = ended at met ⊢
      obtain ⟨_ | ⟨result, rest⟩, after, later⟩ := ended
      · exact ih late (keeps.2 late) _ met
      · exact ih result (keeps.2 result) _ met

end Keeps

def Gives : {α : Type} → (post : α → Prop) → Activity σ α → Prop
  | _, post, done result => post result
  | _, post, act _ next => ∀ answer, (next answer).Gives post
  | _, post, pause _ next => next.Gives post
  | _, post, within _ _ _ next => ∀ result, (next result).Gives post

theorem Gives.bind {post : β → Prop} {activity : Activity σ α} {next : α → Activity σ β}
    (gives : ∀ result, (next result).Gives post) : (activity.bind next).Gives post := by
  induction activity with
  | done result => exact gives result
  | act effect rest ih => exact fun answer => ih answer gives
  | pause ticks rest ih => exact ih gives
  | within ticks late inner rest _ ih => exact fun result => ih result gives

theorem Gives.run {post : α → Prop} {activity : Activity σ α} (gives : activity.Gives post)
    (moment : Moment) (state : σ) : post (activity.run moment state).1 := by
  induction activity generalizing state with
  | done result => exact gives
  | act effect next ih => exact ih _ (gives _) _
  | pause ticks next ih => exact ih gives state
  | within ticks late inner next _ ih =>
      simp only [Activity.run]
      rcases inner.runFor moment ticks state with ⟨_ | ⟨result, left⟩, after⟩
      · exact ih late (gives late) after
      · exact ih result (gives result) after

end Activity

end CachedStore
