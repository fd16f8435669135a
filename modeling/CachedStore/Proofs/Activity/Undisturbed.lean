import CachedStore.Proofs.Activity.Clocked
import CachedStore.Proofs.Activity.Interference

/-!
Safe activities that run alone: the run ends as their safety tells, if the moments of its clock are
those at which they may take their steps.
-/

namespace CachedStore

namespace Activity

variable {σ W α : Type}

/-- What holds along a run, by the number of its next step. -/
structure Course (rules : Rules σ W) (clock : Nat → Moment) (kept : σ → Prop)
    (along : Nat → W → Prop) : Prop where
  admits : ∀ {step world}, along step world → rules.admits world (clock step)
  holds : ∀ {step world}, along step world → kept (rules.state world)
  limits : rules.limits
  goes : ∀ {step world after}, along step world → rules.step world (clock step) after →
    kept (rules.state after) → along (step + 1) after

namespace Safe

variable {rules : Rules σ W} {clock : Nat → Moment} {kept : σ → Prop} {along : Nat → W → Prop}
  {activity : Activity σ α} {step : Nat} {world : W}

theorem runForOn (course : Course rules clock kept along) {cut : W → Prop} {post : α → W → Prop}
    (keeps : activity.Keeps kept) (safe : Safe rules cut activity post world)
    (here : along step world) (left : Nat) {ended : Option (α × Nat)} {state : σ} {later : Nat}
    (ran : activity.runForOn clock step left (rules.state world) = (ended, state, later)) :
    ∃ after, along later after ∧ rules.state after = state ∧
      (∀ result rest, ended = some (result, rest) → post result after) ∧
      (ended = none → cut after) := by
  induction activity generalizing step left world cut state later with
  | done result =>
      obtain ⟨rfl, rfl, rfl⟩ := by simpa only [Activity.runForOn, Prod.mk.injEq] using ran
      refine ⟨world, here, rfl, fun other rest same => ?_, fun impossible => by cases impossible⟩
      obtain ⟨rfl, rfl⟩ := Prod.mk.inj (Option.some.inj same)
      exact safe
  | act effect next ih =>
      obtain ⟨_, steps⟩ := safe world (rules.refl world)
      obtain ⟨after, took, reached, rest⟩ := steps (clock step) (course.admits here)
      have holds : kept (rules.state after) :=
        reached ▸ keeps.1 (clock step) _ (course.holds here)
      refine ih _ (keeps.2 _) rest (course.goes here took holds) left ?_
      rw [reached]
      exact ran
  | pause ticks next ih =>
      obtain ⟨cutHere, rest⟩ := safe world (rules.refl world)
      rw [Activity.runForOn] at ran
      by_cases enough : ticks ≤ left
      · rw [if_pos enough] at ran
        exact ih keeps rest here _ ran
      · rw [if_neg enough] at ran
        obtain ⟨rfl, rfl, rfl⟩ := by simpa only [Prod.mk.injEq] using ran
        exact ⟨world, here, rfl, fun _ _ impossible => (by cases impossible), fun _ => cutHere⟩
  | within ticks late inner next ihInner ih =>
      obtain ⟨_, rest⟩ := safe world (rules.refl world)
      rw [Activity.runForOn] at ran
      generalize first : inner.runForOn clock step (min ticks left) (rules.state world) = middle
        at ran
      obtain ⟨met, between, continues⟩ := middle
      obtain ⟨after, there, reached, goesOn, cuts⟩ := ihInner keeps.1 rest here _ first
      subst reached
      cases met with
      | some result => exact ih result.1 (keeps.2 _) (goesOn _ _ rfl) there _ ran
      | none =>
          obtain ⟨leftEarly, lateSafe⟩ := cuts rfl
          by_cases enough : ticks ≤ left
          · simp only [enough, ↓reduceIte] at ran
            exact ih late (keeps.2 late) (lateSafe course.limits) there _ ran
          · simp only [enough, ↓reduceIte, Prod.mk.injEq] at ran
            obtain ⟨rfl, rfl, rfl⟩ := ran
            exact ⟨after, there, rfl, fun _ _ impossible => (by cases impossible),
              fun _ => leftEarly⟩

theorem runOn (course : Course rules clock kept along) {cut : W → Prop} {post : α → W → Prop}
    (keeps : activity.Keeps kept) (safe : Safe rules cut activity post world)
    (here : along step world) {result : α} {state : σ} {later : Nat}
    (ran : activity.runOn clock step (rules.state world) = (result, state, later)) :
    ∃ after, along later after ∧ rules.state after = state ∧ post result after := by
  induction activity generalizing step world cut state later with
  | done answer =>
      obtain ⟨rfl, rfl, rfl⟩ := by simpa only [Activity.runOn, Prod.mk.injEq] using ran
      exact ⟨world, here, rfl, safe⟩
  | act effect next ih =>
      obtain ⟨_, steps⟩ := safe world (rules.refl world)
      obtain ⟨after, took, reached, rest⟩ := steps (clock step) (course.admits here)
      have holds : kept (rules.state after) :=
        reached ▸ keeps.1 (clock step) _ (course.holds here)
      refine ih _ (keeps.2 _) rest (course.goes here took holds) ?_
      rw [reached]
      exact ran
  | pause ticks next ih =>
      exact ih keeps (safe world (rules.refl world)).2 here ran
  | within ticks late inner next _ ih =>
      obtain ⟨_, rest⟩ := safe world (rules.refl world)
      rw [Activity.runOn] at ran
      generalize first : inner.runForOn clock step ticks (rules.state world) = middle at ran
      obtain ⟨met, between, continues⟩ := middle
      obtain ⟨after, there, reached, goesOn, cuts⟩ := rest.runForOn course keeps.1 here _ first
      subst reached
      cases met with
      | some answer => exact ih answer.1 (keeps.2 _) (goesOn _ _ rfl) there ran
      | none => exact ih late (keeps.2 late) ((cuts rfl).2 course.limits) there ran

end Safe

end Activity

end CachedStore
