import CachedStore.Proofs.Activity.Interference

/-!
How many steps an activity takes at most, whatever it meets, as long as no limit ends before what it
limits.
-/

namespace CachedStore

namespace Activity

variable {σ τ α β : Type}

def EndsWithin : {α : Type} → Activity σ α → (steps : Nat) → Prop
  | _, done _, _ => True
  | _, act _ next, steps => ∃ fewer, fewer < steps ∧ ∀ answer, (next answer).EndsWithin fewer
  | _, pause _ next, steps => ∃ fewer, fewer < steps ∧ next.EndsWithin fewer
  | _, within _ _ inner next, steps => ∃ first rest, 0 < first ∧ first + rest ≤ steps ∧
    inner.EndsWithin first ∧ ∀ result, (next result).EndsWithin rest

namespace EndsWithin

variable {activity : Activity σ α} {steps : Nat}

theorem mono {more : Nat} (ends : activity.EndsWithin steps) (fits : steps ≤ more) :
    activity.EndsWithin more := by
  cases activity with
  | done result => trivial
  | act effect next =>
      obtain ⟨fewer, less, rest⟩ := ends
      exact ⟨fewer, by omega, rest⟩
  | pause ticks next =>
      obtain ⟨fewer, less, rest⟩ := ends
      exact ⟨fewer, by omega, rest⟩
  | within ticks late inner next =>
      obtain ⟨first, rest, positive, sum, inside, onward⟩ := ends
      exact ⟨first, rest, positive, by omega, inside, onward⟩

theorem bind {next : α → Activity σ β} {more : Nat} (ends : activity.EndsWithin steps)
    (onward : ∀ result, (next result).EndsWithin more) :
    (activity.bind next).EndsWithin (steps + more) := by
  induction activity generalizing steps with
  | done result => exact (onward result).mono (by omega)
  | act effect rest ih =>
      obtain ⟨fewer, less, goesOn⟩ := ends
      exact ⟨fewer + more, by omega, fun answer => ih answer (goesOn answer) onward⟩
  | pause ticks rest ih =>
      obtain ⟨fewer, less, goesOn⟩ := ends
      exact ⟨fewer + more, by omega, ih goesOn onward⟩
  | within ticks late inner rest _ ih =>
      obtain ⟨first, last, positive, sum, inside, goesOn⟩ := ends
      exact ⟨first, last + more, positive, by omega, inside,
        fun result => ih result (goesOn result) onward⟩

theorem onPart {get : τ → σ} {set : σ → τ → τ} (ends : activity.EndsWithin steps) :
    (activity.onPart get set).EndsWithin steps := by
  induction activity generalizing steps with
  | done result => trivial
  | act effect next ih =>
      obtain ⟨fewer, less, rest⟩ := ends
      exact ⟨fewer, less, fun answer => ih answer (rest answer)⟩
  | pause ticks next ih =>
      obtain ⟨fewer, less, rest⟩ := ends
      exact ⟨fewer, less, ih rest⟩
  | within ticks late inner next ihInner ih =>
      obtain ⟨first, rest, positive, sum, inside, onward⟩ := ends
      exact ⟨first, rest, positive, sum, ihInner inside,
        fun result => ih result (onward result)⟩

theorem isDone (ends : activity.EndsWithin 0) : activity.isDone = true := by
  cases activity with
  | done result => rfl
  | act effect next =>
      obtain ⟨_, impossible, _⟩ := ends
      omega
  | pause ticks next =>
      obtain ⟨_, impossible, _⟩ := ends
      omega
  | within ticks late inner next =>
      obtain ⟨_, _, positive, impossible, _⟩ := ends
      omega

theorem advance (moment : Moment) (state : σ) (ends : activity.EndsWithin steps)
    (underway : activity.isDone = false) :
    ∃ fewer, fewer < steps ∧ (activity.advance moment 0 state).1.EndsWithin fewer := by
  induction activity generalizing steps with
  | done result => simp [Activity.isDone] at underway
  | act effect next ih =>
      obtain ⟨fewer, less, rest⟩ := ends
      exact ⟨fewer, less, rest _⟩
  | pause ticks next ih => exact ends
  | within ticks late inner next ihInner ih =>
      obtain ⟨first, rest, positive, sum, inside, onward⟩ := ends
      simp only [Activity.advance, Nat.zero_ne_one, false_and, ↓reduceIte, Nat.zero_sub]
      by_cases finished : inner.isDone = true
      · obtain ⟨answer, rfl⟩ := eq_done finished
        exact ⟨rest, by omega, onward answer⟩
      · have still : inner.isDone = false := by simpa using finished
        obtain ⟨fewer, less, goesOn⟩ := ihInner inside still
        -- What was under the limit may end in this step, and then is left in it.
        by_cases ended : (inner.advance moment 0 state).1.isDone = true
        · obtain ⟨answer, same⟩ := eq_done ended
          rw [same]
          exact ⟨rest, by omega, onward answer⟩
        · have remains : (inner.advance moment 0 state).1.isDone = false := by simpa using ended
          rw [pass_of_underway remains]
          refine ⟨fewer + rest, by omega, fewer, rest, ?_, Nat.le_refl _, goesOn, onward⟩
          refine Nat.pos_of_ne_zero fun zero => ended ?_
          subst zero
          exact goesOn.isDone

end EndsWithin

end Activity

end CachedStore
