import Mathlib.Data.List.Pairwise
import CachedStore.Proofs.Activity.Adequacy
import CachedStore.Proofs.Activity.Pool

/-!
Several activities that share a state. What they do is told as one sequence of strides, each a step
of one of them.
-/

namespace CachedStore

/-- What several activities may come to between two moments. -/
inductive Interleaves {σ α : Type} (clock : Nat → Moment) :
    List (Activity σ α) → Nat → σ → List (Activity σ α) → Nat → σ → Prop where
  | refl (activities : List (Activity σ α)) (state : σ) {moment last : Nat}
      (onward : moment ≤ last) : Interleaves clock activities moment state activities last state
  | step {before after final : List (Activity σ α)} {activity : Activity σ α} {state ended : σ}
      {moment now last : Nat} (late : Nat) (onward : moment ≤ now)
      (rest : Interleaves clock
        (before ++ (activity.advance (clock now) late state).1 :: after) now
        (activity.advance (clock now) late state).2 final last ended) :
      Interleaves clock (before ++ activity :: after) moment state final last ended

namespace Interleaves

variable {σ α : Type} {clock : Nat → Moment} {activities middle final : List (Activity σ α)}
  {moment now last : Nat} {state between after : σ}

theorem earlier (interleaves : Interleaves clock activities now state final last after)
    (onward : moment ≤ now) : Interleaves clock activities moment state final last after := by
  cases interleaves with
  | refl _ _ later => exact .refl _ _ (Nat.le_trans onward later)
  | step late later rest => exact .step late (Nat.le_trans onward later) rest

theorem trans (interleaves : Interleaves clock activities moment state middle now between)
    (goesOn : Interleaves clock middle now between final last after) :
    Interleaves clock activities moment state final last after := by
  induction interleaves with
  | refl activities state onward => exact goesOn.earlier onward
  | step late onward _ ih => exact .step late onward (ih goesOn)

theorem of_reaches {activity ended : Activity σ α}
    (reaches : activity.Reaches clock moment state ended last after)
    (before behind : List (Activity σ α)) :
    Interleaves clock (before ++ activity :: behind) moment state (before ++ ended :: behind) last
      after := by
  induction reaches with
  | refl activity state onward => exact .refl _ _ onward
  | step late onward _ ih => exact .step late onward ih

theorem among (interleaves : Interleaves clock activities moment state final last after)
    (before behind : List (Activity σ α)) :
    Interleaves clock (before ++ activities ++ behind) moment state (before ++ final ++ behind) last
      after := by
  induction interleaves with
  | refl activities state onward => exact .refl _ _ onward
  | @step front back final activity state ended moment now last late onward _ ih =>
      have place : ∀ one : Activity σ α, before ++ (front ++ one :: back) ++ behind =
          (before ++ front) ++ one :: (back ++ behind) := by simp
      rw [place] at ih ⊢
      exact .step late onward ih

end Interleaves

/-! Strides -/

/-- Whose step it is, the number of its moment, and that of the limit which ends with it, if any. -/
structure Stride where
  position : Nat
  moment : Nat
  late : Nat
deriving DecidableEq, Repr

namespace Pool

variable {σ α : Type}

def stride (clock : Nat → Moment) (pool : Pool σ (Activity σ α)) (stride : Stride) :
    Pool σ (Activity σ α) :=
  pool.turn (fun moment activity => activity.advance moment stride.late)
    (stride.position, clock stride.moment)

/-- As long as no limit ends, strides are the turns of a pool. -/
theorem foldl_stride_eq_run (clock : Nat → Moment) {strides : List Stride}
    (punctual : ∀ stride ∈ strides, stride.late = 0) (pool : Pool σ (Activity σ α)) :
    strides.foldl (Pool.stride clock) pool =
      pool.run (fun moment activity => activity.advance moment 0)
        (strides.map fun stride => (stride.position, clock stride.moment)) := by
  induction strides generalizing pool with
  | nil => rfl
  | cons first rest ih =>
      obtain ⟨now, later⟩ := List.forall_mem_cons.mp punctual
      have same : pool.stride clock first = pool.turn
          (fun moment activity => activity.advance moment 0)
          (first.position, clock first.moment) := by rw [stride, now]
      rw [List.foldl_cons, ih later, same]
      rfl

theorem map_foldl_stride {β : Type} (clock : Nat → Moment) (answer : α → β)
    (strides : List Stride) (pool : Pool σ (Activity σ α)) :
    (strides.foldl (Pool.stride clock) pool).map (·.bind fun result => .done (answer result)) =
      strides.foldl (Pool.stride clock)
        (pool.map (·.bind fun result => .done (answer result))) := by
  have same : ∀ late moment (activity : Activity σ α) (state : σ), True →
      (activity.bind fun result => Activity.done (answer result)).advance moment late state =
        ((activity.advance moment late state).1.bind fun result => .done (answer result),
          (activity.advance moment late state).2) := by
    intro late moment activity state _
    by_cases finished : activity.isDone = true
    · obtain ⟨result, rfl⟩ := Activity.eq_done finished
      rfl
    · exact activity.advance_bind (by simpa using finished)
  induction strides generalizing pool with
  | nil => rfl
  | cons first rest ih =>
      rw [List.foldl_cons, List.foldl_cons, ih]
      congr 1
      exact map_turn (same first.late) (fun _ _ => trivial) _

end Pool

/-- Steps of several activities are strides, at moments that do not go back. -/
theorem Interleaves.strides {σ α : Type} {clock : Nat → Moment}
    {activities final : List (Activity σ α)} {moment last : Nat} {state after : σ}
    (interleaves : Interleaves clock activities moment state final last after) :
    ∃ strides : List Stride,
      strides.foldl (Pool.stride clock) ⟨state, activities⟩ = ⟨after, final⟩ ∧
      (moment :: strides.map Stride.moment).Pairwise (· ≤ ·) := by
  induction interleaves with
  | refl activities state onward => exact ⟨[], rfl, List.pairwise_singleton _ _⟩
  | @step before after final activity state ended moment now last late onward rest ih =>
      obtain ⟨strides, runs, order⟩ := ih
      refine ⟨⟨before.length, now, late⟩ :: strides, ?_, ?_⟩
      · have first : Pool.stride clock ⟨state, before ++ activity :: after⟩
            ⟨before.length, now, late⟩ =
            ⟨(activity.advance (clock now) late state).2,
              before ++ (activity.advance (clock now) late state).1 :: after⟩ := by
          simp [Pool.stride, Pool.turn]
        rw [List.foldl_cons, first, runs]
      · exact List.pairwise_cons_cons_iff_of_trans.mpr ⟨onward, order⟩

end CachedStore
