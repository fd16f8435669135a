import CachedStore.Proofs.Activity.Scheduling
import CachedStore.Proofs.Repository.Interleaving

/-!
Operations that run by a plan are operations under way together: the state that the scheduler leaves
is that of an interleaving, and as long as no limit ends, that of a pool.
-/

namespace CachedStore

namespace Interleaving

variable {ρ : Type} [Record ρ]

def pool (system : Interleaving ρ) :
    Pool (RepositoryState ρ) (Activity (RepositoryState ρ) (Outcome ρ)) :=
  ⟨system.state, system.jobs.map (·.rest)⟩

theorem pool_starts (repository : Repository) (operations : List (Operation ρ))
    (system : Interleaving ρ) :
    (system.run repository (operations.map .start)).pool =
      ⟨system.state, system.pool.threads ++ operations.map (·.activity repository)⟩ := by
  induction operations generalizing system with
  | nil => simp [run, pool]
  | cons operation rest ih =>
      refine (ih (system.perform repository (.start operation))).trans ?_
      simp [perform, pool]

theorem pool_perform (repository : Repository) (clock : Nat → Moment) (stride : Stride)
    (system : Interleaving ρ) :
    (system.perform repository
        (.step stride.position (clock stride.moment) stride.late)).pool =
      system.pool.stride clock stride := by
  unfold Pool.stride Pool.turn
  simp only [perform, pool, List.getElem?_map]
  cases system.jobs[stride.position]? with
  | none => rfl
  | some job => simp only [Option.map_some, List.map_set]

def events (clock : Nat → Moment) (strides : List Stride) : List (Event ρ) :=
  strides.map fun stride => .step stride.position (clock stride.moment) stride.late

theorem pool_events (repository : Repository) (clock : Nat → Moment) (strides : List Stride)
    (system : Interleaving ρ) :
    (system.run repository (events clock strides)).pool =
      strides.foldl (Pool.stride clock) system.pool := by
  induction strides generalizing system with
  | nil => rfl
  | cons first rest ih =>
      exact (ih _).trans (by rw [pool_perform, List.foldl_cons])

omit [Record ρ] in
theorem instants_plan (operations : List (Operation ρ)) (clock : Nat → Moment)
    (strides : List Stride) :
    instants (operations.map .start ++ events clock strides) =
      strides.map fun stride => (clock stride.moment).instant := by
  have started : instants (operations.map .start) = [] :=
    List.filterMap_eq_nil_iff.mpr fun event member => by
      obtain ⟨operation, _, rfl⟩ := List.mem_map.mp member
      rfl
  have stepped : instants (events (ρ := ρ) clock strides) =
      strides.map fun stride => (clock stride.moment).instant := by
    induction strides with
    | nil => rfl
    | cons first rest ih => exact congrArg _ ih
  exact List.filterMap_append.trans (by rw [← instants, ← instants, started, stepped]; rfl)

end Interleaving

theorem Activity.of_answered {σ α β : Type} {answer : α → β} {threads : List (Activity σ α)}
    {results : List β}
    (finished : threads.map (·.bind fun result => .done (answer result)) = results.map .done) :
    ∃ outcomes : List α, threads = outcomes.map .done ∧ outcomes.map answer = results := by
  induction threads generalizing results with
  | nil => exact ⟨[], rfl, (List.map_eq_nil_iff.mp finished.symm).symm⟩
  | cons thread rest ih =>
      cases results with
      | nil => cases finished
      | cons result results =>
          obtain ⟨ended, others⟩ := List.cons.inj finished
          obtain ⟨outcomes, rfl, rfl⟩ := ih others
          cases thread with
          | done outcome =>
              obtain rfl := Activity.done.inj ended
              exact ⟨outcome :: outcomes, rfl, rfl⟩
          | _ => cases ended

section

variable {ρ α : Type} [Record ρ] {repository : Repository} {supply : Nat → Moment}

/-- The steps of a plan of operations as events, the operations being started first. -/
theorem Plan.runs_as_events {plan : Plan (RepositoryState ρ) α} {operations : List (Operation ρ)}
    {answer : Outcome ρ → α}
    (asks : plan.activities = operations.map fun operation =>
      (operation.activity repository).bind fun outcome => .done (answer outcome))
    (ticking : ∀ moment, (supply moment).instant ≤ (supply (moment + 1)).instant) (turn : Turn)
    (state : RepositoryState ρ) :
    ∃ strides : List Stride,
      let first : Interleaving ρ := ⟨state, [], (supply turn.moments).instant, 0⟩
      let events := operations.map .start ++ Interleaving.events supply strides
      let system := first.run repository events
      system.state = (plan.run supply turn state).2.2 ∧
      (∀ result, (plan.run supply turn state).1 = some result →
        ∃ outcomes : List (Outcome ρ), system.pool.threads = outcomes.map .done ∧
          plan.Makes (outcomes.map answer) result) ∧
      (events.length ≤ 2 ^ 64 → Interleaving.Orderly repository first events) ∧
      ((∀ stride ∈ strides, stride.late = 0) →
        system.pool = Pool.run (fun moment activity => activity.advance moment 0)
          ⟨state, operations.map (·.activity repository)⟩
          (strides.map fun stride => (stride.position, supply stride.moment))) := by
  obtain ⟨left, interleaves, makes⟩ := plan.runsTo supply turn state
  obtain ⟨strides, ran, order⟩ := interleaves.strides
  let first : Interleaving ρ := ⟨state, [], (supply turn.moments).instant, 0⟩
  let begun : Pool (RepositoryState ρ) (Activity (RepositoryState ρ) (Outcome ρ)) :=
    ⟨state, operations.map (·.activity repository)⟩
  have final : (first.run repository
      (operations.map .start ++ Interleaving.events supply strides)).pool =
      strides.foldl (Pool.stride supply) begun := by
    rw [Interleaving.run_append, Interleaving.pool_events,
      Interleaving.pool_starts repository operations first]
    rfl
  have shown : (strides.foldl (Pool.stride supply) begun).map
      (·.bind fun outcome => .done (answer outcome)) =
        ⟨(plan.run supply turn state).2.2, left⟩ := by
    rw [Pool.map_foldl_stride, ← ran, asks]
    simp only [Pool.map, begun, List.map_map, Function.comp_def]
  refine ⟨strides, ?_, fun result ended => ?_, fun few => ?_, fun punctual => ?_⟩
  · exact (congrArg Pool.state final).trans (congrArg Pool.state shown)
  · obtain ⟨results, rfl, made⟩ := makes result ended
    obtain ⟨outcomes, threads, rfl⟩ := Activity.of_answered (congrArg Pool.threads shown)
    exact ⟨outcomes, (congrArg Pool.threads final).trans threads, made⟩
  · have instants := List.pairwise_map.mpr (order.imp (Instant.le_of_onward ticking))
    refine Interleaving.orderly_of_instants repository ?_ (by simpa using few)
    rw [Interleaving.instants_plan]
    rwa [List.map_cons, List.map_map] at instants
  · exact final.trans (Pool.foldl_stride_eq_run supply punctual begun)

end

end CachedStore
