import CachedStore.Proofs.Repository.StoreUse

/-!
One cached read, run alone: it finds its value, or fails to load it, or loads and keeps it.
-/

namespace CachedStore

namespace Repository

variable {ρ : Type} [Record ρ] {α δ : Type}

theorem runOn_deadline_apart (repository : Repository) (clock : Nat → Moment) (step : Nat)
    (state : RepositoryState ρ) (operation : String)
    (call : Activity (MemoryStore ρ) (Except Failure α)) :
    let after := ((repository.deadline operation (onStore call)).runOn clock step state).2.1
    after.cache = state.cache ∧ after.index = state.index := by
  have keeps : (onStore call).Keeps fun now : RepositoryState ρ =>
      now.cache = state.cache ∧ now.index = state.index :=
    .of_onPart call fun _ _ _ same => same
  exact (keeps_deadline keeps operation).runOn clock step ⟨rfl, rfl⟩

inductive FetchEnds (repository : Repository) (clock : Nat → Moment) (shape : Shape ρ δ)
    (key : Key) (lifetime : Duration) (load : Activity (RepositoryState ρ) (Except Failure δ))
    (step : Nat) (before : RepositoryState ρ) :
    Fetched δ × RepositoryState ρ × Nat → Prop where
  | hit {value : δ} (found : (lookup shape key (clock step) before).1.1 = some value) :
    FetchEnds repository clock shape key lifetime load step before
      (⟨.ok value, false⟩, (lookup shape key (clock step) before).2, step + 1)
  | failed {failure : Failure} {middle : RepositoryState ρ} {later : Nat}
    (missed : (lookup shape key (clock step) before).1.1 = none)
    (loaded : (repository.deadline "load" load).runOn clock (step + 1)
      (lookup shape key (clock step) before).2 = (.error failure, middle, later)) :
    FetchEnds repository clock shape key lifetime load step before
      (⟨.error failure, true⟩, middle, later)
  | kept {value : δ} {middle : RepositoryState ρ} {later : Nat}
    (missed : (lookup shape key (clock step) before).1.1 = none)
    (loaded : (repository.deadline "load" load).runOn clock (step + 1)
      (lookup shape key (clock step) before).2 = (.ok value, middle, later)) :
    FetchEnds repository clock shape key lifetime load step before
      (⟨.ok value, true⟩,
        (repository.keep key (shape.wrap value) lifetime before.index.epoch (clock later) middle).2,
        later + 1)

theorem fetch_ends (repository : Repository) (clock : Nat → Moment) (shape : Shape ρ δ)
    (key : Key) (lifetime : Duration) (load : Activity (RepositoryState ρ) (Except Failure δ))
    (step : Nat) (before : RepositoryState ρ) :
    FetchEnds repository clock shape key lifetime load step before
      ((repository.fetch shape key lifetime load).runOn clock step before) := by
  have looked : lookup shape key (clock step) before =
      (((lookup shape key (clock step) before).1.1, before.index.epoch),
        (lookup shape key (clock step) before).2) := rfl
  cases found : (lookup shape key (clock step) before).1.1 with
  | some value =>
      have ran : (repository.fetch shape key lifetime load).runOn clock step before =
          (⟨.ok value, false⟩, (lookup shape key (clock step) before).2, step + 1) := by
        rw [fetch, Activity.runOn, looked, found]
        rfl
      exact ran ▸ .hit found
  | none =>
      have goes : (repository.fetch shape key lifetime load).runOn clock step before =
          ((repository.deadline "load" load).bind
            (repository.finishLoad shape key lifetime before.index.epoch)).runOn clock (step + 1)
            (lookup shape key (clock step) before).2 := by
        rw [fetch, Activity.runOn, looked, found]
      cases loaded : (repository.deadline "load" load).runOn clock (step + 1)
          (lookup shape key (clock step) before).2 with
      | mk result rest =>
          obtain ⟨middle, later⟩ := rest
          rw [goes, Activity.runOn_bind_of loaded]
          cases result with
          | error failure => exact .failed found loaded
          | ok value => exact .kept found loaded

end Repository

end CachedStore
