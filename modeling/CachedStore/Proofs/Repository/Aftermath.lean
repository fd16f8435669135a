import CachedStore.Proofs.Repository.Interleaving

/-!
What a write leaves behind, whatever ran before it and runs beside it: no cached read that it could
have made stale, and no loaded value that was under way.
-/

namespace CachedStore

namespace Meaning

variable {ρ : Type} [Record ρ]

def any (ρ : Type) : Meaning ρ := ⟨fun _ => True, fun _ _ _ => True⟩

theorem any_permits (rows changed : Rows) (debt : Debt) : (any ρ).Permits rows changed debt :=
  ⟨trivial, fun _ _ _ => Or.inl trivial⟩

theorem any_lawful : (any ρ).Lawful where
  empty := trivial
  create _ _ _ := any_permits _ _ _
  update _ _ := any_permits _ _ _
  delete _ _ := any_permits _ _ _

end Meaning

namespace Repository

open Snapshot World

variable {ρ : Type} [Record ρ]

theorem any_loads {δ : Type} (key : Key) (wrap : δ → Cached ρ)
    (load : Activity (MemoryStore ρ) (Except Failure δ)) :
    Loads (Meaning.any ρ) key wrap (onStore load) :=
  onStore_loads (Activity.Keeps.of_forall (fun _ => trivial) load)
    (fun _ _ => Activity.Keeps.of_forall (fun _ => trivial) load) fun _ _ => trivial

end Repository

theorem Operation.any_allowed {ρ : Type} [Record ρ] (operation : Operation ρ) :
    operation.Allowed (Meaning.any ρ) := by
  cases operation with
  | fetchOne key lifetime load => exact Repository.any_loads key _ load
  | fetchMany key lifetime load => exact Repository.any_loads key _ load
  | readByKey key id => exact Repository.any_loads key _ _
  | findOne key filter => exact Repository.any_loads key _ _
  | find key query => exact Repository.any_loads key _ _
  | _ => trivial

namespace Interleaving

variable {ρ : Type} [Record ρ] [LawfulRecord ρ] {repository : Repository}
  {capacity : UInt64} {shards : Option UInt64} {cache : ReadCache (Cached ρ)}
  {store : MemoryStore ρ} {state : RepositoryState ρ} {now : Instant}

theorem any_ordered (tracking : repository.invalidation = .byIdentity)
    (created : ReadCache.create capacity shards = .ok cache)
    (built : repository.build (some cache) store = .ok state) {events : List (Event ρ)}
    (orderly : Orderly repository (fresh state now) events) :
    Ordered (Meaning.any ρ) repository ((fresh state now).run repository events) :=
  run_ordered Meaning.any_lawful tracking (fresh_ordered created built trivial now) orderly
    fun operation _ => operation.any_allowed

/-- No read that is under way leaves the value that it loads in the cache. -/
def Forgets (repository : Repository) (system : Interleaving ρ) : Prop :=
  ∀ (events : List (Event ρ)) (position late since : Nat) (moment : Moment)
    (reading job : Job ρ) (key : Key) (value : Cached ρ) (instant : Instant),
    Orderly repository system (events ++ [.step position moment late]) →
    system.jobs[position]? = some reading → reading.since = some since →
    reading.rest.isDone = false →
    (system.run repository events).Finishes position moment late job (.read (.ok value)) →
    job.operation.readKey? = some key →
    ((system.run repository (events ++ [.step position moment late])).state.cache.get instant
      key).1 = none

theorem forgets_of_invalidation (tracking : repository.invalidation = .byIdentity)
    {system : Interleaving ρ} {position late : Nat} {moment : Moment} {job : Job ρ}
    {outcome : Outcome ρ} (ordered : Ordered (Meaning.any ρ) repository system)
    (allows : system.Allows (.step position moment late))
    (finishes : system.Finishes position moment late job outcome)
    (moved : system.count < (system.perform repository (.step position moment late)).count) :
    Forgets repository (system.perform repository (.step position moment late)) := by
  intro events other later since instant reading last key value place orderly present started still
    ends reads
  have next : Ordered (Meaning.any ρ) repository
      (system.perform repository (.step position moment late)) :=
    perform_ordered Meaning.any_lawful tracking ordered allows
      fun operation _ => Operation.any_allowed operation
  obtain ⟨before, final⟩ := orderly_append.mp orderly
  have running : Ordered (Meaning.any ρ) repository
      ((system.perform repository (.step position moment late)).run repository events) :=
    run_ordered Meaning.any_lawful tracking next before
      fun operation _ => Operation.any_allowed operation
  -- The read is not the operation that has just ended, so it was under way before.
  have different : position ≠ other := by
    rintro rfl
    have inside := (List.getElem?_eq_some_iff.mp finishes.found).1
    rw [perform_step finishes.found] at present
    simp only [List.getElem?_set_self inside, Option.some.injEq] at present
    subst present
    simp [finishes.last, Activity.isDone] at still
  have earlier : system.jobs[other]? = some reading := by
    rw [perform_step finishes.found] at present
    simpa [different] using present
  have overlapped := ordered.since_le earlier started
  obtain ⟨same, found, kept⟩ := since_run repository present started events
  obtain rfl : same = last := Option.some.inj (found.symm.trans ends.found)
  obtain ⟨after, state, _, _, count, left⟩ :=
    running.finish Meaning.any_lawful tracking final.1 ends
  have counted :=
    count_run repository (system.perform repository (.step position moment late)) events
  have ended := (count_perform repository
    ((system.perform repository (.step position moment late)).run repository events)
    (.step other instant later)).1
  have gone := left.read key value reads rfl (by rw [kept, Option.getD_some]; omega)
  rw [run_append]
  change (ReadCache.get (perform repository
    ((system.perform repository (.step position moment late)).run repository events)
    (.step other instant later)).state.cache place key).1 = none
  rw [← state, after.2.cache.get_fst, ReadCache.live?, gone]
  rfl

/--
Right after a create, update, soft delete or delete of a record has succeeded, every live cached
read is a single record with another identity; right after a truncation, nothing is cached or
tracked; and no read that is under way by then leaves its value cached.
-/
theorem run_write_leaves_nothing (tracking : repository.invalidation = .byIdentity)
    (created : ReadCache.create capacity shards = .ok cache)
    (built : repository.build (some cache) store = .ok state) {events : List (Event ρ)}
    {position late : Nat} {moment : Moment} {job : Job ρ} {outcome : Outcome ρ}
    (orderly : Orderly repository (fresh state now) (events ++ [.step position moment late]))
    (finishes : ((fresh state now).run repository events).Finishes position moment late job
      outcome) :
    (∀ written, job.operation.isWrite = true → outcome = .wrote written →
      written.outcome = .ok () →
      (∀ instant key cached, moment.instant ≤ instant →
        (((fresh state now).run repository
          (events ++ [.step position moment late])).state.cache.get instant key).1 = some cached →
        cached.recordId? ≠ none ∧ cached.recordId? ≠ Record.id? written.record) ∧
      Forgets repository
        ((fresh state now).run repository (events ++ [.step position moment late]))) ∧
    ∀ removed, outcome = .truncated (.ok removed) →
      Repository.Emptied
        ((fresh state now).run repository (events ++ [.step position moment late])).state ∧
      Forgets repository
        ((fresh state now).run repository (events ++ [.step position moment late])) := by
  obtain ⟨before, final⟩ := orderly_append.mp orderly
  have ordered := any_ordered tracking created built before
  obtain ⟨after, same, clock, previous, count, ends⟩ :=
    ordered.finish Meaning.any_lawful tracking final.1 finishes
  have forgets := forgets_of_invalidation tracking ordered final.1 finishes
  rw [previous.symm, count.symm] at forgets
  rw [run_append]
  refine ⟨fun written writes wrote succeeded => ?_, fun removed emptied => ?_⟩
  · have clears := ends.wrote written writes wrote succeeded
    refine ⟨fun instant key cached order found => ?_, forgets clears.1⟩
    have found : (ReadCache.get (Interleaving.perform repository _
      (.step position moment late)).state.cache instant key).1 = some cached := found
    rw [← same, after.2.cache.get_fst] at found
    exact clears.2 key cached (ReadCache.live?_earlier (clock ▸ order) found)
  · obtain ⟨moved, empty⟩ := ends.truncated removed emptied
    exact ⟨same ▸ empty, forgets moved⟩

def createBesideRead : List (Event Document) :=
  let moment : Moment := ⟨⟨1⟩, ⟨2024, 1, 1, 0, 0, 0, 0⟩, ⟨"b"⟩⟩
  [.start (.readByKey "k" ⟨"a"⟩), .start (.create .strict ⟨some ⟨"a"⟩, "x", "", .none⟩),
    .step 0 moment 0, .step 1 moment 0, .step 1 moment 0, .step 1 moment 0]

theorem createBesideRead_leaves_nothing :
    ∃ (cache : ReadCache (Cached Document)) (state : RepositoryState Document)
      (moment : Moment) (job : Job Document) (written : Written Document),
      ReadCache.create 2 none = .ok cache ∧
      Repository.standard.build (some cache) (MemoryStore.create none) = .ok state ∧
      ((fresh state ⟨0⟩).run Repository.standard createBesideRead).Finishes 1 moment 0 job
        (.wrote written) ∧
      (∀ instant key cached, moment.instant ≤ instant →
        (((fresh state ⟨0⟩).run Repository.standard
          (createBesideRead ++ [.step 1 moment 0])).state.cache.get instant key).1 = some cached →
        cached.recordId? ≠ none ∧ cached.recordId? ≠ some ⟨"a"⟩) ∧
      Forgets Repository.standard ((fresh state ⟨0⟩).run Repository.standard
        (createBesideRead ++ [.step 1 moment 0])) := by
  let moment : Moment := ⟨⟨2⟩, ⟨2024, 1, 1, 0, 0, 0, 0⟩, ⟨"c"⟩⟩
  have tracking : Repository.standard.invalidation = .byIdentity := rfl
  have created : ReadCache.create 2 none = .ok (_ : ReadCache (Cached Document)) := rfl
  let written : Written Document :=
    ⟨.ok (), ⟨some ⟨"a"⟩, "x", "", ⟨some moment.time, none, none⟩⟩⟩
  refine ⟨_, _, moment, _, written, created, rfl, ⟨rfl, rfl, rfl⟩, ?_⟩
  refine (run_write_leaves_nothing tracking created rfl ?_ ⟨rfl, rfl, rfl⟩).1 written rfl rfl rfl
  exact orderly_of_instants Repository.standard (by decide) (by decide)

end Interleaving

end CachedStore
