import CachedStore.Proofs.Repository.Interleaving
import CachedStore.Proofs.Store.NamedRows

/-!
Cache coherence: if each key stands for one query, then whatever runs beside, every live cached read
is what its query would give now, unless a write is yet to drop it.
-/

namespace CachedStore

inductive CachedQuery where
  | byId (id : RecordId)
  | byName (name : String)
  | list (query : Query)

namespace CachedQuery

variable {ρ : Type} [Record ρ]

def nameFilter (name : String) : Filter := .equals "name" (.string name)

def answer (rows : Rows) : CachedQuery → Except Failure (Cached ρ)
  | byId id => (rows.readByKey Record.blank id).map .one
  | byName name => (rows.findOne Record.blank (nameFilter name)).map .one
  | list query => (rows.find [] query).map .many

theorem map_eq_ok {α β : Type} {result : Except Failure α} {wrap : α → β} {value : β} :
    result.map wrap = .ok value ↔ ∃ answer, result = .ok answer ∧ wrap answer = value := by
  cases result <;> simp [Except.map]

theorem answer_of_unaffected [NamedRecord ρ] {rows changed : Rows} {id : RecordId}
    {query : CachedQuery} {cached : Cached ρ} (named : rows.Named) (others : changed.Named)
    (same : ∀ other : RecordId, other ≠ id → changed[other]? = rows[other]?)
    (answered : query.answer rows = .ok cached)
    (unaffected : ¬ (Debt.record (some id)).Affects cached) :
    query.answer changed = .ok cached := by
  cases query with
  | byId other =>
      obtain ⟨record, read, rfl⟩ := map_eq_ok.mp answered
      have own := Rows.id?_of_readByKey named read
      have different : other ≠ id := by
        rintro rfl
        exact unaffected (Or.inr own)
      rw [answer, Rows.readByKey_congr _ (same other different), read]
      rfl
  | byName name =>
      obtain ⟨record, read, rfl⟩ := map_eq_ok.mp answered
      obtain ⟨other, row, stored, shows, own⟩ := Rows.id?_of_findOne named read
      have different : other ≠ id := by
        rintro rfl
        exact unaffected (Or.inr own)
      rw [answer, nameFilter,
        named.findOne_congr others _ stored shows (same other different)]
      exact answered
  | list query =>
      obtain ⟨records, _, rfl⟩ := map_eq_ok.mp answered
      exact absurd (Or.inl rfl) unaffected

end CachedQuery

section Coherent

variable {ρ : Type} [Record ρ]

/-- Cached reads agree with the store if they are what the queries of their key give. -/
def coherent (ρ : Type) [Record ρ] (uses : Key → CachedQuery → Prop) : Meaning ρ where
  Sound rows := rows.Named
  Fits rows key cached := ∀ query, uses key query → query.answer rows = .ok cached

variable {uses : Key → CachedQuery → Prop}

/-- If a cached read changes only with the row of its record, then its record is what is owed. -/
theorem Meaning.lawful_of_named [NamedRecord ρ] {meaning : Meaning ρ}
    (named : ∀ rows, meaning.Sound rows ↔ rows.Named)
    (stays : ∀ {rows changed : Rows} {id : RecordId} {key : Key} {cached : Cached ρ},
      rows.Named → changed.Named →
      (∀ other : RecordId, other ≠ id → changed[other]? = rows[other]?) →
      meaning.Fits rows key cached → ¬ (Debt.record (some id)).Affects cached →
      meaning.Fits changed key cached) :
    meaning.Lawful := by
  have allows : ∀ {rows changed : Rows} {id : RecordId}, rows.Named → changed.Named →
      (∀ other : RecordId, other ≠ id → changed[other]? = rows[other]?) →
      meaning.Permits rows changed (.record (some id)) := by
    intro rows changed id before after same
    refine ⟨(named changed).mpr after, fun key cached fits => ?_⟩
    by_cases affected : (Debt.record (some id)).Affects cached
    · exact Or.inr affected
    · exact Or.inl (stays before after same fits affected)
  refine ⟨(named _).mpr Rows.named_empty, ?_, ?_, ?_⟩
  · intro rows changed moment id record stamped sound stamps created
    have before := (named rows).mp sound
    have after := Rows.Named.create before created
    obtain ⟨own, row, required, _, _, _, rfl⟩ := Rows.create_eq_ok created
    obtain rfl : own = id := Option.some.inj
      ((Rows.id?_of_requireId required).symm.trans (Repository.id?_of_stampNew stamps))
    exact allows before after fun other => getElem?_insert_of_ne rows row
  · intro rows changed record sound updated
    have before := (named rows).mp sound
    have after := Rows.Named.update before updated
    obtain ⟨id, row, required, _, _, rfl⟩ := Rows.update_eq_ok updated
    rw [Rows.id?_of_requireId required]
    exact allows before after fun other => getElem?_insert_of_ne rows row
  · intro rows changed record sound deleted
    have before := (named rows).mp sound
    have after := Rows.Named.delete before deleted
    obtain ⟨id, required, rfl⟩ := Rows.delete_eq_ok deleted
    rw [Rows.id?_of_requireId required]
    exact allows before after fun other => getElem?_erase_of_ne rows

theorem coherent_lawful [NamedRecord ρ] : (coherent ρ uses).Lawful :=
  Meaning.lawful_of_named (fun _ => Iff.rfl)
    fun named others same fits unaffected query used =>
      CachedQuery.answer_of_unaffected named others same (fits query used) unaffected

end Coherent

/-! Reads that follow a use of the keys -/

/-- A cached read asks under its key for what the key stands for. -/
def Operation.Follows {ρ : Type} (use : Key → CachedQuery) : Operation ρ → Prop
  | fetchOne _ _ _ => False
  | fetchMany _ _ _ => False
  | readByKey key id => use key = .byId id
  | findOne key filter =>
    ∃ name, filter = CachedQuery.nameFilter name ∧ use key = .byName name
  | find key query => use key = .list query
  | _ => True

namespace Repository

variable {ρ : Type} [Record ρ] {uses : Key → CachedQuery → Prop} {δ : Type}

theorem coherent_loads {key : Key} {wrap : δ → Cached ρ} (call : StoreCall)
    {read : Rows → Except Failure δ}
    (answers : ∀ query, uses key query → ∀ rows, query.answer rows = (read rows).map wrap) :
    Loads (coherent ρ uses) key wrap (onStore (MemoryStore.readCall call read)) := by
  refine readCall_loads call fun rows value _ answered query used => ?_
  rw [answers query used, answered]
  rfl

end Repository

theorem Operation.Follows.allowed {ρ : Type} [Record ρ] {use : Key → CachedQuery}
    {operation : Operation ρ} (follows : operation.Follows use) :
    operation.Allowed (coherent ρ fun key query => use key = query) := by
  cases operation with
  | fetchOne key lifetime load => exact follows.elim
  | fetchMany key lifetime load => exact follows.elim
  | readByKey key id =>
      refine Repository.coherent_loads .readByKey fun query used rows => ?_
      obtain rfl : CachedQuery.byId id = query := follows.symm.trans used
      rfl
  | findOne key filter =>
      obtain ⟨name, rfl, named⟩ := follows
      refine Repository.coherent_loads .findOne fun query used rows => ?_
      obtain rfl : CachedQuery.byName name = query := named.symm.trans used
      rfl
  | find key query =>
      refine Repository.coherent_loads .find fun other used rows => ?_
      obtain rfl : CachedQuery.list query = other := follows.symm.trans used
      rfl
  | _ => trivial

namespace Interleaving

variable {ρ : Type} [Record ρ] {repository : Repository}

/-- No operation has changed the rows without having invalidated since. -/
def Settled (system : Interleaving ρ) : Prop :=
  ∀ job ∈ system.jobs, job.rest.isDone = false → ¬ job.owing

theorem Ordered.fits {meaning : Meaning ρ} {system : Interleaving ρ} {instant : Instant}
    {key : Key} {cached : Cached ρ} (ordered : Ordered meaning repository system)
    (settled : system.Settled) (order : system.now ≤ instant)
    (found : (system.state.cache.get instant key).1 = some cached) :
    meaning.Fits system.state.store.rows key cached := by
  have sound := ordered.sound
  obtain ⟨worlds, ordered⟩ := ordered
  have consistent := (worlds 0).2
  rw [ordered.views 0] at consistent
  rw [sound.get_fst] at found
  rcases consistent.explained key cached (ReadCache.live?_earlier order found) with
    fits | ⟨debt, owes, _⟩
  · exact fits
  · -- Who owes the debt has changed the rows and is under way, which a settled system rules out.
    obtain ⟨other, owed⟩ := (owes_view system _ 0 debt).mp owes
    cases present : system.jobs[other]? with
    | none => exact absurd (owed.symm.trans (ordered.beyond other present)) (by simp)
    | some job =>
        have stands := ordered.jobs other job present
        have owning : (worlds other).1.own ≠ none := by simp [owed]
        have underway : job.rest.isDone = false := by
          by_contra finished
          exact owning (stands.done (by simpa using finished))
        exact absurd (stands.owing owning) (settled job (List.mem_of_getElem? present) underway)

/--
Whatever the order of the steps, whenever no write stands between its effect on the store and its
invalidation, every live cached read is what its query would give from the store.
-/
theorem run_coherent [NamedRecord ρ] {capacity : UInt64} {shards : Option UInt64}
    {cache : ReadCache (Cached ρ)} {store : MemoryStore ρ} {state : RepositoryState ρ}
    {now instant : Instant} {use : Key → CachedQuery} {events : List (Event ρ)} {key : Key}
    {cached : Cached ρ} (tracking : repository.invalidation = .byIdentity)
    (created : ReadCache.create capacity shards = .ok cache)
    (built : repository.build (some cache) store = .ok state) (made : Rows.Made ρ store.rows)
    (orderly : Orderly repository (fresh state now) events)
    (follows : ∀ operation, .start operation ∈ events → operation.Follows use)
    (settled : ((fresh state now).run repository events).Settled)
    (order : ((fresh state now).run repository events).now ≤ instant)
    (found : (((fresh state now).run repository events).state.cache.get instant key).1 =
      some cached) :
    (use key).answer ((fresh state now).run repository events).state.store.rows = .ok cached := by
  have start : Ordered (coherent ρ fun key query => use key = query) repository
      (fresh state now) := fresh_ordered created built made.named now
  have ordered := run_ordered coherent_lawful tracking start orderly
    fun operation started => (follows operation started).allowed
  exact ordered.fits settled order found (use key) rfl

def createBesideReads : List (Event Document) :=
  let moment : Moment := ⟨⟨1⟩, ⟨2024, 1, 1, 0, 0, 0, 0⟩, ⟨"b"⟩⟩
  let steps (position count : Nat) : List (Event Document) :=
    List.replicate count (.step position moment 0)
  [.start (.create .strict ⟨some ⟨"a"⟩, "x", "", .none⟩), .start (.readByKey "k" ⟨"a"⟩),
    .start (.findOne "n" (CachedQuery.nameFilter "x"))] ++
  steps 1 2 ++ steps 0 3 ++ steps 1 1 ++ steps 0 1 ++ steps 1 1 ++ steps 2 4

theorem createBesideReads_coherent :
    ∃ (cache : ReadCache (Cached Document)) (state : RepositoryState Document)
      (found : Cached Document),
      ReadCache.create 2 none = .ok cache ∧
      Repository.standard.build (some cache) (MemoryStore.create none) = .ok state ∧
      (((fresh state ⟨0⟩).run Repository.standard createBesideReads).state.cache.get ⟨2⟩ "n").1 =
        some found ∧
      (CachedQuery.byName "x").answer
        ((fresh state ⟨0⟩).run Repository.standard createBesideReads).state.store.rows =
        .ok found := by
  let state : RepositoryState Document :=
    ⟨.single ⟨2, .empty, .empty, .zero⟩, .empty, MemoryStore.create none⟩
  let use : Key → CachedQuery := fun key => if key = "k" then .byId ⟨"a"⟩ else .byName "x"
  have tracking : Repository.standard.invalidation = .byIdentity := rfl
  have created : ReadCache.create 2 none = .ok state.cache := rfl
  have built : Repository.standard.build (some state.cache) state.store = .ok state := rfl
  have orderly : Orderly Repository.standard (fresh state ⟨0⟩) createBesideReads :=
    orderly_of_instants Repository.standard (by decide) (by decide)
  have follows : ∀ operation : Operation Document,
      .start operation ∈ createBesideReads → operation.Follows use := by
    intro operation started
    simp only [createBesideReads, List.replicate, List.cons_append, List.nil_append, List.mem_cons,
      Event.start.injEq, reduceCtorEq, or_false, List.not_mem_nil] at started
    rcases started with rfl | rfl | rfl
    · trivial
    · rfl
    · exact ⟨"x", rfl, rfl⟩
  have finished : (((fresh state ⟨0⟩).run Repository.standard createBesideReads).jobs.all
      fun job => job.rest.isDone) = true := by
    decide +kernel
  have settled : ((fresh state ⟨0⟩).run Repository.standard createBesideReads).Settled := by
    intro job member underway
    simp [List.all_eq_true.mp finished job member] at underway
  have found : (((fresh state ⟨0⟩).run Repository.standard createBesideReads).state.cache.get ⟨2⟩
      "n").1 = some (.one ⟨some ⟨"a"⟩, "x", "", ⟨some ⟨2024, 1, 1, 0, 0, 0, 0⟩, none, none⟩⟩) := by
    decide +kernel
  have order : ((fresh state ⟨0⟩).run Repository.standard createBesideReads).now ≤ ⟨2⟩ := by
    decide +kernel
  have named : use "n" = .byName "x" := rfl
  have answered :=
    run_coherent tracking created built .empty orderly follows settled order found
  exact ⟨state.cache, state, _, created, built, found, named ▸ answered⟩

end Interleaving

end CachedStore
