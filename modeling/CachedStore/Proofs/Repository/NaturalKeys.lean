import CachedStore.Proofs.Repository.Exchanges
import CachedStore.Proofs.Repository.FilterReads

/-!
What a repository and its store make of a natural key. The repository looks for a live record of the
key, and what it finds is what the store would refuse another for; but a key without conditions is
no key to the store, while the lookup by it finds any live record.
-/

namespace CachedStore

namespace Rows

variable {ρ : Type} [Record ρ] {rows : Rows} {record : ρ}

/--
A live row has the natural key of the record. It keeps the store from taking the record under a
fresh identity if and only if the key has a condition.
-/
structure SharesKey (rows : Rows) (record : ρ) : Prop where
  live : ∃ (id : RecordId) (row : Row), rows[id]? = some row ∧
    (Record.naturalKey record).accepts row = true ∧ isLive ρ row = .ok true
  taken : ∀ fresh : RecordId, rows[fresh]? = none →
    (keyIsTaken rows fresh (Record.naturalKey record) = true ↔
      (Record.naturalKey record).isEmpty = false)
  refused : ∀ (named : ρ) (fresh : RecordId) (row : Row), requireId named = .ok fresh →
    rows[fresh]? = none → Record.toRow named = .ok row →
    Record.naturalKey named = Record.naturalKey record →
    ((∃ failure, rows.create named = .error failure ∧ failure.isDuplicate = true) ↔
      (Record.naturalKey record).isEmpty = false)

theorem create_refused_iff {id : RecordId} {row : Row} (required : requireId record = .ok id)
    (missing : rows[id]? = none) (shown : Record.toRow record = .ok row) :
    (∃ failure, rows.create record = .error failure ∧ failure.isDuplicate = true) ↔
      keyIsTaken rows id (Record.naturalKey record) = true := by
  have outcomes : (rows[id]? = none ∧ keyIsTaken rows id (Record.naturalKey record) = false ∧
      rows.create record = .ok (rows.insert id row)) ∨ _ := create_cases required shown
  rcases outcomes with ⟨_, free, created⟩ | ⟨failure, refused, duplicate, taken⟩
  · simp [created, free]
  · exact ⟨fun _ => taken missing, fun _ => ⟨failure, refused, duplicate⟩⟩

theorem sharesKey_of_findOne {found : ρ}
    (read : rows.findOne Record.blank (Record.naturalKey record) = .ok found) :
    rows.SharesKey record := by
  obtain ⟨first, chosen, read⟩ := bind_eq_ok.mp read
  cases first with
  | none => cases read
  | some row =>
      obtain ⟨id, stored, accepted, live, _⟩ := firstLive_matching_iff.mp chosen
      have taken : ∀ fresh : RecordId, rows[fresh]? = none →
          (keyIsTaken rows fresh (Record.naturalKey record) = true ↔
            (Record.naturalKey record).isEmpty = false) := by
        intro fresh missing
        have different : id ≠ fresh := by
          rintro rfl
          simp [stored] at missing
        rw [keyIsTaken_iff]
        exact and_iff_left ⟨id, row, different, stored, accepted⟩
      refine ⟨⟨id, row, stored, accepted, live⟩, taken, ?_⟩
      intro named fresh shown required missing written same
      rw [create_refused_iff required missing written, same]
      exact taken fresh missing

end Rows

namespace Repository

variable {ρ : Type} [Record ρ] {repository : Repository} {clock : Nat → Moment} {step next : Nat}
  {state after : RepositoryState ρ} {record : ρ} {written : Written ρ}

theorem calls_of_createWith (stored : repository.hasStore = true)
    (timely : repository.Timely state.store) {policy : DuplicatePolicy}
    (ran : (repository.createWith policy record).runOn clock step state = (written, after, next))
    (success : written.outcome = .ok ()) :
    after.store.calls = state.store.calls.add .create := by
  obtain ⟨exchanges, _, _, _, same, exchanged, concluded⟩ :=
    Attempt.asks_createWith stored policy record clock step state timely
  obtain ⟨rfl, rest⟩ := Prod.mk.inj (ran.symm.trans same)
  obtain ⟨rfl, _⟩ := Prod.mk.inj rest
  have fine : Attempt.writtenFailure? written = none := by
    rw [Attempt.writtenFailure?, success]
    rfl
  rw [Attempt.ConcludedBy] at concluded
  rw [exchanged.calls]
  generalize Attempt.writtenFailure? written = failure at fine concluded
  cases concluded with
  | cached found => cases found
  | refused refuses => cases fine
  | asked missed asks settled =>
      simp only [Attempt.request?, Option.some.injEq] at asks
      cases stamped : stampNew record (clock step) with
      | error failure => simp [stamped, Except.map] at asks
      | ok made =>
          rw [stamped] at asks
          obtain rfl := Except.ok.inj asks
          rfl

theorem createIfAbsent_cases (stored : repository.hasStore = true)
    (timely : repository.Timely state.store)
    (ran : (repository.createIfAbsent record).runOn clock step state = (written, after, next))
    (success : written.outcome = .ok ()) :
    state.store.rows.findOne Record.blank (Record.naturalKey record) = .ok written.record ∨
      after.store.calls.create = state.store.calls.create + 1 := by
  have looked := runOn_deadline clock step timely "create_if_not" .findOne fun rows =>
    (rows.findOne (Record.blank : ρ) (Record.naturalKey record)).map fun answer => (answer, rows)
  have counted := state.store.counted_perform .findOne fun rows =>
    (rows.findOne (Record.blank : ρ) (Record.naturalKey record)).map fun answer => (answer, rows)
  rw [createIfAbsent, needingStore, if_pos stored, uncached, if_pos stored, MemoryStore.findOne,
    MemoryStore.readCall, Activity.runOn_bind_of looked] at ran
  generalize (state.store.begin .findOne).perform _ = performed at ran counted looked
  obtain ⟨outcome, store⟩ := performed
  cases outcome with
  | ok existing =>
      obtain ⟨rfl, _⟩ := Prod.mk.inj ran
      have found : ((repository.deadline "create_if_not" (onStore (MemoryStore.findOne
          (Record.blank : ρ) (Record.naturalKey record)))).runOn clock step state).1 =
          .ok existing := congrArg Prod.fst looked
      exact Or.inl (runOn_deadline_eq_ok found)
  | error failure =>
      by_cases missing : failure.isNotFound = true
      · simp only [missing, ↓reduceIte] at ran
        have soon : repository.Timely store := by
          rw [Timely, counted.latency]
          exact timely
        have calls := calls_of_createWith stored soon ran success
        refine Or.inr ?_
        rw [calls, counted.calls]
        rfl
      · simp only [missing, Bool.false_eq_true, ↓reduceIte] at ran
        obtain ⟨rfl, _⟩ := Prod.mk.inj ran
        cases success

/--
If a record is said to exist, or a conditional create gives a stored record in its place, then a
live row has its natural key, for which the store refuses the record under every fresh identity
unless the key is without conditions.
-/
theorem existence_sharesKey (repository : Repository) (clock : Nat → Moment) (step : Nat)
    (state : RepositoryState ρ) (record : ρ) :
    (((repository.existsLike record).runOn clock step state).1 = .ok true →
      state.store.rows.SharesKey record) ∧
    ∀ (written : Written ρ) (after : RepositoryState ρ) (next : Nat),
      (repository.createIfAbsent record).runOn clock step state = (written, after, next) →
      written.outcome = .ok () → after.store.calls.create = state.store.calls.create →
      state.store.rows.findOne Record.blank (Record.naturalKey record) = .ok written.record ∧
        state.store.rows.SharesKey record := by
  constructor
  · intro told
    by_cases stored : repository.hasStore = true
    · rw [existsLike, Activity.runOn_bind, uncached, if_pos stored] at told
      generalize found : ((repository.deadline "exists" (onStore (MemoryStore.findOne
        (Record.blank : ρ) (Record.naturalKey record)))).runOn clock step state) = looked at told
      obtain ⟨outcome, middle, later⟩ := looked
      cases outcome with
      | ok existing =>
          exact Rows.sharesKey_of_findOne (runOn_deadline_eq_ok (congrArg Prod.fst found))
      | error failure =>
          cases missing : failure.isNotFound <;> simp [missing, Activity.runOn] at told
    · simp [existsLike, uncached, stored, Activity.bind, Activity.runOn, noStore,
        Failure.isNotFound] at told
  · intro written after next ran success uncalled
    by_cases stored : repository.hasStore = true
    · by_cases late : Late repository.queryTimeout state.store
      · have refused : ∃ failure,
            ((repository.createIfAbsent record).runOn clock step state).1.outcome =
              .error failure := runOn_createIfAbsent_late stored late record
        simp [ran, success] at refused
      · have timely : repository.Timely state.store := soon_of_not_late late
        rcases createIfAbsent_cases stored timely ran success with found | called
        · exact ⟨found, Rows.sharesKey_of_findOne found⟩
        · omega
    · rw [createIfAbsent, needingStore, if_neg stored] at ran
      obtain ⟨rfl, _⟩ := Prod.mk.inj ran
      cases success

def loose (columns : List (String × Json)) : LooseRecord := ⟨.ofMembers columns⟩

def looseNamed (columns : List (String × Json)) : LooseRecord :=
  loose (("$keys", .array [.string "name"]) :: columns)

def alone (record : LooseRecord) : RepositoryState LooseRecord :=
  ⟨.single ⟨8, .empty, .empty, .zero⟩, .empty,
    ((MemoryStore.createRecord record).runOn ticking 0 (.create none)).2.1⟩

theorem existence_sharesKey_named :
    ∃ (written : Written LooseRecord) (after : RepositoryState LooseRecord) (next : Nat),
      let state := alone (looseNamed [("id", .string "a"), ("name", .string "x")])
      let record := looseNamed [("name", .string "x")]
      ((standard.existsLike record).runOn ticking 0 state).1 = .ok true ∧
      (standard.createIfAbsent record).runOn ticking 0 state = (written, after, next) ∧
      written.outcome = .ok () ∧ after.store.calls.create = state.store.calls.create ∧
      state.store.rows.findOne Record.blank (Record.naturalKey record) = .ok written.record ∧
      state.store.rows.SharesKey record ∧
      state.store.rows.keyIsTaken ⟨"b"⟩ (Record.naturalKey record) = true := by
  let state := alone (looseNamed [("id", .string "a"), ("name", .string "x")])
  let record := looseNamed [("name", .string "x")]
  obtain ⟨existing, replaced⟩ := existence_sharesKey standard ticking 0 state record
  let ended := (standard.createIfAbsent record).runOn ticking 0 state
  have told : ((standard.existsLike record).runOn ticking 0 state).1 = .ok true := by
    decide +kernel
  have success : ended.1.outcome = .ok () := by decide +kernel
  have uncalled : ended.2.1.store.calls.create = state.store.calls.create := by decide +kernel
  have missing : state.store.rows[(⟨"b"⟩ : RecordId)]? = none :=
    Option.isNone_iff_eq_none.mp (by decide +kernel)
  have given : (Record.naturalKey record).isEmpty = false := by decide +kernel
  have ran : ended = (ended.1, ended.2.1, ended.2.2) := by rw [Prod.mk.eta]
  obtain ⟨found, shares⟩ := replaced ended.1 ended.2.1 ended.2.2 ran success uncalled
  exact ⟨ended.1, ended.2.1, ended.2.2, told, ran, success, uncalled, found,
    existing told, (shares.taken ⟨"b"⟩ missing).mpr given⟩

/-- Any live record passes for one of a key without conditions, though the store takes another. -/
theorem existence_without_key :
    ∃ (written : Written LooseRecord) (after : RepositoryState LooseRecord) (next : Nat)
      (named : LooseRecord) (changed : Rows),
      let state := alone (loose [("id", .string "a")])
      let record := loose [("name", .string "x")]
      ((standard.existsLike record).runOn ticking 0 state).1 = .ok true ∧
      (standard.createIfAbsent record).runOn ticking 0 state = (written, after, next) ∧
      written.outcome = .ok () ∧ written.record = loose [("id", .string "a")] ∧
      after.store.calls.create = state.store.calls.create ∧
      state.store.rows[(⟨"b"⟩ : RecordId)]? = none ∧ Record.withId record ⟨"b"⟩ = .ok named ∧
      Record.naturalKey named = Record.naturalKey record ∧
      state.store.rows.keyIsTaken ⟨"b"⟩ (Record.naturalKey record) = false ∧
      state.store.rows.create named = .ok changed :=
  ⟨_, _, _, _, _, rfl, rfl, rfl, rfl, rfl, rfl, rfl, rfl, rfl, rfl⟩

end Repository

end CachedStore
