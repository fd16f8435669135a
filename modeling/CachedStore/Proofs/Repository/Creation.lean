import CachedStore.Proofs.Repository.NaturalKeys
import CachedStore.Proofs.Store.FaithfulRows

/-!
Creates that run alone. The two policies differ in the report only: what one tells as a duplicate is
a success to the other. A duplicate of a named record is told if and only if a row has its identity
or another row has its name; the row may be that of a deleted record, which no read gives.
-/

namespace CachedStore

namespace Rows

def NameTaken (rows : Rows) (id : Option RecordId) (name : String) : Prop :=
  ∃ (other : RecordId) (row : Row), id ≠ some other ∧ rows[other]? = some row ∧
    row.get "name" = .string name

variable {ρ : Type} [Record ρ] [NamedRecord ρ] {rows : Rows} {record : ρ} {id : RecordId}

theorem Named.keyIsTaken_iff_nameTaken (named : rows.Named) :
    keyIsTaken rows id (Record.naturalKey record) = true ↔
      rows.NameTaken (some id) (NamedRecord.name record) := by
  rw [Rows.keyIsTaken_iff, NamedRecord.naturalKey_eq]
  constructor
  · rintro ⟨_, other, row, different, stored, accepted⟩
    exact ⟨other, row, fun same => different (Option.some.inj same).symm, stored,
      (named.accepts_name_iff stored).mp accepted⟩
  · rintro ⟨other, row, different, stored, shows⟩
    exact ⟨rfl, other, row, fun same => different (same ▸ rfl), stored,
      (named.accepts_name_iff stored).mpr shows⟩

theorem Named.create_duplicate_iff (named : rows.Named) {row : Row}
    (required : requireId record = .ok id) (shown : Record.toRow record = .ok row) :
    (∃ failure, rows.create record = .error failure ∧ failure.isDuplicate = true) ↔
      rows.contains id = true ∨ rows.NameTaken (some id) (NamedRecord.name record) := by
  rw [← named.keyIsTaken_iff_nameTaken]
  by_cases present : rows.contains id = true
  · have outcomes : (rows[id]? = none ∧ _) ∨ _ := create_cases required shown
    rcases outcomes with ⟨missing, _⟩ | ⟨failure, refused, duplicate, _⟩
    · rw [Std.TreeMap.contains_eq_isSome_getElem?, missing] at present
      cases present
    · exact ⟨fun _ => Or.inl present, fun _ => ⟨failure, refused, duplicate⟩⟩
  · have missing : rows[id]? = none := by simpa using present
    rw [create_refused_iff required missing shown, or_iff_right present]

theorem nameTaken_of_missing {name : String} (missing : rows[id]? = none) :
    rows.NameTaken (some id) name ↔ rows.NameTaken none name := by
  refine exists₂_congr fun other row => and_congr_left fun found => ?_
  refine iff_of_true (fun same => ?_) (Option.some_ne_none other).symm
  rw [← Option.some.inj same, missing] at found
  cases found.1

end Rows

namespace MemoryStore

variable {ρ : Type} {store : MemoryStore ρ}

theorem perform_write (calm : store.faults = []) (change : Rows → Except Failure Rows) :
    (store.perform fun rows => (change rows).map fun changed => ((), changed)) =
      ((change store.rows).map fun _ => (),
        { store with rows := (change store.rows).toOption.getD store.rows }) := by
  cases given : change store.rows with
  | error failure => exact perform_error calm (by rw [given]; rfl)
  | ok changed => exact perform_ok calm (by rw [given]; rfl)

end MemoryStore

namespace Repository

variable {ρ : Type} [Record ρ] {repository : Repository} {clock : Nat → Moment} {step : Nat}
  {state : RepositoryState ρ}

/-! What a write does to a store without pending failures -/

theorem settle_strict (outcome : Except Failure Unit) : settle .strict outcome = outcome := by
  cases outcome <;> rfl

omit [Record ρ] in
theorem runOn_finishWrite (repository : Repository) (policy : DuplicatePolicy)
    (id : Option RecordId) (record : ρ) (outcome : Except Failure Unit) (clock : Nat → Moment)
    (step : Nat) (state : RepositoryState ρ) :
    ∃ (after : RepositoryState ρ) (next : Nat),
      (repository.finishWrite policy id record outcome).runOn clock step state =
        (⟨settle policy outcome, record⟩, after, next) ∧ after.store = state.store := by
  rw [finishWrite]
  cases settle policy outcome with
  | error failure => exact ⟨state, step, rfl, rfl⟩
  | ok answer => exact ⟨_, _, rfl, store_invalidateRecord repository id (clock step) state⟩

theorem runOn_write (calm : state.store.faults = []) (timely : repository.Timely state.store)
    (operation : String) (policy : DuplicatePolicy) (id : Option RecordId) (record : ρ)
    (call : StoreCall) (change : Rows → Except Failure Rows) :
    ∃ (after : RepositoryState ρ) (next : Nat),
      (repository.write operation policy id record (MemoryStore.writeCall call change)).runOn
          clock step state =
        (⟨settle policy ((change state.store.rows).map fun _ => ()), record⟩, after, next) ∧
      after.store = { state.store.begin call with
        rows := (change state.store.rows).toOption.getD state.store.rows } := by
  have ran := runOn_deadline clock step timely operation call fun rows =>
    (change rows).map fun changed => ((), changed)
  have begun : (state.store.begin call).faults = [] := calm
  rw [MemoryStore.perform_write begun] at ran
  rw [write, MemoryStore.writeCall, Activity.runOn_bind_of ran]
  exact runOn_finishWrite repository policy id record _ clock _ _

theorem runOn_createWith (stored : repository.hasStore = true) (calm : state.store.faults = [])
    (timely : repository.Timely state.store) (policy : DuplicatePolicy) {record stamped : ρ}
    {id : RecordId} (stamps : stampNew record (clock step) = .ok (id, stamped)) :
    ∃ (after : RepositoryState ρ) (next : Nat),
      (repository.createWith policy record).runOn clock step state =
        (⟨settle policy ((state.store.rows.create stamped).map fun _ => ()), stamped⟩, after,
          next) ∧
      after.store = { state.store.begin .create with
        rows := (state.store.rows.create stamped).toOption.getD state.store.rows } := by
  rw [createWith, needingStore, if_pos stored, Activity.runOn]
  simp only [stamps]
  exact runOn_write calm timely "create" policy (some id) stamped .create _

/-! One create under both policies -/

theorem refuses_of_stampNew {record : ρ} {moment : Moment} {failure : Failure}
    (refused : stampNew record moment = .error failure) :
    Record.givenId? record = none ∧ Record.withId record moment.freshId = .error failure := by
  simp only [stampNew, Record.ensureId] at refused
  cases given : Record.givenId? record with
  | some id => simp [given, Except.map] at refused
  | none =>
      cases made : Record.withId record moment.freshId with
      | error reason => simpa [given, made, Except.map] using refused
      | ok other => simp [given, made, Except.map] at refused

def TellsDuplicate (outcome : Except Failure Unit) : Prop :=
  ∃ failure, outcome = .error failure ∧ failure.isDuplicate = true

/-- How a strict run ends, and how one ends that ignores duplicates. -/
inductive Forgives :
    Written ρ × RepositoryState ρ × Nat → Written ρ × RepositoryState ρ × Nat → Prop
  | same {ended : Written ρ × RepositoryState ρ × Nat} (other : ¬TellsDuplicate ended.1.outcome) :
      Forgives ended ended
  | forgiven {record : ρ} {failure : Failure} {state after : RepositoryState ρ} {next later : Nat}
      (duplicate : failure.isDuplicate = true) (store : after.store = state.store) :
      Forgives (⟨.error failure, record⟩, state, next) (⟨.ok (), record⟩, after, later)

omit [Record ρ] in
theorem Forgives.report {strict lenient : Written ρ × RepositoryState ρ × Nat}
    (forgives : Forgives strict lenient) :
    lenient.2.1.store = strict.2.1.store ∧ lenient.1.record = strict.1.record ∧
      (¬TellsDuplicate strict.1.outcome → lenient.1.outcome = strict.1.outcome) ∧
      (TellsDuplicate strict.1.outcome → lenient.1.outcome = .ok ()) := by
  cases forgives with
  | same other => exact ⟨rfl, rfl, fun _ => rfl, fun told => absurd told other⟩
  | @forgiven _ failure _ _ _ _ duplicate store =>
      exact ⟨store, rfl, fun untold => absurd ⟨failure, rfl, duplicate⟩ untold, fun _ => rfl⟩

omit [Record ρ] in
theorem forgives_finishWrite (repository : Repository) (id : Option RecordId) (record : ρ)
    (outcome : Except Failure Unit) (clock : Nat → Moment) (step : Nat)
    (state : RepositoryState ρ) :
    Forgives ((repository.finishWrite .strict id record outcome).runOn clock step state)
      ((repository.finishWrite .ignore id record outcome).runOn clock step state) := by
  cases outcome with
  | ok answer =>
      refine .same ?_
      rintro ⟨_, impossible, _⟩
      cases impossible
  | error failure =>
      cases duplicate : failure.isDuplicate with
      | true =>
          simp only [finishWrite, settle, duplicate, and_self, ↓reduceIte]
          exact .forgiven duplicate (store_invalidateRecord repository id (clock step) state)
      | false =>
          simp only [finishWrite, settle, duplicate, Bool.false_eq_true, and_false, ↓reduceIte]
          refine .same ?_
          rintro ⟨other, same, told⟩
          obtain rfl : failure = other := Except.error.inj same
          rw [duplicate] at told
          cases told

theorem forgives_createWith (repository : Repository) (record : ρ) (clock : Nat → Moment)
    (step : Nat) (state : RepositoryState ρ) :
    Forgives ((repository.create record).runOn clock step state)
        ((repository.createIgnoringDuplicate record).runOn clock step state) ∨
      ∃ failure, Record.givenId? record = none ∧
        Record.withId record (clock step).freshId = .error failure ∧
        (repository.create record).runOn clock step state =
          (⟨.error failure, record⟩, state, step + 1) ∧
        (repository.createIgnoringDuplicate record).runOn clock step state =
          (⟨.error failure, record⟩, state, step + 1) := by
  by_cases stored : repository.hasStore = true
  · simp only [create, createIgnoringDuplicate, createWith, needingStore, stored, ↓reduceIte,
      Activity.runOn]
    cases stamps : stampNew record (clock step) with
    | ok result =>
        refine Or.inl ?_
        simp only [write, Activity.runOn_bind]
        exact forgives_finishWrite ..
    | error failure =>
        obtain ⟨unnamed, refused⟩ := refuses_of_stampNew stamps
        exact Or.inr ⟨failure, unnamed, refused, rfl, rfl⟩
  · simp only [create, createIgnoringDuplicate, createWith, needingStore, stored]
    refine Or.inl (.same ?_)
    rintro ⟨failure, same, duplicate⟩
    obtain rfl := Except.error.inj same
    cases duplicate

/-! Duplicates of named records -/

section Duplicates

variable [FaithfulRecord ρ] {record : ρ}

def Collides (rows : Rows) (record : ρ) : Prop :=
  (∃ id, Record.givenId? record = some id ∧ rows.contains id = true) ∨
    rows.NameTaken (Record.givenId? record) (NamedRecord.name record)

theorem collides_iff_of_stampNew {rows : Rows} {moment : Moment} {id : RecordId} {stamped : ρ}
    (new : rows[moment.freshId]? = none) (stamps : stampNew record moment = .ok (id, stamped)) :
    Collides rows record ↔
      rows.contains id = true ∨ rows.NameTaken (some id) (NamedRecord.name record) := by
  rw [Collides]
  cases given : Record.givenId? record with
  | some known =>
      obtain rfl : id = known := by simpa [given] using id_eq_of_stampNew stamps
      simp
  | none =>
      obtain rfl := id_of_stampNew given stamps
      have absent : rows.contains moment.freshId = false := by
        rw [Std.TreeMap.contains_eq_isSome_getElem?, new]
        rfl
      rw [Rows.nameTaken_of_missing new]
      simp [absent]

theorem tellsDuplicate_create_iff (record : ρ) (stored : repository.hasStore = true)
    (calm : state.store.faults = []) (timely : repository.Timely state.store)
    (named : state.store.rows.Named) (fresh : (clock step).freshId.isEmpty = false)
    (new : state.store.rows[(clock step).freshId]? = none) :
    TellsDuplicate ((repository.create record).runOn clock step state).1.outcome ↔
      Collides state.store.rows record := by
  obtain ⟨id, stamped, stamps, _, name, _⟩ := stampNew_ok record (clock step)
  have required := Rows.requireId_eq_ok.mpr (givenId?_of_stampNew fresh stamps)
  obtain ⟨row, shown⟩ := FaithfulRecord.toRow_ok stamped
  obtain ⟨after, next, ran, _⟩ := runOn_createWith stored calm timely .strict stamps
  rw [collides_iff_of_stampNew new stamps, ← name, ← named.create_duplicate_iff required shown,
    create, ran]
  cases state.store.rows.create stamped with
  | error failure => simp [TellsDuplicate, Except.map, settle_strict]
  | ok changed => simp [TellsDuplicate, Except.map, settle_strict]

theorem deadline_create (record : ρ) (clock : Nat → Moment) (step : Nat)
    (stored : repository.hasStore = true) (late : Late repository.queryTimeout state.store) :
    ((repository.create record).runOn clock step state).1.outcome =
      .error (deadlineExceeded ρ "create" repository.queryTimeout) := by
  obtain ⟨id, stamped, stamps, _⟩ := stampNew_ok record (clock step)
  rw [create, createWith, needingStore, if_pos stored, Activity.runOn]
  simp only [stamps]
  exact runOn_write_late late ..

theorem rows_of_collision (stored : repository.hasStore = true)
    (calm : state.store.faults = []) (named : state.store.rows.Named)
    (fresh : (clock step).freshId.isEmpty = false)
    (new : state.store.rows[(clock step).freshId]? = none)
    (collides : Collides state.store.rows record) :
    ((repository.create record).runOn clock step state).2.1.store.rows = state.store.rows := by
  have fails : Fails ((repository.create record).runOn clock step state).1.outcome := by
    by_cases late : Late repository.queryTimeout state.store
    · rw [deadline_create record clock step stored late]
      exact Option.some_ne_none _
    · obtain ⟨failure, told, _⟩ := (tellsDuplicate_create_iff record stored calm
        (soon_of_not_late late) named fresh new).mpr collides
      rw [told]
      exact Option.some_ne_none _
  exact (spares_createWith .strict record clock step state fails).rows

/-- What a strict create tells, and the rows that it leaves, by the rows that it finds. -/
structure TellsByRows (repository : Repository) (record : ρ) (before after : RepositoryState ρ)
    (outcome : Except Failure Unit) : Prop where
  duplicate : ¬Late repository.queryTimeout before.store →
    (TellsDuplicate outcome ↔ Collides before.store.rows record)
  late : Late repository.queryTimeout before.store →
    outcome = .error (deadlineExceeded ρ "create" repository.queryTimeout)
  unchanged : Collides before.store.rows record → after.store.rows = before.store.rows
  single : before.store.rows.NameTaken (Record.givenId? record) (NamedRecord.name record) →
    ∃ row, after.store.rows.matching
      (.equals "name" (.string (NamedRecord.name record))) = [row]

theorem tellsByRows_create (record : ρ) (stored : repository.hasStore = true)
    (calm : state.store.faults = []) (named : state.store.rows.Named)
    (fresh : (clock step).freshId.isEmpty = false)
    (new : state.store.rows[(clock step).freshId]? = none) :
    TellsByRows repository record state
      ((repository.create record).runOn clock step state).2.1
      ((repository.create record).runOn clock step state).1.outcome where
  duplicate late :=
    tellsDuplicate_create_iff record stored calm (soon_of_not_late late) named fresh new
  late late := deadline_create record clock step stored late
  unchanged collides := rows_of_collision stored calm named fresh new collides
  single taken := by
    rw [rows_of_collision stored calm named fresh new (Or.inr taken)]
    obtain ⟨other, row, _, found, shows⟩ := taken
    exact ⟨row, named.matching_name found shows⟩

end Duplicates

/--
Run from one state with one clock, a strict create and one that ignores duplicates leave the same
store and the same record. They report the same, except that a duplicate counts as a success to the
second, unless it is the record itself that refused its identity, as no named record does. Without
pending failures a strict create of a named record tells a duplicate if and only if the record
collides with a row; then the rows stay, and just one of them shows the name if that was taken.
-/
theorem create_policies_agree (repository : Repository) (clock : Nat → Moment) (step : Nat)
    (before : RepositoryState ρ) (record : ρ) {strict lenient : Written ρ}
    {after permitted : RepositoryState ρ} {next later : Nat}
    (created : (repository.create record).runOn clock step before = (strict, after, next))
    (ignored : (repository.createIgnoringDuplicate record).runOn clock step before =
      (lenient, permitted, later)) :
    permitted.store = after.store ∧ lenient.record = strict.record ∧
      (¬TellsDuplicate strict.outcome → lenient.outcome = strict.outcome) ∧
      (TellsDuplicate strict.outcome → lenient.outcome = .ok () ∨
        ∃ failure, Record.givenId? record = none ∧
          Record.withId record (clock step).freshId = .error failure ∧
          lenient.outcome = .error failure) ∧
      ∀ [FaithfulRecord ρ], (TellsDuplicate strict.outcome → lenient.outcome = .ok ()) ∧
        (repository.hasStore = true → before.store.faults = [] → Rows.Made ρ before.store.rows →
          (clock step).freshId.isEmpty = false →
          before.store.rows[(clock step).freshId]? = none →
          TellsByRows repository record before after strict.outcome) := by
  have outcomes := forgives_createWith repository record clock step before
  rw [created, ignored] at outcomes
  rcases outcomes with forgives | ⟨failure, unnamed, refused, same, again⟩
  · obtain ⟨store, left, agrees, excuses⟩ := forgives.report
    refine ⟨store, left, agrees, fun told => Or.inl (excuses told), fun {_} => ⟨excuses, ?_⟩⟩
    intro stored calm made fresh new
    have tells := tellsByRows_create record stored calm made.named fresh new
    rwa [created] at tells
  · obtain ⟨rfl, rfl, _⟩ := same
    obtain ⟨rfl, rfl, _⟩ := again
    refine ⟨rfl, rfl, fun _ => rfl, fun _ => Or.inr ⟨failure, unnamed, refused, rfl⟩, fun {_} => ?_⟩
    -- A named record takes every identity.
    obtain ⟨given, made, _⟩ := FaithfulRecord.withId_ok record (clock step).freshId
    rw [made] at refused
    cases refused

def departed : Account := MemoryStore.accountOf "a" "ada" (some ⟨2024, 1, 1, 0, 0, 0, 0⟩)

def departedRows : Rows := (Std.TreeMap.empty : Rows).insert ⟨"a"⟩ departed.toRow

def afterDeparture : RepositoryState Account :=
  ⟨.single ⟨8, .empty, .empty, .zero⟩, .empty, ⟨departedRows, .zero, [], none⟩⟩

theorem create_policies_agree_departed :
    ∃ (strict lenient : Written Account) (after permitted : RepositoryState Account)
      (next later : Nat) (row : Row),
      (standard.create (.named "ada")).runOn ticking 0 afterDeparture = (strict, after, next) ∧
      (standard.createIgnoringDuplicate (.named "ada")).runOn ticking 0 afterDeparture =
        (lenient, permitted, later) ∧
      TellsDuplicate strict.outcome ∧ lenient.outcome = .ok () ∧ permitted.store = after.store ∧
      after.store.rows = departedRows ∧
      after.store.rows.matching (.equals "name" (.string "ada")) = [row] := by
  let one := (standard.create (.named "ada")).runOn ticking 0 afterDeparture
  let other := (standard.createIgnoringDuplicate (.named "ada")).runOn ticking 0 afterDeparture
  have made : Rows.Made Account departedRows := .create .empty departed rfl
  have found : departedRows[(⟨"a"⟩ : RecordId)]? = some departed.toRow :=
    Std.TreeMap.getElem?_insert_self
  have shows : departed.toRow.get "name" = .string (NamedRecord.name departed) :=
    NamedRecord.toRow_name rfl
  have taken : departedRows.NameTaken none "ada" :=
    ⟨⟨"a"⟩, departed.toRow, by simp, found, shows⟩
  have timely : ¬Late standard.queryTimeout afterDeparture.store := by
    rintro ⟨latency, same, _⟩
    cases same
  have new : departedRows[(ticking 0).freshId]? = none :=
    Option.isNone_iff_eq_none.mp (by decide +kernel)
  have whole : ∀ ended : Written Account × RepositoryState Account × Nat,
      ended = (ended.1, ended.2.1, ended.2.2) := fun _ => rfl
  obtain ⟨store, _, _, _, named⟩ := create_policies_agree standard ticking 0 afterDeparture
    (.named "ada") (whole one) (whole other)
  obtain ⟨permits, told⟩ := named
  have tells := told rfl rfl made rfl new
  have duplicate := (tells.duplicate timely).mpr (Or.inr taken)
  obtain ⟨row, shown⟩ := tells.single taken
  exact ⟨one.1, other.1, one.2.1, other.2.1, one.2.2, other.2.2, row, rfl, rfl, duplicate,
    permits duplicate, store, tells.unchanged (Or.inr taken), shown⟩

end Repository

end CachedStore
