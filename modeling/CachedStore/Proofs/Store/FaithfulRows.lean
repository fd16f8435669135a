import CachedStore.Proofs.Record.Faithful
import CachedStore.Proofs.Store.NamedRows

/-!
Rows that are the whole of their records: what the reads give is what the writes were given.
-/

namespace CachedStore

theorem Record.isDeleted_eq {ρ : Type} [Record ρ] [FaithfulRecord ρ] (record : ρ) :
    Record.isDeleted record = (FaithfulRecord.metadata record).deletedAt.isSome := by
  rw [Record.isDeleted, FaithfulRecord.deletedAt?_eq]

namespace Repository

variable {ρ : Type} [Record ρ] [FaithfulRecord ρ]

theorem ensureId_ok (record : ρ) (fresh : RecordId) :
    ∃ id given, Record.ensureId record fresh = .ok (id, given) ∧
      NamedRecord.name given = NamedRecord.name record ∧
      FaithfulRecord.metadata given = FaithfulRecord.metadata record := by
  unfold Record.ensureId
  cases Record.givenId? record with
  | some id => exact ⟨id, record, rfl, rfl, rfl⟩
  | none =>
      obtain ⟨given, made, name, metadata⟩ := FaithfulRecord.withId_ok record fresh
      exact ⟨fresh, given, by rw [made]; rfl, name, metadata⟩

theorem stampNew_ok (record : ρ) (moment : Moment) :
    ∃ id stamped, stampNew record moment = .ok (id, stamped) ∧ Record.id? stamped = some id ∧
      NamedRecord.name stamped = NamedRecord.name record ∧
      FaithfulRecord.metadata stamped =
        { FaithfulRecord.metadata record with createdAt := some moment.time } := by
  obtain ⟨id, given, ensured, name, metadata⟩ := ensureId_ok record moment.freshId
  have stamps : stampNew record moment = .ok (id, Record.touchCreated given moment.time) := by
    rw [stampNew, ensured]
    rfl
  refine ⟨id, _, stamps, id?_of_stampNew stamps, ?_, ?_⟩
  · rw [FaithfulRecord.name_touchCreated, name]
  · rw [FaithfulRecord.metadata_touchCreated, metadata]

omit [FaithfulRecord ρ] in
theorem id_of_stampNew {record stamped : ρ} {moment : Moment} {id : RecordId}
    (unnamed : Record.givenId? record = none)
    (stamps : stampNew record moment = .ok (id, stamped)) : id = moment.freshId := by
  simp only [stampNew, Record.ensureId, unnamed] at stamps
  cases given : Record.withId record moment.freshId with
  | error failure => simp [given, Except.map] at stamps
  | ok named =>
      simp only [given, Except.map, Except.ok.injEq, Prod.mk.injEq] at stamps
      exact stamps.1.symm

omit [FaithfulRecord ρ] in
theorem id_eq_of_stampNew {record stamped : ρ} {moment : Moment} {id : RecordId}
    (stamps : stampNew record moment = .ok (id, stamped)) :
    id = (Record.givenId? record).getD moment.freshId := by
  cases given : Record.givenId? record with
  | none => exact id_of_stampNew given stamps
  | some known =>
      simp only [stampNew, Record.ensureId, given, Except.map, Except.ok.injEq,
        Prod.mk.injEq] at stamps
      exact stamps.1.symm

theorem givenId?_of_stampNew {record stamped : ρ} {moment : Moment} {id : RecordId}
    (fresh : moment.freshId.isEmpty = false)
    (stamps : stampNew record moment = .ok (id, stamped)) : Record.givenId? stamped = some id := by
  have written : id.isEmpty = false := by
    rw [id_eq_of_stampNew stamps]
    cases given : Record.givenId? record with
    | none => exact fresh
    | some known => simpa using (Option.filter_eq_some_iff.mp given).2
  exact Option.filter_eq_some_iff.mpr ⟨id?_of_stampNew stamps, by simp [written]⟩

end Repository

namespace Rows

variable {ρ : Type} [Record ρ] [FaithfulRecord ρ] {rows changed : Rows} {id : RecordId}
  {record : ρ}

structure Holds (rows : Rows) (id : RecordId) (record : ρ) : Prop where
  valid : (FaithfulRecord.metadata record).IsValid
  own : Record.id? record = some id
  stored : ∃ row, rows[id]? = some row ∧ Record.toRow record = .ok row

def Faithful (ρ : Type) [Record ρ] [FaithfulRecord ρ] (rows : Rows) : Prop :=
  ∀ id row, rows[id]? = some row → ∃ record : ρ, rows.Holds id record

/-! Reads -/

theorem isLive_of_toRow {row : Row} (valid : (FaithfulRecord.metadata record).IsValid)
    (shown : Record.toRow record = .ok row) : isLive ρ row = .ok (!Record.isDeleted record) := by
  rw [isLive, FaithfulRecord.ofRow_toRow valid shown]
  rfl

theorem Holds.readByKey (holds : rows.Holds id record) (live : Record.isDeleted record = false) :
    rows.readByKey Record.blank id = .ok record := by
  obtain ⟨row, stored, shown⟩ := holds.stored
  have alive : isLive ρ row = .ok true := by
    rw [isLive_of_toRow holds.valid shown, live]
    rfl
  rw [Rows.readByKey, stored]
  simp only [alive]
  exact FaithfulRecord.populate_toRow holds.valid shown

theorem readByKey_of_deleted (holds : rows.Holds id record)
    (deleted : Record.isDeleted record = true) :
    rows.readByKey (Record.blank : ρ) id = .error (Record.unknownId ρ id) := by
  obtain ⟨row, stored, shown⟩ := holds.stored
  have dead : isLive ρ row = .ok false := by
    rw [isLive_of_toRow holds.valid shown, deleted]
    rfl
  rw [Rows.readByKey, stored]
  simp only [dead]
  rfl

theorem Holds.unique {other : ρ} (holds : rows.Holds id record) (again : rows.Holds id other) :
    record = other := by
  obtain ⟨row, stored, shown⟩ := holds.stored
  obtain ⟨another, present, written⟩ := again.stored
  obtain rfl := Option.some.inj (stored.symm.trans present)
  have one := FaithfulRecord.ofRow_toRow holds.valid shown
  have two := FaithfulRecord.ofRow_toRow again.valid written
  exact Except.ok.inj (one.symm.trans two)

theorem Faithful.of_readByKey (faithful : Faithful ρ rows)
    (read : rows.readByKey Record.blank id = .ok record) :
    rows.Holds id record ∧ Record.isDeleted record = false := by
  cases stored : rows[id]? with
  | none =>
      rw [Rows.readByKey, stored] at read
      cases read
  | some row =>
      obtain ⟨held, holds⟩ := faithful id row stored
      cases deleted : Record.isDeleted held with
      | true =>
          rw [readByKey_of_deleted holds deleted] at read
          cases read
      | false =>
          rw [holds.readByKey deleted] at read
          obtain rfl := Except.ok.inj read
          exact ⟨holds, deleted⟩

theorem Faithful.of_findOne (faithful : Faithful ρ rows) {filter : Filter}
    (read : rows.findOne Record.blank filter = .ok record) :
    ∃ id, rows.Holds id record ∧ Record.isDeleted record = false := by
  obtain ⟨first, found, read⟩ := bind_eq_ok.mp read
  cases first with
  | none => cases read
  | some row =>
      obtain ⟨member, _⟩ := List.mem_filter.mp (of_firstLive found).1
      obtain ⟨⟨id, _⟩, listed, rfl⟩ := List.mem_map.mp member
      have present := Std.TreeMap.mem_toList_iff_getElem?_eq_some.mp listed
      obtain ⟨held, holds⟩ := faithful id _ present
      obtain ⟨other, stored, shown⟩ := holds.stored
      obtain rfl := Option.some.inj (present.symm.trans stored)
      obtain rfl : held = record := Except.ok.inj
        ((FaithfulRecord.populate_toRow holds.valid shown).symm.trans read)
      refine ⟨id, holds, ?_⟩
      have alive := (of_firstLive found).2
      rw [isLive_of_toRow holds.valid shown] at alive
      simpa using Except.ok.inj alive

theorem Holds.findOne_name (holds : rows.Holds id record) (named : rows.Named) :
    rows.findOne Record.blank (.equals "name" (.string (NamedRecord.name record))) =
      if Record.isDeleted record then
        .error (Record.noMatch ρ (.equals "name" (.string (NamedRecord.name record))))
      else .ok record := by
  obtain ⟨row, stored, shown⟩ := holds.stored
  have alive := isLive_of_toRow holds.valid shown
  rw [findOne, named.matching_name stored (NamedRecord.toRow_name shown), firstLive, alive]
  cases Record.isDeleted record with
  | true => rfl
  | false => exact FaithfulRecord.populate_toRow holds.valid shown

omit [FaithfulRecord ρ] in
theorem Named.findOne_unnamed (named : rows.Named) (target : ρ) {name : String}
    (unnamed : ∀ (id : RecordId) (row : Row), rows[id]? = some row →
      row.get "name" ≠ .string name) :
    rows.findOne target (.equals "name" (.string name)) =
      .error (Record.noMatch ρ (.equals "name" (.string name))) := by
  have absent : rows.matching (.equals "name" (.string name)) = [] := by
    refine matching_none fun id row stored => ?_
    by_contra accepted
    exact unnamed id row stored ((named.accepts_name_iff stored).mp (by simpa using accepted))
  rw [findOne, absent]
  rfl

theorem Named.matching_byId {row : Row} (named : rows.Named) (stored : rows[id]? = some row) :
    rows.matching (.byId id) = [row] := by
  refine matching_single stored ?_ fun other another present accepted => ?_
  · simp [Filter.accepts, Filter.byId, Filter.equals, named.id stored, Json.same]
  · simp only [Filter.accepts, Filter.byId, Filter.equals, List.all_cons, List.all_nil,
      Bool.and_true, named.id present, Json.same, beq_iff_eq] at accepted
    obtain ⟨text⟩ := id
    obtain ⟨own⟩ := other
    exact congrArg RecordId.mk accepted

theorem Named.matching_byId_of_missing (named : rows.Named) (missing : rows[id]? = none) :
    rows.matching (.byId id) = [] := by
  refine matching_none fun other row present => ?_
  by_contra accepted
  simp only [Filter.accepts, Filter.byId, Filter.equals, List.all_cons, List.all_nil,
    Bool.and_true, named.id present, Json.same, beq_iff_eq, Bool.not_eq_false] at accepted
  obtain ⟨text⟩ := id
  obtain ⟨own⟩ := other
  obtain rfl : own = text := accepted
  rw [missing] at present
  cases present

theorem Faithful.find_byId (faithful : Faithful ρ rows) (named : rows.Named) (id : RecordId) :
    rows.find ([] : List ρ) { Query.all with filter := .byId id } =
      .ok (rows.readByKey Record.blank id).toOption.toList := by
  cases stored : rows[id]? with
  | none =>
      rw [Rows.readByKey, stored, Rows.find, Rows.select, named.matching_byId_of_missing stored]
      rfl
  | some row =>
      obtain ⟨record, holds⟩ := faithful id row stored
      obtain ⟨other, present, shown⟩ := holds.stored
      obtain rfl := Option.some.inj (stored.symm.trans present)
      have alive := isLive_of_toRow holds.valid shown
      have populated := FaithfulRecord.populate_toRow holds.valid shown
      rw [Rows.find, Rows.select, named.matching_byId stored]
      cases deleted : Record.isDeleted record with
      | true =>
          rw [readByKey_of_deleted holds deleted]
          simp only [liveRows, alive, deleted]
          rfl
      | false =>
          rw [holds.readByKey deleted]
          simp only [liveRows, alive, deleted]
          change (do
            let found ← [row].mapM fun row => populate (Record.blank : ρ) row
            return [] ++ found) = _
          rw [List.mapM_cons, populated]
          rfl

/-! Writes -/

theorem faithful_empty : Faithful ρ .empty := by
  intro id row stored
  simp at stored

theorem holds_insert {row : Row} (valid : (FaithfulRecord.metadata record).IsValid)
    (own : Record.id? record = some id) (shown : Record.toRow record = .ok row) :
    Holds (rows.insert id row) id record :=
  ⟨valid, own, row, Std.TreeMap.getElem?_insert_self, shown⟩

theorem Faithful.insert {row : Row} (faithful : Faithful ρ rows)
    (holds : Holds (rows.insert id row) id record) : Faithful ρ (rows.insert id row) := by
  intro other another found
  rcases getElem?_insert_cases found with ⟨rfl, rfl⟩ | ⟨_, before⟩
  · exact ⟨record, holds⟩
  · obtain ⟨held, ⟨valid, own, kept, stored, shown⟩⟩ := faithful other another before
    obtain rfl := Option.some.inj (before.symm.trans stored)
    exact ⟨held, valid, own, _, found, shown⟩

theorem Faithful.create (faithful : Faithful ρ rows)
    (valid : (FaithfulRecord.metadata record).IsValid) (created : rows.create record = .ok changed)
    (own : Record.id? record = some id) : changed.Holds id record ∧ Faithful ρ changed := by
  obtain ⟨other, row, required, shown, _, _, rfl⟩ := create_eq_ok created
  obtain rfl : id = other := Option.some.inj (own.symm.trans (id?_of_requireId required))
  have holds : Holds (rows.insert id row) id record := holds_insert valid own shown
  exact ⟨holds, faithful.insert holds⟩

theorem Faithful.update (faithful : Faithful ρ rows)
    (valid : (FaithfulRecord.metadata record).IsValid) (updated : rows.update record = .ok changed)
    (own : Record.id? record = some id) : changed.Holds id record ∧ Faithful ρ changed := by
  obtain ⟨other, row, required, shown, _, rfl⟩ := update_eq_ok updated
  obtain rfl : id = other := Option.some.inj (own.symm.trans (id?_of_requireId required))
  have holds : Holds (rows.insert id row) id record := holds_insert valid own shown
  exact ⟨holds, faithful.insert holds⟩

theorem Faithful.delete (faithful : Faithful ρ rows)
    (deleted : rows.delete record = .ok changed) : Faithful ρ changed := by
  obtain ⟨id, _, rfl⟩ := delete_eq_ok deleted
  intro other row found
  have different : other ≠ id := by
    rintro rfl
    simp at found
  have before : rows[other]? = some row := (getElem?_erase_of_ne rows different).symm.trans found
  obtain ⟨held, ⟨valid, own, kept, stored, shown⟩⟩ := faithful other row before
  obtain rfl := Option.some.inj (before.symm.trans stored)
  exact ⟨held, valid, own, _, found, shown⟩

end Rows

end CachedStore
