import CachedStore.Proofs.Record.Readable
import CachedStore.Proofs.Repository.Conduct
import CachedStore.Proofs.Store.FaithfulRows

/-!
What every history of calls keeps of a store: each row stands under the identity that it shows and
tells a whole record, and no two rows have one natural key. Reads of such rows fail only if there is
nothing to read.
-/

namespace CachedStore

namespace Rows

variable {ρ : Type} [Record ρ] {rows changed : Rows}

structure Represents (ρ : Type) [Record ρ] (rows : Rows) : Prop where
  shown : ∀ {id : RecordId} {row : Row}, rows[id]? = some row →
    id.isEmpty = false ∧ row.get "id" = .string id.text
  decoded : ∀ {id : RecordId} {row : Row}, rows[id]? = some row →
    ∃ record : ρ, Record.ofRow row = .ok record ∧ Record.toRow record = .ok row
  apart : ∀ {id other : RecordId} {row another : Row} {record held : ρ},
    rows[id]? = some row → rows[other]? = some another →
    Record.ofRow row = .ok record → Record.ofRow another = .ok held →
    Record.naturalKey record = Record.naturalKey held → id = other

/-- Rows as the writes of valid records leave them. -/
structure WellFormed (ρ : Type) [Record ρ] [FaithfulRecord ρ] (rows : Rows) : Prop where
  named : rows.Named
  faithful : rows.Faithful ρ
  given : ∀ {id : RecordId} {row : Row}, rows[id]? = some row → id.isEmpty = false

/-! Writes -/

theorem isEmpty_of_requireId {record : ρ} {id : RecordId}
    (required : requireId record = .ok id) : id.isEmpty = false := by
  have given := requireId_eq_ok.mp required
  rw [Record.givenId?, Option.filter_eq_some_iff] at given
  simpa using given.2

section Writes

variable [FaithfulRecord ρ]

theorem wellFormed_empty : WellFormed ρ .empty where
  named := named_empty
  faithful := faithful_empty
  given stored := by simp at stored

theorem WellFormed.given_insert (kept : WellFormed ρ rows) {record : ρ} {id other : RecordId}
    {row another : Row} (required : requireId record = .ok id)
    (found : (rows.insert id row)[other]? = some another) : other.isEmpty = false := by
  rcases getElem?_insert_cases found with ⟨rfl, _⟩ | ⟨_, before⟩
  · exact isEmpty_of_requireId required
  · exact kept.given before

theorem WellFormed.create (kept : WellFormed ρ rows) {record : ρ}
    (valid : (FaithfulRecord.metadata record).IsValid)
    (created : rows.create record = .ok changed) : WellFormed ρ changed := by
  obtain ⟨id, row, required, _, _, _, inserted⟩ := create_eq_ok created
  refine ⟨kept.named.create created, ?_, ?_⟩
  · exact (kept.faithful.create valid created (id?_of_requireId required)).2
  · exact fun found => kept.given_insert required (inserted ▸ found)

theorem WellFormed.update (kept : WellFormed ρ rows) {record : ρ}
    (valid : (FaithfulRecord.metadata record).IsValid)
    (updated : rows.update record = .ok changed) : WellFormed ρ changed := by
  obtain ⟨id, row, required, _, _, inserted⟩ := update_eq_ok updated
  refine ⟨kept.named.update updated, ?_, ?_⟩
  · exact (kept.faithful.update valid updated (id?_of_requireId required)).2
  · exact fun found => kept.given_insert required (inserted ▸ found)

theorem WellFormed.delete (kept : WellFormed ρ rows) {record : ρ}
    (deleted : rows.delete record = .ok changed) : WellFormed ρ changed := by
  obtain ⟨id, required, erased⟩ := delete_eq_ok deleted
  refine ⟨kept.named.delete deleted, kept.faithful.delete deleted, ?_⟩
  intro other another found
  rw [erased] at found
  by_cases same : other = id
  · exact same ▸ isEmpty_of_requireId required
  · exact kept.given ((getElem?_erase_of_ne rows same).symm.trans found)

theorem Faithful.decodes (faithful : rows.Faithful ρ) {id : RecordId} {row : Row}
    (stored : rows[id]? = some row) :
    ∃ record : ρ, Record.ofRow row = .ok record ∧ Record.toRow record = .ok row := by
  obtain ⟨record, valid, _, other, found, shown⟩ := faithful id row stored
  obtain rfl := Option.some.inj (stored.symm.trans found)
  exact ⟨record, FaithfulRecord.ofRow_toRow valid shown, shown⟩

theorem WellFormed.represents (kept : WellFormed ρ rows) : Represents ρ rows where
  shown stored := ⟨kept.given stored, kept.named.id stored⟩
  decoded stored := kept.faithful.decodes stored
  apart {id other row another record held} stored found read readBack same := by
    -- The key of a record is its name, which its row shows.
    have shows : ∀ {place : RecordId} {standing : Row} {record : ρ}, rows[place]? = some standing →
        Record.ofRow standing = .ok record →
        standing.get "name" = .string (NamedRecord.name record) := by
      intro place standing record present given
      obtain ⟨whole, decoded, shown⟩ := kept.faithful.decodes present
      obtain rfl := Except.ok.inj (decoded.symm.trans given)
      exact NamedRecord.toRow_name shown
    rw [NamedRecord.naturalKey_eq, NamedRecord.naturalKey_eq] at same
    have name : NamedRecord.name record = NamedRecord.name held := by
      simpa [Filter.equals] using same
    exact kept.named.unique stored found (shows stored read) (name ▸ shows found readBack)

end Writes

/-! Reads -/

section Reads

variable [ReadableRecord ρ]

theorem readable_toRow {record : ρ} {row : Row}
    (valid : (FaithfulRecord.metadata record).IsValid) (shown : Record.toRow record = .ok row) :
    row.Readable ρ := ⟨record, FaithfulRecord.ofRow_toRow valid shown⟩

theorem populate_ok {target : ρ} {row : Row} (valid : (FaithfulRecord.metadata target).IsValid)
    (sorted : row.Sorted) (mixed : row.MixedFrom (Row.Readable ρ)) :
    ∃ record, populate target row = .ok record := by
  obtain ⟨base, shown⟩ := FaithfulRecord.toRow_ok target
  obtain ⟨record, read⟩ := ReadableRecord.readable_mixed
    (Row.mixedFrom_overlay sorted (ReadableRecord.readable_mixed mixed)
      (readable_toRow valid shown))
  refine ⟨record, ?_⟩
  rw [populate, shown]
  exact read

omit [ReadableRecord ρ] in
theorem isLive_ok {row : Row} (readable : row.Readable ρ) :
    ∃ live, isLive ρ row = .ok live := by
  obtain ⟨record, read⟩ := readable
  refine ⟨!Record.isDeleted record, ?_⟩
  rw [isLive, read]
  rfl

omit [ReadableRecord ρ] in
theorem firstLive_ok {listed : List Row} (readable : ∀ row ∈ listed, row.Readable ρ) :
    ∃ found, firstLive ρ listed = .ok found := by
  induction listed with
  | nil => exact ⟨none, rfl⟩
  | cons row rest ih =>
      obtain ⟨live, alive⟩ := isLive_ok (readable row List.mem_cons_self)
      obtain ⟨found, others⟩ := ih fun other member =>
        readable other (List.mem_cons_of_mem _ member)
      rw [firstLive, alive]
      cases live with
      | true => exact ⟨some row, rfl⟩
      | false => exact ⟨found, others⟩

omit [ReadableRecord ρ] in
theorem liveRows_ok {listed : List Row} (readable : ∀ row ∈ listed, row.Readable ρ) :
    ∃ live, liveRows ρ listed = .ok live ∧ live ⊆ listed := by
  induction listed with
  | nil => exact ⟨[], rfl, List.Subset.refl _⟩
  | cons row rest ih =>
      obtain ⟨live, alive⟩ := isLive_ok (readable row List.mem_cons_self)
      obtain ⟨others, given, within⟩ := ih fun other member =>
        readable other (List.mem_cons_of_mem _ member)
      rw [liveRows, alive, given]
      cases live with
      | true => exact ⟨row :: others, rfl, List.cons_subset_cons row within⟩
      | false => exact ⟨others, rfl, List.subset_cons_of_subset row within⟩

omit [ReadableRecord ρ] in
theorem select_ok (query : Query) (readable : ∀ row ∈ contents rows, row.Readable ρ) :
    ∃ selected, select ρ rows query = .ok selected ∧ selected ⊆ contents rows := by
  have within : rows.matching query.filter ⊆ contents rows := List.filter_subset_self _
  obtain ⟨live, given, alive⟩ := liveRows_ok fun row member => readable row (within member)
  rw [select, given]
  refine ⟨_, rfl, ?_⟩
  have sorted : (query.order.elim live fun order => order.sort live) ⊆ live := by
    cases query.order with
    | none => exact List.Subset.refl _
    | some order => exact fun row member => List.mem_mergeSort.mp member
  refine List.Subset.trans ?_ (List.Subset.trans sorted (List.Subset.trans alive within))
  cases query.effectiveLimit with
  | none => exact List.Subset.refl _
  | some limit => exact List.take_subset limit _

theorem mapM_eq_ok_iff {α β : Type} {listed : List α} {read : α → Except Failure β}
    {values : List β} :
    listed.mapM read = .ok values ↔
      List.Forall₂ (fun item value => read item = .ok value) listed values := by
  induction listed generalizing values with
  | nil =>
      rw [List.mapM_nil, List.forall₂_nil_left_iff]
      exact ⟨fun same => (Except.ok.inj same).symm, fun same => same ▸ rfl⟩
  | cons item rest ih =>
      rw [List.mapM_cons, bind_eq_ok, List.forall₂_cons_left_iff]
      refine exists_congr fun value => ?_
      rw [bind_eq_ok, exists_and_left]
      refine and_congr_right fun _ => exists_congr fun others => ?_
      rw [ih]
      exact and_congr_right fun _ => ⟨fun same => (Except.ok.inj same).symm, fun same => same ▸ rfl⟩

theorem mapM_ok_forall₂ {α β : Type} {listed : List α} {read : α → Except Failure β}
    {gives : α → β → Prop}
    (reads : ∀ item ∈ listed, ∃ value, read item = .ok value ∧ gives item value) :
    ∃ values, listed.mapM read = .ok values ∧ List.Forall₂ gives listed values := by
  induction listed with
  | nil => exact ⟨[], rfl, .nil⟩
  | cons item rest ih =>
      obtain ⟨value, given, first⟩ := reads item List.mem_cons_self
      obtain ⟨values, others, later⟩ := ih fun other member =>
        reads other (List.mem_cons_of_mem _ member)
      rw [List.mapM_cons, given, others]
      exact ⟨value :: values, rfl, .cons first later⟩

theorem mapM_ok_forall {α β : Type} {listed : List α} {read : α → Except Failure β}
    {gives : β → Prop} (reads : ∀ item ∈ listed, ∃ value, read item = .ok value ∧ gives value) :
    ∃ values, listed.mapM read = .ok values ∧ ∀ value ∈ values, gives value := by
  obtain ⟨values, given, all⟩ := mapM_ok_forall₂ reads
  refine ⟨values, given, ?_⟩
  clear given reads
  induction all with
  | nil => exact fun _ none => (by cases none)
  | cons first _ later => exact List.forall_mem_cons.mpr ⟨first, later⟩

theorem mapM_ok {α β : Type} {listed : List α} {read : α → Except Failure β}
    (reads : ∀ item ∈ listed, ∃ value, read item = .ok value) :
    ∃ values, listed.mapM read = .ok values := by
  have given : ∀ item ∈ listed, ∃ value, read item = .ok value ∧ True := fun item member =>
    (reads item member).imp fun _ same => ⟨same, trivial⟩
  exact (mapM_ok_forall given).imp fun _ values => values.1

theorem Faithful.readable (faithful : rows.Faithful ρ) {row : Row} (member : row ∈ contents rows) :
    row.Readable ρ := by
  obtain ⟨⟨id, _⟩, listed, rfl⟩ := List.mem_map.mp member
  have stored := Std.TreeMap.mem_toList_iff_getElem?_eq_some.mp listed
  obtain ⟨record, read, _⟩ := faithful.decodes stored
  exact ⟨record, read⟩

namespace WellFormed

theorem readable (kept : WellFormed ρ rows) {row : Row} (member : row ∈ contents rows) :
    row.Sorted ∧ row.Readable ρ := by
  refine ⟨?_, kept.faithful.readable member⟩
  obtain ⟨⟨id, _⟩, listed, rfl⟩ := List.mem_map.mp member
  exact kept.named.sorted (Std.TreeMap.mem_toList_iff_getElem?_eq_some.mp listed)

theorem populate_ok (kept : WellFormed ρ rows) {target : ρ} {row : Row}
    (valid : (FaithfulRecord.metadata target).IsValid) (member : row ∈ contents rows) :
    ∃ record, populate target row = .ok record :=
  have ⟨sorted, readable⟩ := kept.readable member
  Rows.populate_ok valid sorted fun _ => Or.inr ⟨row, readable, rfl⟩

theorem readByKey (kept : WellFormed ρ rows) {target : ρ}
    (valid : (FaithfulRecord.metadata target).IsValid) (id : RecordId) :
    (∃ record, rows.readByKey target id = .ok record) ∨
      rows.readByKey target id = .error (Record.unknownId ρ id) := by
  rw [Rows.readByKey]
  cases stored : rows[id]? with
  | none => exact Or.inr rfl
  | some row =>
      have member : row ∈ contents rows := List.mem_map.mpr
        ⟨(id, row), Std.TreeMap.mem_toList_iff_getElem?_eq_some.mpr stored, rfl⟩
      obtain ⟨live, alive⟩ := isLive_ok (kept.readable member).2
      simp only [alive]
      cases live with
      | true => exact Or.inl (kept.populate_ok valid member)
      | false => exact Or.inr rfl

theorem findOne (kept : WellFormed ρ rows) {target : ρ}
    (valid : (FaithfulRecord.metadata target).IsValid) (filter : Filter) :
    (∃ record, rows.findOne target filter = .ok record) ∨
      rows.findOne target filter = .error (Record.noMatch ρ filter) := by
  have within : rows.matching filter ⊆ contents rows := List.filter_subset_self _
  obtain ⟨first, found⟩ := firstLive_ok fun row member => (kept.readable (within member)).2
  rw [Rows.findOne, found]
  cases first with
  | none => exact Or.inr rfl
  | some row => exact Or.inl (kept.populate_ok valid (within (of_firstLive found).1))

theorem find (kept : WellFormed ρ rows) (target : List ρ) (query : Query) :
    ∃ records, rows.find target query = .ok records := by
  obtain ⟨selected, chosen, within⟩ := select_ok query fun row member => (kept.readable member).2
  have projected : ∀ row ∈ selected,
      ∃ record, populate (Record.blank : ρ) (query.project row) = .ok record := by
    intro row member
    obtain ⟨sorted, readable⟩ := kept.readable (within member)
    exact Rows.populate_ok ReadableRecord.blank_valid (query.sorted_project sorted)
      (query.mixedFrom_project readable)
  obtain ⟨found, populated⟩ := mapM_ok projected
  rw [Rows.find, chosen]
  refine ⟨target ++ found, ?_⟩
  change (do
    let found ← selected.mapM fun row => populate (Record.blank : ρ) (query.project row)
    return target ++ found) = _
  rw [populated]
  rfl

theorem records (kept : WellFormed ρ rows) : ∃ records, Rows.records ρ rows = .ok records :=
  mapM_ok fun _ member => (kept.readable member).2

end WellFormed

end Reads

end Rows

end CachedStore
