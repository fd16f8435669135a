import CachedStore.Proofs.Record.Lawful
import CachedStore.Proofs.Time.Reading

/-!
Records that their rows tell in full: if the times of a record are on the calendar, then what reads
make of its row is the record itself.
-/

namespace CachedStore

namespace Metadata

def IsValid (metadata : Metadata) : Prop :=
  (∀ time, metadata.createdAt = some time → time.IsValid) ∧
  (∀ time, metadata.updatedAt = some time → time.IsValid) ∧
  ∀ time, metadata.deletedAt = some time → time.IsValid

theorem isValid_none : none.IsValid := by
  simp [IsValid, none]

theorem IsValid.created {metadata : Metadata} {time : Timestamp} (valid : metadata.IsValid)
    (proper : time.IsValid) : IsValid { metadata with createdAt := some time } :=
  ⟨fun _ same => Option.some.inj same ▸ proper, valid.2⟩

theorem IsValid.updated {metadata : Metadata} {time : Timestamp} (valid : metadata.IsValid)
    (proper : time.IsValid) : IsValid { metadata with updatedAt := some time } :=
  ⟨valid.1, fun _ same => Option.some.inj same ▸ proper, valid.2.2⟩

theorem IsValid.deleted {metadata : Metadata} {time : Timestamp} (valid : metadata.IsValid)
    (proper : time.IsValid) : IsValid { metadata with deletedAt := some time } :=
  ⟨valid.1, valid.2.1, fun _ same => Option.some.inj same ▸ proper⟩

end Metadata

class FaithfulRecord (ρ : Type) [Record ρ] extends NamedRecord ρ where
  metadata : ρ → Metadata
  deletedAt?_eq : ∀ record : ρ, Record.deletedAt? record = (metadata record).deletedAt
  withId_ok : ∀ (record : ρ) (id : RecordId), ∃ given, Record.withId record id = .ok given ∧
    name given = name record ∧ metadata given = metadata record
  name_touchCreated : ∀ (record : ρ) (time : Timestamp),
    name (Record.touchCreated record time) = name record
  metadata_touchCreated : ∀ (record : ρ) (time : Timestamp),
    metadata (Record.touchCreated record time) =
      { metadata record with createdAt := some time }
  toRow_ok : ∀ record : ρ, ∃ row, Record.toRow record = .ok row
  ofRow_toRow : ∀ {record : ρ} {row : Row}, (metadata record).IsValid →
    Record.toRow record = .ok row → Record.ofRow row = .ok record
  populate_toRow : ∀ {record : ρ} {row : Row}, (metadata record).IsValid →
    Record.toRow record = .ok row → Rows.populate Record.blank row = .ok record

/-! Columns -/

namespace Row

theorem get?_overlay_covering {base row : Row} (sorted : row.Sorted)
    (covers : ∀ name, row.get? name = none → base.get? name = none) (name : String) :
    (base.overlay row).get? name = row.get? name := by
  rw [get?_overlay sorted]
  cases found : row.get? name with
  | none => rw [covers name found, Option.or_none]
  | some value => rw [Option.some_or]

theorem optional_of_get? {β : Type} {row : Row} {name : String} {read : Json → Option β}
    {value : Option β} {write : β → Json} (held : row.get? name = value.map write)
    (shown : ∀ part, write part ≠ .null)
    (reads : ∀ part, value = some part → read (write part) = some part) :
    row.optional name read = some value := by
  cases value with
  | none =>
      rw [optional, get, held]
      rfl
  | some part =>
      have present : row.get name = write part := by
        rw [get, held]
        rfl
      unfold optional
      rw [present]
      split
      · rename_i written
        exact absurd written (shown part)
      · rw [reads part rfl, Option.map_some]

theorem orElse_of_get? {β : Type} {row : Row} {name : String} {read : Json → Option β}
    {missing value : β} {written : Json} (held : row.get? name = some written)
    (reads : read written = some value) : row.orElse name read missing = some value := by
  rw [orElse, held]
  exact reads

end Row

namespace Metadata

theorem readTime_timeJson {time : Timestamp} (valid : time.IsValid) :
    readTime (timeJson time) = some time := by
  rw [readTime, timeJson, Json.text?, Option.bind_some, Timestamp.parse?_text valid]

theorem timeJson_ne_null (time : Timestamp) : timeJson time ≠ .null := by
  intro impossible
  cases impossible

theorem ofRow?_whole {metadata : Metadata} {own : String} {id : Option RecordId} {name : String}
    {value : Json} (free : own ∉ Row.reserved) (valid : metadata.IsValid) :
    ofRow? (.whole own id name value metadata) = some metadata := by
  obtain ⟨createdAt, updatedAt, deletedAt⟩ := Row.get?_times_whole free id name value metadata
  rw [ofRow?,
    Row.optional_of_get? createdAt timeJson_ne_null fun time same =>
      readTime_timeJson (valid.1 time same),
    Row.optional_of_get? updatedAt timeJson_ne_null fun time same =>
      readTime_timeJson (valid.2.1 time same),
    Row.optional_of_get? deletedAt timeJson_ne_null fun time same =>
      readTime_timeJson (valid.2.2 time same)]
  rfl

end Metadata

namespace Record.Whole

variable {ρ β : Type} [Record ρ] {own : String} {read : Json → Option β} {missing : β}
  {write : β → Json} {make : Option RecordId → String → β → Metadata → ρ}
  {id : Option RecordId} {name : String} {value : β} {metadata : Metadata}

theorem ofRow_whole (whole : Whole ρ own read missing write make) (valid : metadata.IsValid) :
    ofRow (.whole own id name (write value) metadata) = .ok (make id name value metadata) := by
  refine whole.ofRow_eq_ok_iff.mpr (Row.readWhole_eq_some_iff.mpr
    ⟨id, name, value, metadata, ?_, ?_, ?_, Metadata.ofRow?_whole whole.free valid, rfl⟩)
  · exact Row.optional_of_get? (Row.get?_id_whole whole.free) (by simp) fun _ _ => rfl
  · exact Row.orElse_of_get? (Row.get?_name_whole whole.free) rfl
  · exact Row.orElse_of_get? (Row.get?_own_whole whole.free) (whole.read_write value)

theorem populate_whole (whole : Whole ρ own read missing write make) (valid : metadata.IsValid) :
    Rows.populate blank (.whole own id name (write value) metadata) =
      .ok (make id name value metadata) := by
  rw [Rows.populate, whole.toRow_blank]
  refine Eq.trans (whole.ofRow_congr ?_) (whole.ofRow_whole valid)
  exact Row.get?_overlay_covering (Row.sorted_whole ..) fun _ => Row.get?_whole_blank whole.free

end Record.Whole

instance : FaithfulRecord Document where
  metadata := Document.metadata
  deletedAt?_eq _ := rfl
  withId_ok _ _ := ⟨_, rfl, rfl, rfl⟩
  name_touchCreated _ _ := rfl
  metadata_touchCreated _ _ := rfl
  toRow_ok _ := ⟨_, rfl⟩
  ofRow_toRow valid shown := by
    obtain ⟨_, _, _, _, rfl, rfl⟩ := Document.whole.of_toRow shown
    exact Document.whole.ofRow_whole valid
  populate_toRow valid shown := by
    obtain ⟨_, _, _, _, rfl, rfl⟩ := Document.whole.of_toRow shown
    exact Document.whole.populate_whole valid

instance : FaithfulRecord Account where
  metadata := Account.metadata
  deletedAt?_eq _ := rfl
  withId_ok _ _ := ⟨_, rfl, rfl, rfl⟩
  name_touchCreated _ _ := rfl
  metadata_touchCreated _ _ := rfl
  toRow_ok _ := ⟨_, rfl⟩
  ofRow_toRow valid shown := by
    obtain ⟨_, _, _, _, rfl, rfl⟩ := Account.whole.of_toRow shown
    exact Account.whole.ofRow_whole valid
  populate_toRow valid shown := by
    obtain ⟨_, _, _, _, rfl, rfl⟩ := Account.whole.of_toRow shown
    exact Account.whole.populate_whole valid

end CachedStore
