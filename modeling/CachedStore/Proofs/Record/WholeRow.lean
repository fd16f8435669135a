import Mathlib.Tactic.SplitIfs
import CachedStore.Proofs.Record.Columns
import CachedStore.Store.Rows

/-!
The row that documents and accounts have in common: which values it shows, and what a record is read
from.
-/

namespace CachedStore

namespace Row

variable {own : String} {id : Option RecordId} {name : String} {value : Json}
  {metadata : Metadata}

def reserved : List String := ["id", "name", "created_at", "updated_at", "deleted_at"]

/-! Written rows -/

theorem get?_whole (free : own ∉ reserved) (other : String) :
    (whole own id name value metadata).get? other =
      if other = "deleted_at" then metadata.deletedAt.map Metadata.timeJson
      else if other = "updated_at" then metadata.updatedAt.map Metadata.timeJson
      else if other = "created_at" then metadata.createdAt.map Metadata.timeJson
      else if other = "id" then id.map fun id => .string id.text
      else if other = own then some value
      else if other = "name" then some (.string name)
      else none := by
  simp only [reserved, List.mem_cons, List.not_mem_nil, or_false, not_or] at free
  obtain ⟨notId, notName, notCreated, notUpdated, notDeleted⟩ := free
  simp only [whole, Metadata.intoRow, get?_withOptional, get?_insert, get?_empty]
  split_ifs <;> simp_all

theorem get?_id_whole (free : own ∉ reserved) :
    (whole own id name value metadata).get? "id" = id.map fun id => .string id.text := by
  rw [get?_whole free, if_neg (by decide), if_neg (by decide), if_neg (by decide), if_pos rfl]

theorem get?_name_whole (free : own ∉ reserved) :
    (whole own id name value metadata).get? "name" = some (.string name) := by
  have different : "name" ≠ own := fun same => free (same ▸ by decide)
  rw [get?_whole free, if_neg (by decide), if_neg (by decide), if_neg (by decide),
    if_neg (by decide), if_neg different, if_pos rfl]

theorem get_name_whole (free : own ∉ reserved) :
    (whole own id name value metadata).get "name" = .string name := by
  rw [get, get?_name_whole free, Option.getD_some]

theorem get?_own_whole (free : own ∉ reserved) :
    (whole own id name value metadata).get? own = some value := by
  have different : ∀ taken ∈ reserved, own ≠ taken := by
    rintro taken member rfl
    exact free member
  rw [get?_whole free, if_neg (different _ (by decide)), if_neg (different _ (by decide)),
    if_neg (different _ (by decide)), if_neg (different _ (by decide)), if_pos rfl]

theorem get?_times_whole (free : own ∉ reserved) (id : Option RecordId) (name : String)
    (value : Json) (metadata : Metadata) :
    (whole own id name value metadata).get? "created_at" =
        metadata.createdAt.map Metadata.timeJson ∧
      (whole own id name value metadata).get? "updated_at" =
        metadata.updatedAt.map Metadata.timeJson ∧
      (whole own id name value metadata).get? "deleted_at" =
        metadata.deletedAt.map Metadata.timeJson := by
  refine ⟨?_, ?_, ?_⟩
  · rw [get?_whole free, if_neg (by decide), if_neg (by decide), if_pos rfl]
  · rw [get?_whole free, if_neg (by decide), if_pos rfl]
  · rw [get?_whole free, if_pos rfl]

theorem sorted_whole (own : String) (id : Option RecordId) (name : String) (value : Json)
    (metadata : Metadata) : (whole own id name value metadata).Sorted :=
  ((((((sorted_empty.insert _ _).insert _ _).withOptional _ _).withOptional _ _).withOptional
    _ _).withOptional _ _)

theorem get?_whole_blank (free : own ∉ reserved) {blank : String} {missing : Json} {other : String}
    (absent : (whole own id name value metadata).get? other = none) :
    (whole own none blank missing .none).get? other = none := by
  rw [get?_whole free] at absent ⊢
  simp only [Metadata.none, Option.map_none]
  split_ifs at absent ⊢ <;> rfl

/-! Rows that are read -/

variable {ρ β : Type} {row : Row} {read : Json → Option β} {missing : β}
  {make : Option RecordId → String → β → Metadata → ρ} {record : ρ}

theorem readWhole_eq_some_iff :
    row.readWhole own read missing make = some record ↔
      ∃ id name value metadata, row.optional "id" RecordId.ofJson? = some id ∧
        row.orElse "name" Json.text? "" = some name ∧ row.orElse own read missing = some value ∧
        Metadata.ofRow? row = some metadata ∧ make id name value metadata = record := by
  simp only [readWhole, Option.bind_eq_bind, Option.bind_eq_some_iff, Option.pure_def,
    Option.some.injEq, exists_and_left]

theorem readWhole_congr {first second : Row}
    (same : ∀ name, first.get? name = second.get? name) :
    first.readWhole own read missing make = second.readWhole own read missing make := by
  simp only [readWhole, Metadata.ofRow?, optional, orElse, get, same]

theorem optional_id {id : RecordId} {found : Option RecordId}
    (shown : row.get "id" = .string id.text)
    (given : row.optional "id" RecordId.ofJson? = some found) : found = some id := by
  simp only [optional, shown, RecordId.ofJson?, Json.text?, Option.map_some,
    Option.some.injEq] at given
  exact given.symm

end Row

/-! Records of whole rows -/

namespace Record

/-- The records of a kind are an identity, a name, a value and the times, and so are their rows. -/
structure Whole (ρ : Type) [Record ρ] {β : Type} (own : String) (read : Json → Option β)
    (missing : β) (write : β → Json) (make : Option RecordId → String → β → Metadata → ρ) :
    Prop where
  free : own ∉ Row.reserved
  write_ne_null : ∀ value, write value ≠ .null
  read_write : ∀ value, read (write value) = some value
  made : ∀ record, ∃ id name value metadata, make id name value metadata = record
  blank_eq : Record.blank = make none "" missing .none
  id?_make : ∀ id name value metadata, Record.id? (make id name value metadata) = id
  toRow_make : ∀ id name value metadata,
    toRow (make id name value metadata) = .ok (.whole own id name (write value) metadata)
  ofRow_eq : ∀ row,
    ofRow row = (row.readWhole own read missing make).elim (.error .unreadableRow) .ok

namespace Whole

variable {ρ β : Type} [Record ρ] {own : String} {read : Json → Option β} {missing : β}
  {write : β → Json} {make : Option RecordId → String → β → Metadata → ρ} {record : ρ} {row : Row}

theorem of_toRow (whole : Whole ρ own read missing write make) (shown : toRow record = .ok row) :
    ∃ id name value metadata, make id name value metadata = record ∧
      Row.whole own id name (write value) metadata = row := by
  obtain ⟨id, name, value, metadata, rfl⟩ := whole.made record
  exact ⟨id, name, value, metadata, rfl, Except.ok.inj ((whole.toRow_make ..).symm.trans shown)⟩

theorem sorted_of_toRow (whole : Whole ρ own read missing write make)
    (shown : toRow record = .ok row) : row.Sorted := by
  obtain ⟨_, _, _, _, _, rfl⟩ := whole.of_toRow shown
  exact Row.sorted_whole ..

theorem get_id_of_toRow (whole : Whole ρ own read missing write make) {id : RecordId}
    (shown : toRow record = .ok row) (given : id? record = some id) :
    row.get "id" = .string id.text := by
  obtain ⟨_, _, _, _, rfl, rfl⟩ := whole.of_toRow shown
  rw [whole.id?_make] at given
  rw [Row.get, Row.get?_id_whole whole.free, given, Option.map_some, Option.getD_some]

theorem ofRow_eq_ok_iff (whole : Whole ρ own read missing write make) :
    ofRow row = .ok record ↔ row.readWhole own read missing make = some record := by
  rw [whole.ofRow_eq]
  cases row.readWhole own read missing make with
  | none => simp
  | some other => simp

theorem ofRow_congr (whole : Whole ρ own read missing write make) {first second : Row}
    (same : ∀ name, first.get? name = second.get? name) :
    (ofRow first : Except Failure ρ) = ofRow second := by
  rw [whole.ofRow_eq, whole.ofRow_eq, Row.readWhole_congr same]

theorem toRow_blank (whole : Whole ρ own read missing write make) :
    toRow (blank : ρ) = .ok (.whole own none "" (write missing) .none) := by
  rw [whole.blank_eq, whole.toRow_make]

theorem id?_of_populate (whole : Whole ρ own read missing write make) {id : RecordId}
    (sorted : row.Sorted) (shown : row.get "id" = .string id.text)
    (populated : Rows.populate blank row = .ok record) : id? record = some id := by
  rw [Rows.populate, whole.toRow_blank] at populated
  have under : ((Row.whole own none "" (write missing) .none).overlay row).get "id" =
      .string id.text := by
    rw [← shown, Row.get, Row.get?_overlay sorted, Row.get?_id_whole whole.free, Option.map_none,
      Option.or_none, Row.get]
  obtain ⟨found, name, value, metadata, given, _, _, _, rfl⟩ :=
    Row.readWhole_eq_some_iff.mp (whole.ofRow_eq_ok_iff.mp populated)
  rw [whole.id?_make, Row.optional_id under given]

end Whole

end Record

end CachedStore
