import Mathlib.Tactic.SplitIfs
import CachedStore.Proofs.Record.Faithful
import CachedStore.Proofs.Time.Calendar

/-!
The normal form of rows. Reading a record and writing it again keeps what records of its kind hold:
known columns only, none of them `null`, times in UTC. Rows in normal form stay as they are.
-/

namespace CachedStore

/-! What is read -/

namespace Row

variable {β : Type} {row : Row} {name : String} {read : Json → Option β}

theorem isSome_of_optional {value : Option β} (given : row.optional name read = some value) :
    value.isSome ↔ row.get name ≠ .null := by
  unfold optional at given
  split at given
  · rename_i absent
    obtain rfl := Option.some.inj given
    simp [absent]
  · rename_i present
    obtain ⟨part, _, rfl⟩ := Option.map_eq_some_iff.mp given
    simpa using present

theorem of_optional {part : β} (given : row.optional name read = some (some part)) :
    read (row.get name) = some part := by
  unfold optional at given
  split at given
  · cases given
  · obtain ⟨found, same, equal⟩ := Option.map_eq_some_iff.mp given
    rw [same, equal]

end Row

namespace Metadata

variable {row : Row} {metadata : Metadata}

theorem optional_of_ofRow? (read : ofRow? row = some metadata) :
    row.optional "created_at" readTime = some metadata.createdAt ∧
      row.optional "updated_at" readTime = some metadata.updatedAt ∧
      row.optional "deleted_at" readTime = some metadata.deletedAt := by
  simp only [ofRow?, Option.bind_eq_bind, Option.bind_eq_some_iff] at read
  obtain ⟨created, createdAt, updated, updatedAt, deleted, deletedAt, same⟩ := read
  obtain rfl := Option.some.inj same
  exact ⟨createdAt, updatedAt, deletedAt⟩

theorem isValid_of_readTime {value : Json} {time : Timestamp}
    (read : readTime value = some time) : time.IsValid := by
  obtain ⟨text, _, parsed⟩ := Option.bind_eq_some_iff.mp read
  exact Timestamp.isValid_of_parse? parsed

theorem isValid_of_ofRow? (read : ofRow? row = some metadata) : metadata.IsValid := by
  obtain ⟨created, updated, deleted⟩ := optional_of_ofRow? read
  have proper : ∀ {name : String} {given : Option Timestamp},
      row.optional name readTime = some given → ∀ time, given = some time → time.IsValid := by
    rintro name _ held time rfl
    exact isValid_of_readTime (Row.of_optional held)
  exact ⟨proper created, proper updated, proper deleted⟩

end Metadata

/-! Written columns -/

namespace Row

variable {columns : List String} {row : Row} {name : String}

def FilledIn (columns : List String) (row : Row) : Prop :=
  ∀ name value, row.get? name = some value → name ∈ columns ∧ value ≠ .null

theorem filledIn_empty (columns : List String) : empty.FilledIn columns := by
  intro name value impossible
  cases impossible

theorem FilledIn.missing (filled : row.FilledIn columns) (unknown : name ∉ columns) :
    row.get? name = none := by
  cases found : row.get? name with
  | none => rfl
  | some value => exact absurd (filled name value found).1 unknown

theorem FilledIn.insert (filled : row.FilledIn columns) (known : name ∈ columns) {value : Json}
    (shown : value ≠ .null) : (row.insert name value).FilledIn columns := by
  intro other held present
  rw [get?_insert] at present
  split_ifs at present with same
  · obtain rfl := Option.some.inj present
    exact ⟨same ▸ known, shown⟩
  · exact filled other held present

theorem FilledIn.withOptional (filled : row.FilledIn columns) (known : name ∈ columns)
    {β : Type} {write : β → Json} (shown : ∀ part, write part ≠ .null) (value : Option β) :
    (row.withOptional name (value.map write)).FilledIn columns := by
  cases value with
  | none => exact filled
  | some part => exact filled.insert known (shown part)

end Row

/-! Rows of records -/

def optionalColumns : List String := ["id", "created_at", "updated_at", "deleted_at"]

/-- What becomes of a row if a record with one more column, `own`, is read from it and written. -/
structure Row.NormalForm (own : String) (row normal : Row) : Prop where
  sorted : normal.Sorted
  filled : normal.FilledIn ("name" :: own :: optionalColumns)
  named : normal.contains "name" = true
  owned : normal.contains own = true
  given : ∀ name ∈ optionalColumns, normal.contains name = true ↔ row.get name ≠ .null

namespace Row

variable {own : String} {id : Option RecordId} {name : String} {value : Json} {row : Row}
  {metadata : Metadata}

theorem filledIn_whole (shown : value ≠ .null) :
    (whole own id name value metadata).FilledIn ("name" :: own :: optionalColumns) := by
  have known : ∀ column ∈ optionalColumns, column ∈ "name" :: own :: optionalColumns :=
    fun _ member => List.mem_cons_of_mem _ (List.mem_cons_of_mem _ member)
  have named : FilledIn ("name" :: own :: optionalColumns)
      ((empty.insert "name" (.string name)).insert own value) :=
    ((filledIn_empty _).insert List.mem_cons_self (by simp)).insert (by simp) shown
  have identified := named.withOptional (known "id" (by decide))
    (fun id : RecordId => by simp : ∀ id : RecordId, Json.string id.text ≠ .null) id
  exact ((identified.withOptional (known _ (by decide)) Metadata.timeJson_ne_null _).withOptional
    (known _ (by decide)) Metadata.timeJson_ne_null _).withOptional
    (known _ (by decide)) Metadata.timeJson_ne_null _

theorem normalForm_whole (free : own ∉ reserved) (shown : value ≠ .null)
    (identity : id.isSome ↔ row.get "id" ≠ .null) (times : Metadata.ofRow? row = some metadata) :
    row.NormalForm own (whole own id name value metadata) := by
  obtain ⟨created, updated, deleted⟩ := Metadata.optional_of_ofRow? times
  obtain ⟨createdAt, updatedAt, deletedAt⟩ := get?_times_whole free id name value metadata
  refine ⟨sorted_whole .., filledIn_whole shown, ?_, ?_, ?_⟩
  · rw [contains, get?_name_whole free, Option.isSome_some]
  · rw [contains, get?_own_whole free, Option.isSome_some]
  · intro column member
    simp only [optionalColumns, List.mem_cons, List.not_mem_nil, or_false] at member
    rcases member with rfl | rfl | rfl | rfl
    · rw [contains, get?_id_whole free, Option.isSome_map]
      exact identity
    · rw [contains, createdAt, Option.isSome_map]
      exact isSome_of_optional created
    · rw [contains, updatedAt, Option.isSome_map]
      exact isSome_of_optional updated
    · rw [contains, deletedAt, Option.isSome_map]
      exact isSome_of_optional deleted

end Row

/-- Rows tell records in full, and a row that can be read is as good as its normal form. -/
structure Normalizes (ρ : Type) [Record ρ] [FaithfulRecord ρ] (own : String) : Prop where
  decodes : ∀ record : ρ, (FaithfulRecord.metadata record).IsValid →
    ∃ row, Record.toRow record = .ok row ∧ Record.ofRow row = .ok record
  normalizes : ∀ (row : Row) (record : ρ), Record.ofRow row = .ok record →
    ∃ normal, Record.toRow record = .ok normal ∧ row.NormalForm own normal ∧
      Record.ofRow normal = .ok record

theorem Record.Whole.normalizes {ρ β : Type} [Record ρ] [FaithfulRecord ρ] {own : String}
    {read : Json → Option β} {missing : β} {write : β → Json}
    {make : Option RecordId → String → β → Metadata → ρ}
    (whole : Whole ρ own read missing write make)
    (metadata_make : ∀ id name value metadata,
      FaithfulRecord.metadata (make id name value metadata) = metadata) : Normalizes ρ own where
  decodes record valid := by
    obtain ⟨row, written⟩ := FaithfulRecord.toRow_ok record
    exact ⟨row, written, FaithfulRecord.ofRow_toRow valid written⟩
  normalizes row record given := by
    obtain ⟨id, name, value, metadata, identity, _, _, times, rfl⟩ :=
      Row.readWhole_eq_some_iff.mp (whole.ofRow_eq_ok_iff.mp given)
    have valid : (FaithfulRecord.metadata (make id name value metadata)).IsValid := by
      rw [metadata_make]
      exact Metadata.isValid_of_ofRow? times
    refine ⟨_, whole.toRow_make .., ?_, FaithfulRecord.ofRow_toRow valid (whole.toRow_make ..)⟩
    exact Row.normalForm_whole whole.free (whole.write_ne_null value)
      (Row.isSome_of_optional identity) times

namespace Record

theorem normalizes_documents_and_accounts :
    Normalizes Document "content" ∧ Normalizes Account "balance" :=
  ⟨Document.whole.normalizes fun _ _ _ _ => rfl, Account.whole.normalizes fun _ _ _ _ => rfl⟩

/-- A row with a column of no account, one that is `null`, one missing, and a time before UTC. -/
def unkempt : Row :=
  ⟨[("balance", .ofInt 7), ("color", .string "red"), ("created_at", .null),
    ("id", .string "a"), ("updated_at", .string "2024-01-01T00:30:00+01:00")]⟩

theorem normalizes_unkempt :
    ∃ account : Account, Record.ofRow unkempt = .ok account ∧
      account.metadata.updatedAt = some ⟨2023, 12, 31, 23, 30, 0, 0⟩ ∧
      ∃ normal, Record.toRow account = .ok normal ∧ unkempt.NormalForm "balance" normal ∧
        normal.columns.map (·.1) = ["balance", "id", "name", "updated_at"] ∧
        Record.ofRow normal = .ok account := by
  let account : Account :=
    ⟨some ⟨"a"⟩, "", 7, none, some ⟨2023, 12, 31, 23, 30, 0, 0⟩, none⟩
  have read : Record.ofRow unkempt = .ok account := by
    change (Account.ofRow? unkempt).elim (Except.error Failure.unreadableRow) Except.ok = _
    rw [show Account.ofRow? unkempt = some account by decide +kernel]
    rfl
  obtain ⟨normal, written, form, again⟩ :=
    normalizes_documents_and_accounts.2.normalizes unkempt account read
  obtain rfl := Except.ok.inj written
  exact ⟨account, read, rfl, _, written, form, by decide +kernel, again⟩

end Record

end CachedStore
