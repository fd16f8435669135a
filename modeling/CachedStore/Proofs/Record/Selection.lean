import CachedStore.Proofs.Record.Ordering
import CachedStore.Proofs.Record.Readable

/-!
Records that can be read in part and sorted by any column: for every choice of columns there is the
record that has these only, and the values of one column are all texts or all numbers.
-/

namespace CachedStore

/-! Columns of rows -/

namespace Row

variable {own : String} {id : Option RecordId} {name : String} {value : Json}
  {metadata : Metadata}

theorem isTextOrNull_get_whole (free : own ∉ reserved) {other : String} (different : other ≠ own) :
    ((whole own id name value metadata).get other).IsTextOrNull := by
  have texts : ∀ {β : Type} (part : Option β) (write : β → String),
      Json.IsTextOrNull ((part.map fun item => Json.string (write item)).getD .null) := by
    intro β part write
    cases part with
    | none => exact Or.inl rfl
    | some item => exact Or.inr ⟨write item, rfl⟩
  rw [get, get?_whole free]
  split_ifs with deleted updated created identity named
  · exact texts metadata.deletedAt Timestamp.text
  · exact texts metadata.updatedAt Timestamp.text
  · exact texts metadata.createdAt Timestamp.text
  · exact texts id RecordId.text
  · exact Or.inr ⟨name, rfl⟩
  · exact Or.inl rfl

end Row

def Metadata.only (keeps : String → Bool) (metadata : Metadata) : Metadata :=
  ⟨if keeps "created_at" then metadata.createdAt else .none,
    if keeps "updated_at" then metadata.updatedAt else .none,
    if keeps "deleted_at" then metadata.deletedAt else .none⟩

theorem Metadata.IsValid.only {metadata : Metadata} (valid : metadata.IsValid)
    (keeps : String → Bool) : (metadata.only keeps).IsValid := by
  obtain ⟨created, updated, deleted⟩ := valid
  refine ⟨?_, ?_, ?_⟩
  · intro time same
    simp only [Metadata.only, Option.ite_none_right_eq_some] at same
    exact created time same.2
  · intro time same
    simp only [Metadata.only, Option.ite_none_right_eq_some] at same
    exact updated time same.2
  · intro time same
    simp only [Metadata.only, Option.ite_none_right_eq_some] at same
    exact deleted time same.2

theorem Row.get?_whole_only {own : String} (free : own ∉ reserved) (keeps : String → Bool)
    (id : Option RecordId) (name : String) (value missing : Json) (metadata : Metadata)
    (other : String) :
    (whole own (if keeps "id" then id else none) (if keeps "name" then name else "")
      (if keeps own then value else missing) (metadata.only keeps)).get? other =
      if keeps other then (whole own id name value metadata).get? other
      else (whole own none "" missing .none).get? other := by
  simp only [get?_whole free, Metadata.only, Metadata.none]
  split_ifs <;> simp_all

class SelectableRecord (ρ : Type) [Record ρ] extends ReadableRecord ρ where
  only : (String → Bool) → ρ → ρ
  valid_only : ∀ (keeps : String → Bool) {record : ρ}, (metadata record).IsValid →
    (metadata (only keeps record)).IsValid
  get?_only : ∀ (keeps : String → Bool) {record : ρ} {row base part : Row} (column : String),
    Record.toRow record = .ok row → Record.toRow (Record.blank : ρ) = .ok base →
    Record.toRow (only keeps record) = .ok part →
    part.get? column = if keeps column then row.get? column else base.get? column
  covers_blank : ∀ {record : ρ} {row base : Row} {column : String},
    Record.toRow record = .ok row → Record.toRow (Record.blank : ρ) = .ok base →
    row.get? column = none → base.get? column = none
  ofRow_congr : ∀ {first second : Row}, (∀ column, first.get? column = second.get? column) →
    (Record.ofRow first : Except Failure ρ) = Record.ofRow second
  comparable : ∀ column : String, Comparable fun value =>
    ∃ (record : ρ) (row : Row), Record.toRow record = .ok row ∧ row.get column = value

namespace Record.Whole

variable {ρ β : Type} [Record ρ] {own : String} {read : Json → Option β} {missing : β}
  {write : β → Json} {make : Option RecordId → String → β → Metadata → ρ}

theorem get?_only (whole : Whole ρ own read missing write make) (keeps : String → Bool)
    {id : Option RecordId} {name : String} {value : β} {metadata : Metadata} {row base part : Row}
    (column : String) (shown : toRow (make id name value metadata) = .ok row)
    (written : toRow (blank : ρ) = .ok base)
    (taken : toRow (make (if keeps "id" then id else none) (if keeps "name" then name else "")
      (if keeps own then value else missing) (metadata.only keeps)) = .ok part) :
    part.get? column = if keeps column then row.get? column else base.get? column := by
  obtain rfl := Except.ok.inj ((whole.toRow_make ..).symm.trans shown)
  obtain rfl := Except.ok.inj (whole.toRow_blank.symm.trans written)
  obtain rfl := Except.ok.inj ((whole.toRow_make ..).symm.trans taken)
  rw [apply_ite write]
  exact Row.get?_whole_only whole.free keeps _ _ _ _ _ column

theorem covers_blank (whole : Whole ρ own read missing write make) {record : ρ} {row base : Row}
    {column : String} (shown : toRow record = .ok row) (written : toRow (blank : ρ) = .ok base)
    (absent : row.get? column = none) : base.get? column = none := by
  obtain ⟨_, _, _, _, rfl, rfl⟩ := whole.of_toRow shown
  obtain rfl := Except.ok.inj (whole.toRow_blank.symm.trans written)
  exact Row.get?_whole_blank whole.free absent

theorem get_own (whole : Whole ρ own read missing write make) {record : ρ} {row : Row}
    (shown : toRow record = .ok row) : ∃ value, row.get own = write value := by
  obtain ⟨_, _, value, _, rfl, rfl⟩ := whole.of_toRow shown
  exact ⟨value, by rw [Row.get, Row.get?_own_whole whole.free, Option.getD_some]⟩

theorem isTextOrNull_get (whole : Whole ρ own read missing write make) {record : ρ} {row : Row}
    (shown : toRow record = .ok row) {column : String} (different : column ≠ own) :
    (row.get column).IsTextOrNull := by
  obtain ⟨_, _, _, _, rfl, rfl⟩ := whole.of_toRow shown
  exact Row.isTextOrNull_get_whole whole.free different

end Record.Whole

namespace Document

def only (keeps : String → Bool) (document : Document) : Document :=
  ⟨if keeps "id" then document.id else none, if keeps "name" then document.name else "",
    if keeps "content" then document.content else "", document.metadata.only keeps⟩

instance : SelectableRecord Document where
  only := only
  valid_only keeps _ valid := Metadata.IsValid.only valid keeps
  get?_only keeps _ _ _ _ := whole.get?_only keeps
  covers_blank := whole.covers_blank
  ofRow_congr := whole.ofRow_congr
  comparable column := by
    refine Or.inl ?_
    rintro _ ⟨document, row, shown, rfl⟩
    by_cases same : column = "content"
    · obtain ⟨content, written⟩ := whole.get_own shown
      exact Or.inr ⟨content, same ▸ written⟩
    · exact whole.isTextOrNull_get shown same

end Document

namespace Account

def only (keeps : String → Bool) (account : Account) : Account :=
  ⟨if keeps "id" then account.id else none, if keeps "name" then account.name else "",
    if keeps "balance" then account.balance else 0, account.metadata.only keeps⟩

instance : SelectableRecord Account where
  only := only
  valid_only keeps _ valid := Metadata.IsValid.only valid keeps
  get?_only keeps _ _ _ _ := whole.get?_only keeps
  covers_blank := whole.covers_blank
  ofRow_congr := whole.ofRow_congr
  comparable column := by
    by_cases same : column = "balance"
    · refine Or.inr ?_
      rintro _ ⟨account, row, shown, rfl⟩
      obtain ⟨balance, written⟩ := whole.get_own shown
      exact Or.inr ⟨.integer balance.toInt, same ▸ written⟩
    · refine Or.inl ?_
      rintro _ ⟨account, row, shown, rfl⟩
      exact whole.isTextOrNull_get shown same

end Account

end CachedStore
