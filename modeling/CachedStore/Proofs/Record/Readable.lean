import CachedStore.Proofs.Record.Faithful

/-!
Rows that records can be read from. A reader looks at each column by itself, so that columns which
come from readable rows make a readable row, whichever of them are taken from which.
-/

namespace CachedStore

namespace Row

/-- Every column is missing or is that of one of the sources. -/
def MixedFrom (sources : Row → Prop) (row : Row) : Prop :=
  ∀ name, row.get? name = none ∨ ∃ source, sources source ∧ row.get? name = source.get? name

variable {sources : Row → Prop} {row base : Row}

theorem MixedFrom.mono {others : Row → Prop} (mixed : row.MixedFrom sources)
    (weaker : ∀ source, sources source → others source) : row.MixedFrom others :=
  fun name => (mixed name).imp id fun ⟨source, belongs, same⟩ =>
    ⟨source, weaker source belongs, same⟩

theorem mixedFrom_overlay (sorted : row.Sorted) (upper : sources row) (lower : sources base) :
    (base.overlay row).MixedFrom sources := by
  intro name
  rw [get?_overlay sorted]
  cases found : row.get? name with
  | none => exact Or.inr ⟨base, lower, by rw [Option.none_or]⟩
  | some value => exact Or.inr ⟨row, upper, by rw [Option.some_or, found]⟩

theorem get?_ofMembers {members : List (String × Json)} {name : String} {value : Json}
    (found : (ofMembers members).get? name = some value) : (name, value) ∈ members := by
  suffices general : ∀ base : Row,
      (members.foldl (fun row member => row.insert member.1 member.2) base).get? name =
        some value → (name, value) ∈ members ∨ base.get? name = some value from
    (general empty found).resolve_right (by simp [get?_empty])
  clear found
  induction members with
  | nil => intro base found; exact Or.inr found
  | cons member rest ih =>
      intro base found
      rcases ih _ found with later | before
      · exact Or.inl (List.mem_cons_of_mem _ later)
      · rw [get?_insert] at before
        by_cases same : name = member.1
        · rw [if_pos same] at before
          obtain rfl := Option.some.inj before
          exact Or.inl (same ▸ List.mem_cons_self)
        · rw [if_neg same] at before
          exact Or.inr before

theorem sorted_ofMembers (members : List (String × Json)) : (ofMembers members).Sorted := by
  suffices general : ∀ base : Row, base.Sorted →
      (members.foldl (fun row member => row.insert member.1 member.2) base).Sorted from
    general empty sorted_empty
  induction members with
  | nil => intro base sorted; exact sorted
  | cons member rest ih =>
      intro base sorted
      exact ih _ (sorted.insert member.1 member.2)

theorem optional_mixed {β : Type} {name : String} {read : Json → Option β}
    (mixed : row.MixedFrom sources)
    (reads : ∀ source, sources source → ∃ value, source.optional name read = some value) :
    ∃ value, row.optional name read = some value := by
  rcases mixed name with missing | ⟨source, belongs, same⟩
  · refine ⟨none, ?_⟩
    rw [optional, get, missing]
    rfl
  · obtain ⟨value, given⟩ := reads source belongs
    refine ⟨value, ?_⟩
    rw [← given, optional, optional, get, get, same]

theorem orElse_mixed {β : Type} {name : String} {read : Json → Option β} {missing : β}
    (mixed : row.MixedFrom sources)
    (reads : ∀ source, sources source → ∃ value, source.orElse name read missing = some value) :
    ∃ value, row.orElse name read missing = some value := by
  rcases mixed name with absent | ⟨source, belongs, same⟩
  · refine ⟨missing, ?_⟩
    rw [orElse, absent]
  · obtain ⟨value, given⟩ := reads source belongs
    refine ⟨value, ?_⟩
    rw [← given, orElse, orElse, same]

end Row

theorem Query.mixedFrom_project {sources : Row → Prop} {row : Row} (query : Query)
    (belongs : sources row) : (query.project row).MixedFrom sources := by
  intro name
  unfold project
  cases query.columns with
  | none => exact Or.inr ⟨row, belongs, rfl⟩
  | some columns =>
      refine or_iff_not_imp_left.mpr fun present => ⟨row, belongs, ?_⟩
      obtain ⟨value, found⟩ := Option.ne_none_iff_exists'.mp present
      obtain ⟨column, _, taken⟩ := List.mem_filterMap.mp (Row.get?_ofMembers found)
      obtain ⟨kept, held, same⟩ := Option.map_eq_some_iff.mp taken
      obtain ⟨rfl, rfl⟩ := Prod.mk.inj same
      exact found.trans held.symm

theorem Query.sorted_project {row : Row} (query : Query) (sorted : row.Sorted) :
    (query.project row).Sorted := by
  unfold project
  cases query.columns with
  | none => exact sorted
  | some columns => exact Row.sorted_ofMembers _

def Row.Readable (ρ : Type) [Record ρ] (row : Row) : Prop :=
  ∃ record : ρ, Record.ofRow row = .ok record

/-- Records that can be read from whatever columns readable rows lend. -/
class ReadableRecord (ρ : Type) [Record ρ] extends FaithfulRecord ρ where
  blank_valid : (metadata (Record.blank : ρ)).IsValid
  readable_mixed : ∀ {row : Row}, row.MixedFrom (Row.Readable ρ) → row.Readable ρ

theorem Metadata.ofRow?_eq_some_iff {row : Row} :
    (∃ metadata, ofRow? row = some metadata) ↔
      (∃ time, row.optional "created_at" readTime = some time) ∧
      (∃ time, row.optional "updated_at" readTime = some time) ∧
      ∃ time, row.optional "deleted_at" readTime = some time := by
  simp only [ofRow?, Option.pure_def, Option.bind_eq_bind, Option.bind_eq_some_iff]
  constructor
  · rintro ⟨_, created, given, updated, changed, deleted, ended, _⟩
    exact ⟨⟨created, given⟩, ⟨updated, changed⟩, deleted, ended⟩
  · rintro ⟨⟨created, given⟩, ⟨updated, changed⟩, deleted, ended⟩
    exact ⟨_, created, given, updated, changed, deleted, ended, rfl⟩

/-- What a named record with one more column, which may be missing, is read from. -/
structure Row.Legible {β : Type} (column : String) (read : Json → Option β) (missing : β)
    (row : Row) : Prop where
  id : ∃ id, row.optional "id" RecordId.ofJson? = some id
  name : ∃ name, row.orElse "name" Json.text? "" = some name
  other : ∃ value, row.orElse column read missing = some value
  metadata : ∃ metadata, Metadata.ofRow? row = some metadata

theorem Row.legible_mixed {β : Type} {column : String} {read : Json → Option β} {missing : β}
    {row : Row} (mixed : row.MixedFrom (Row.Legible column read missing)) :
    row.Legible column read missing := by
  have times := fun source (legible : Legible column read missing source) =>
    Metadata.ofRow?_eq_some_iff.mp legible.metadata
  refine ⟨?_, ?_, ?_, Metadata.ofRow?_eq_some_iff.mpr ⟨?_, ?_, ?_⟩⟩
  · exact optional_mixed mixed fun _ legible => legible.id
  · exact orElse_mixed mixed fun _ legible => legible.name
  · exact orElse_mixed mixed fun _ legible => legible.other
  · exact optional_mixed mixed fun source legible => (times source legible).1
  · exact optional_mixed mixed fun source legible => (times source legible).2.1
  · exact optional_mixed mixed fun source legible => (times source legible).2.2

theorem Record.Whole.readable_iff {ρ β : Type} [Record ρ] {own : String} {read : Json → Option β}
    {missing : β} {write : β → Json} {make : Option RecordId → String → β → Metadata → ρ}
    (whole : Whole ρ own read missing write make) (row : Row) :
    row.Readable ρ ↔ row.Legible own read missing := by
  simp only [Row.Readable, whole.ofRow_eq_ok_iff, Row.readWhole_eq_some_iff]
  constructor
  · rintro ⟨_, id, name, value, metadata, identified, named, written, timed, _⟩
    exact ⟨⟨id, identified⟩, ⟨name, named⟩, ⟨value, written⟩, metadata, timed⟩
  · rintro ⟨⟨id, identified⟩, ⟨name, named⟩, ⟨value, written⟩, metadata, timed⟩
    exact ⟨_, id, name, value, metadata, identified, named, written, timed, rfl⟩

theorem Record.Whole.readable_mixed {ρ β : Type} [Record ρ] {own : String}
    {read : Json → Option β} {missing : β} {write : β → Json}
    {make : Option RecordId → String → β → Metadata → ρ}
    (whole : Whole ρ own read missing write make) {row : Row}
    (mixed : row.MixedFrom (Row.Readable ρ)) : row.Readable ρ :=
  (whole.readable_iff row).mpr
    (Row.legible_mixed (mixed.mono fun source => (whole.readable_iff source).mp))

instance : ReadableRecord Document where
  blank_valid := Metadata.isValid_none
  readable_mixed := Document.whole.readable_mixed

instance : ReadableRecord Account where
  blank_valid := Metadata.isValid_none
  readable_mixed := Account.whole.readable_mixed

end CachedStore
