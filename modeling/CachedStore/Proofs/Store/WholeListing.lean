import CachedStore.Proofs.Store.Listing

/-!
Listings of all columns. What they are cut from is every live record that matches, each as it is
stored and once, in an order that the order of their rows tells.
-/

namespace CachedStore

/-! Lists related item by item -/

section Related

variable {α β : Type} {gives : α → β → Prop} {items : List α} {values : List β}

theorem exists_value_of_forall₂ (all : List.Forall₂ gives items values) {item : α}
    (member : item ∈ items) : ∃ value ∈ values, gives item value := by
  obtain ⟨position, inside, rfl⟩ := List.mem_iff_getElem.mp member
  have within : position < values.length := all.length_eq ▸ inside
  exact ⟨_, List.getElem_mem within, all.get inside within⟩

theorem exists_item_of_forall₂ (all : List.Forall₂ gives items values) {value : β}
    (member : value ∈ values) : ∃ item ∈ items, gives item value := by
  obtain ⟨position, within, rfl⟩ := List.mem_iff_getElem.mp member
  have inside : position < items.length := all.length_eq ▸ within
  exact ⟨_, List.getElem_mem inside, all.get inside within⟩

theorem pairwise_of_forall₂ {before : α → α → Prop} {after : β → β → Prop}
    (all : List.Forall₂ gives items values) (ordered : items.Pairwise before)
    (passes : ∀ item other value another, gives item value → gives other another →
      before item other → after value another) : values.Pairwise after := by
  refine List.pairwise_iff_getElem.mpr fun first second inside within order => ?_
  have here : first < items.length := all.length_eq ▸ inside
  have there : second < items.length := all.length_eq ▸ within
  exact passes _ _ _ _ (all.get here inside) (all.get there within)
    (List.pairwise_iff_getElem.mp ordered first second here there order)

end Related

theorem SortOrder.compareRows_self (order : SortOrder) (row : Row) :
    order.compareRows row row = .eq := by
  have swapped := order.compareRows_swap row row
  cases compared : order.compareRows row row <;> simp [compared] at swapped ⊢

theorem SortOrder.sort_pair (order : SortOrder) (row other : Row) :
    order.sort [row, other] =
      if order.compareRows row other = .gt then [other, row] else [row, other] := by
  by_cases behind : order.compareRows row other = .gt
  · simp [sort, List.mergeSort, List.MergeSort.Internal.splitInTwo, behind]
  · simp [sort, List.mergeSort, List.MergeSort.Internal.splitInTwo, behind]

namespace Query

theorem cut_prefix {α : Type} (query : Query) (items : List α) : query.cut items <+: items := by
  unfold cut
  cases query.effectiveLimit with
  | none => exact List.prefix_refl items
  | some limit => exact List.take_prefix limit items

theorem of_omitted {α : Type} (query : Query) {items : List α} {before : α → α → Prop}
    (ordered : items.Pairwise before) {first second : α} (given : first ∈ query.cut items)
    (member : second ∈ items) (omitted : second ∉ query.cut items) : before first second := by
  obtain ⟨rest, whole⟩ := query.cut_prefix items
  rw [← whole, List.pairwise_append] at ordered
  rw [← whole, List.mem_append] at member
  exact ordered.2.2 first given second (member.resolve_left omitted)

theorem not_precedes_self (query : Query) (entry : RecordId × Row) :
    ¬query.Precedes entry entry := by
  unfold Precedes
  cases query.order with
  | none => simp [Std.compare_self]
  | some order => simp [order.compareRows_self, Std.compare_self]

theorem isLE_of_precedes {query : Query} {order : SortOrder} {entry other : RecordId × Row}
    (ordered : query.order = some order) (precedes : query.Precedes entry other) :
    (order.compareRows entry.2 other.2).isLE = true := by
  rw [Precedes, ordered] at precedes
  rcases precedes with less | ⟨same, _⟩
  · exact less ▸ rfl
  · exact same ▸ rfl

end Query

namespace Rows

variable {ρ : Type} [Record ρ] [SelectableRecord ρ] {rows : Rows} {query : Query}

structure HasEntry (rows : Rows) (record : ρ) (entry : RecordId × Row) : Prop where
  holds : rows.Holds entry.1 record
  shown : Record.toRow record = .ok entry.2

theorem HasEntry.stored {record : ρ} {entry : RecordId × Row}
    (stands : rows.HasEntry record entry) : rows[entry.1]? = some entry.2 := by
  obtain ⟨row, stored, shown⟩ := stands.holds.stored
  obtain rfl := Except.ok.inj (stands.shown.symm.trans shown)
  exact stored

theorem Part.hasEntry {entry : RecordId × Row} {record : ρ} (whole : query.columns = none)
    (stored : rows[entry.1]? = some entry.2) (part : rows.Part query entry record) :
    rows.HasEntry record entry := by
  obtain ⟨held, holds, taken⟩ := part.held
  obtain ⟨row, present, shown⟩ := holds.stored
  obtain rfl := Option.some.inj (stored.symm.trans present)
  obtain ⟨other, _, written, _, columns⟩ := part.shows
  have all : ∀ column, query.chooses column = true := fun column => by rw [Query.chooses, whole]
  have same : ∀ column, other.get? column = entry.2.get? column := by
    intro column
    rw [columns, all, if_pos rfl]
  have valid : (FaithfulRecord.metadata record).IsValid :=
    taken ▸ SelectableRecord.valid_only _ holds.valid
  have read : (Record.ofRow entry.2 : Except Failure ρ) = .ok record :=
    (SelectableRecord.ofRow_congr same).symm.trans (FaithfulRecord.ofRow_toRow valid written)
  obtain rfl := Except.ok.inj ((FaithfulRecord.ofRow_toRow holds.valid shown).symm.trans read)
  exact ⟨holds, shown⟩

/-- What a query lists, before it is cut: the live records that match, in its order. -/
structure Lists (rows : Rows) (query : Query) (all : List ρ) : Prop where
  mem : ∀ record, record ∈ all ↔ ∃ entry, rows.HasEntry record entry ∧
    query.filter.accepts entry.2 = true ∧ Record.isDeleted record = false
  ordered : all.Pairwise fun first second => ∃ entry other, rows.HasEntry first entry ∧
    rows.HasEntry second other ∧ query.Precedes entry other

theorem Selects.lists {listed : List (RecordId × Row)} {records : List ρ}
    (selects : Selects ρ rows query listed) (whole : query.columns = none)
    (parts : List.Forall₂ (rows.Part query) listed records) : rows.Lists query records := by
  have standing : List.Forall₂ (fun entry record => rows.HasEntry record entry) listed records := by
    have stored : ∀ entry ∈ listed, rows[entry.1]? = some entry.2 := fun entry member =>
      ((selects.mem entry.1 entry.2).mp member).1
    refine ((List.forall₂_and_left _ _).mpr ⟨stored, parts⟩).imp fun entry record given => ?_
    exact given.2.hasEntry whole given.1
  constructor
  · intro record
    constructor
    · intro member
      obtain ⟨entry, listed, stands⟩ := exists_item_of_forall₂ standing member
      obtain ⟨_, accepted, alive⟩ := (selects.mem entry.1 entry.2).mp listed
      rw [isLive_of_toRow stands.holds.valid stands.shown] at alive
      exact ⟨entry, stands, accepted, by simpa using Except.ok.inj alive⟩
    · rintro ⟨entry, stands, accepted, live⟩
      have alive : isLive ρ entry.2 = .ok true := by
        rw [isLive_of_toRow stands.holds.valid stands.shown, live]
        rfl
      have listed := (selects.mem entry.1 entry.2).mpr ⟨stands.stored, accepted, alive⟩
      obtain ⟨other, member, again⟩ := exists_value_of_forall₂ standing listed
      exact stands.holds.unique again.holds ▸ member
  · exact pairwise_of_forall₂ standing selects.ordered
      fun entry other _ _ first second order => ⟨entry, other, first, second, order⟩

theorem HasEntry.unique {record : ρ} {entry other : RecordId × Row}
    (first : rows.HasEntry record entry) (second : rows.HasEntry record other) : entry = other := by
  have id := Option.some.inj (first.holds.own.symm.trans second.holds.own)
  have row := Except.ok.inj (first.shown.symm.trans second.shown)
  exact Prod.ext id row

theorem Lists.nodup {all : List ρ} (lists : rows.Lists query all) : all.Nodup := by
  refine lists.ordered.imp ?_
  rintro record _ ⟨entry, other, first, second, precedes⟩ rfl
  exact query.not_precedes_self other (first.unique second ▸ precedes)

theorem find_pair {order : SortOrder} {first second : ρ} {entry other : RecordId × Row}
    (ordered : query.order = some order) (whole : query.columns = none)
    (stands : rows.HasEntry first entry) (standsOther : rows.HasEntry second other)
    (live : liveRows ρ (rows.matching query.filter) = .ok [entry.2, other.2]) :
    rows.find [] query = .ok (query.cut
      (if order.compareRows entry.2 other.2 = .gt then [second, first] else [first, second])) := by
  have read : ∀ {record : ρ} {entry : RecordId × Row}, rows.HasEntry record entry →
      populate (Record.blank : ρ) (query.project entry.2) = .ok record := by
    intro record entry stands
    rw [Query.project, whole]
    exact FaithfulRecord.populate_toRow stands.holds.valid stands.shown
  have selected : select ρ rows query = .ok (query.cut
      (if order.compareRows entry.2 other.2 = .gt then [other.2, entry.2]
        else [entry.2, other.2])) := by
    rw [select, live, ordered, ← order.sort_pair]
    rfl
  have pairs : List.Forall₂ (fun row record => populate (Record.blank : ρ) (query.project row) =
      .ok record)
      (if order.compareRows entry.2 other.2 = .gt then [other.2, entry.2] else [entry.2, other.2])
      (if order.compareRows entry.2 other.2 = .gt then [second, first] else [first, second]) := by
    split
    · exact .cons (read standsOther) (.cons (read stands) .nil)
    · exact .cons (read stands) (.cons (read standsOther) .nil)
  rw [Rows.find, selected]
  change (do
    let found ← (query.cut _).mapM fun row => populate (Record.blank : ρ) (query.project row)
    return [] ++ found) = _
  rw [mapM_eq_ok_iff.mpr (query.forall₂_cut pairs)]
  rfl

/-- However long the listing may be, it is the beginning of one list. -/
theorem Faithful.find_whole (faithful : rows.Faithful ρ) (named : rows.Named) (query : Query)
    (whole : query.columns = none) :
    ∃ all : List ρ, rows.Lists query all ∧ ∀ (limit : Option Nat) (target : List ρ),
      rows.find target { query with limit := limit } =
        .ok (target ++ { query with limit := limit }.cut all) := by
  obtain ⟨listed, records, selects, parts, finds⟩ := faithful.find_cut named query
  exact ⟨records, selects.lists whole parts, finds⟩

end Rows

end CachedStore
