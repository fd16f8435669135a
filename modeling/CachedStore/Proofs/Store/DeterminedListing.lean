import CachedStore.Proofs.Record.ValueOrder
import CachedStore.Proofs.Store.WholeListing
import CachedStore.Record.Loose

/-!
Listings by any column of any rows. The values of a column need not be of one type: rows are totally
preordered all the same, so that the entries of a query stand in one order only, that of its column
and then of their identities.
-/

namespace CachedStore

namespace Query

variable {query : Query} {first second : RecordId × Row}

theorem not_precedes_back (before : query.Precedes first second) :
    ¬query.Precedes second first := by
  intro back
  unfold Precedes at before back
  cases given : query.order with
  | none =>
      rw [given] at before back
      exact absurd (Std.OrientedCmp.gt_of_lt before) (by simp [back])
  | some order =>
      rw [given] at before back
      have swapped := order.compareRows_swap second.2 first.2
      rcases before with less | ⟨same, less⟩
      · rw [less] at swapped
        simp [swapped] at back
      · rw [same] at swapped
        have ids := Std.OrientedCmp.gt_of_lt less
        simp [swapped, ids] at back

theorem cut_map {α β : Type} (query : Query) (items : List α) (f : α → β) :
    query.cut (items.map f) = (query.cut items).map f := by
  unfold cut
  cases query.effectiveLimit with
  | none => rfl
  | some limit => exact List.map_take.symm

end Query

namespace Rows

variable {ρ : Type} [Record ρ] {rows : Rows} {query : Query} {listed others : List (RecordId × Row)}

theorem Selects.nodup (selects : Selects ρ rows query listed) : listed.Nodup := by
  refine selects.ordered.imp ?_
  rintro entry _ precedes rfl
  exact query.not_precedes_self entry precedes

theorem Selects.unique (first : Selects ρ rows query listed)
    (second : Selects ρ rows query others) : listed = others := by
  have same : listed.Perm others := by
    rw [List.perm_ext_iff_of_nodup first.nodup second.nodup]
    rintro ⟨id, row⟩
    rw [first.mem, second.mem]
  refine same.eq_of_pairwise ?_ first.ordered second.ordered
  intro entry other _ _ before back
  exact absurd back (Query.not_precedes_back before)

theorem selects_listing_any (rows : Rows) (query : Query) :
    Selects ρ rows query (listing ρ rows query) :=
  selects_listing fun order => order.ordersAmong_any _

theorem Selects.find_eq (selects : Selects ρ rows query listed) (target : List ρ) :
    rows.find target query = (liveRows ρ (rows.matching query.filter)).bind fun _ =>
      ((query.cut listed).mapM fun entry =>
        populate (Record.blank : ρ) (query.project entry.2)).map (target ++ ·) := by
  obtain rfl := selects.unique (selects_listing_any rows query)
  have mapped : (query.cut ((listing ρ rows query).map (·.2))).mapM (fun row =>
      populate (Record.blank : ρ) (query.project row)) =
      (query.cut (listing ρ rows query)).mapM fun entry =>
        populate (Record.blank : ρ) (query.project entry.2) := by
    rw [query.cut_map, List.mapM_map]
    rfl
  rw [find, select_eq_map, ← mapped]
  cases liveRows ρ (rows.matching query.filter) with
  | error failure => rfl
  | ok live =>
      change (Except.bind _ fun found => .ok (target ++ found)) = Except.map _ _
      cases List.mapM (fun row => populate (Record.blank : ρ) (query.project row)) _ <;> rfl

/--
Rows are totally preordered by any column, whatever they hold there, up and down. So the entries of
a query with an order, on any rows, stand in one order only, and the records that it finds are
theirs.
-/
theorem find_totally_ordered (order : SortOrder) :
    (∀ a, order.compareRows a a = .eq) ∧
    (∀ a b, order.compareRows a b = (order.compareRows b a).swap) ∧
    (∀ a b c, order.compareRows a b ≠ .gt → order.compareRows b c ≠ .gt →
      order.compareRows a c ≠ .gt) ∧
    ∀ (rows : Rows) (query : Query), query.order = some order →
      ∃ listed, Selects ρ rows query listed ∧
        (∀ others, Selects ρ rows query others → others = listed) ∧
        ∀ target : List ρ,
          rows.find target query = (liveRows ρ (rows.matching query.filter)).bind fun _ =>
            ((query.cut listed).mapM fun entry =>
              populate (Record.blank : ρ) (query.project entry.2)).map (target ++ ·) := by
  refine ⟨order.compareRows_self, order.compareRows_swap, ?_, ?_⟩
  · intro a b c first second
    rw [ne_eq, ← Ordering.isLE_iff_ne_gt] at first second ⊢
    exact Std.TransCmp.isLE_trans first second
  · intro rows query _
    have selects := selects_listing_any (ρ := ρ) rows query
    exact ⟨_, selects, fun others given => given.unique selects, selects.find_eq⟩

def oneColumn (value : Json) : Row := ⟨[("value", value)]⟩

def mixedRows : Rows :=
  ((Std.TreeMap.empty.insert ⟨"a"⟩ (oneColumn (.bool true))).insert ⟨"b"⟩
    (oneColumn (.ofInt 10))).insert ⟨"c"⟩ (oneColumn (.string "9"))

def byValue : Query := ⟨.all, some ⟨"value", true⟩, some 2, none⟩

theorem find_totally_ordered_mixed :
    (SortOrder.compareRows ⟨"value", true⟩ (oneColumn (.bool true)) (oneColumn (.ofInt 10)) = .lt ∧
      SortOrder.compareRows ⟨"value", true⟩ (oneColumn (.ofInt 10)) (oneColumn (.string "9")) =
        .lt ∧
      SortOrder.compareRows ⟨"value", true⟩ (oneColumn (.bool true)) (oneColumn (.string "9")) ≠
        .gt) ∧
    ∃ listed, Selects LooseRecord mixedRows byValue listed ∧
      ∀ others, Selects LooseRecord mixedRows byValue others → others = listed := by
  obtain ⟨_, _, passes, lists⟩ := find_totally_ordered (ρ := LooseRecord) ⟨"value", true⟩
  have first : SortOrder.compareRows ⟨"value", true⟩ (oneColumn (.bool true))
      (oneColumn (.ofInt 10)) = .lt := by decide +kernel
  have second : SortOrder.compareRows ⟨"value", true⟩ (oneColumn (.ofInt 10))
      (oneColumn (.string "9")) = .lt := by decide +kernel
  obtain ⟨listed, selects, only, _⟩ := lists mixedRows byValue rfl
  have across := passes (oneColumn (.bool true)) (oneColumn (.ofInt 10)) (oneColumn (.string "9"))
    (by rw [first]; decide) (by rw [second]; decide)
  exact ⟨⟨first, second, across⟩, listed, selects, only⟩

end Rows

end CachedStore
