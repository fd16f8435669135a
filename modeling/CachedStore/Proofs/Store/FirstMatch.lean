import CachedStore.Proofs.Store.NamedRows

/-!
Which row a read by a filter gives: of the live rows that match, the one of the smallest identity.
-/

namespace CachedStore

theorem RecordId.not_lt_of_lt {id other : RecordId} (less : compare id other = .lt) :
    compare other id ≠ .lt := by
  intro greater
  have swapped : compare id other = (compare other id).swap := Std.OrientedOrd.eq_swap
  rw [less, greater] at swapped
  cases swapped

namespace Rows

variable {ρ : Type} [Record ρ] {rows : Rows} {filter : Filter}

def matchEntries (rows : Rows) (filter : Filter) : List (RecordId × Row) :=
  rows.toList.filter (filter.accepts ∘ (·.2))

theorem matching_eq (rows : Rows) (filter : Filter) :
    rows.matching filter = (rows.matchEntries filter).map (·.2) := by
  rw [matching, contents, List.filter_map, matchEntries]

theorem mem_matchEntries {id : RecordId} {row : Row} :
    (id, row) ∈ rows.matchEntries filter ↔ rows[id]? = some row ∧ filter.accepts row = true := by
  rw [matchEntries, List.mem_filter, Std.TreeMap.mem_toList_iff_getElem?_eq_some]
  rfl

theorem sorted_matchEntries (rows : Rows) (filter : Filter) :
    (rows.matchEntries filter).Pairwise fun first second => compare first.1 second.1 = .lt :=
  Std.TreeMap.ordered_keys_toList.filter _

theorem firstLive_matching_iff {row : Row} :
    firstLive ρ (rows.matching filter) = .ok (some row) ↔
      ∃ id, rows[id]? = some row ∧ filter.accepts row = true ∧ isLive ρ row = .ok true ∧
        ∀ (other : RecordId) (another : Row), rows[other]? = some another →
          filter.accepts another = true → compare other id = .lt →
          isLive ρ another = .ok false := by
  have sorted := sorted_matchEntries rows filter
  rw [matching_eq, firstLive_iff]
  constructor
  · rintro ⟨before, after, parts, dead, alive⟩
    obtain ⟨earlier, rest, entries, rfl, restParts⟩ := List.map_eq_append_iff.mp parts
    obtain ⟨⟨id, own⟩, later, rfl, rfl, rfl⟩ := List.map_eq_cons_iff.mp restParts
    rw [entries] at sorted
    have stored : (id, own) ∈ rows.matchEntries filter := by
      rw [entries]
      simp
    obtain ⟨present, accepted⟩ := mem_matchEntries.mp stored
    refine ⟨id, present, accepted, alive, fun other another found meets less => ?_⟩
    have member : (other, another) ∈ earlier ++ (id, own) :: later :=
      entries ▸ mem_matchEntries.mpr ⟨found, meets⟩
    rcases List.mem_append.mp member with sooner | onward
    · exact dead another (List.mem_map.mpr ⟨_, sooner, rfl⟩)
    · rcases List.mem_cons.mp onward with same | behind
      · obtain ⟨rfl, rfl⟩ := Prod.mk.inj same
        exact absurd less (RecordId.not_lt_of_lt less)
      · obtain ⟨_, tail, _⟩ := List.pairwise_append.mp sorted
        exact absurd less (RecordId.not_lt_of_lt ((List.pairwise_cons.mp tail).1 _ behind))
  · rintro ⟨id, present, accepted, alive, first⟩
    obtain ⟨earlier, later, entries⟩ :=
      List.append_of_mem (mem_matchEntries.mpr ⟨present, accepted⟩)
    rw [entries] at sorted ⊢
    refine ⟨earlier.map (·.2), later.map (·.2), by simp, ?_, alive⟩
    intro _ member
    obtain ⟨⟨other, another⟩, sooner, rfl⟩ := List.mem_map.mp member
    have belongs : (other, another) ∈ rows.matchEntries filter := by
      rw [entries]
      exact List.mem_append_left _ sooner
    obtain ⟨found, meets⟩ := mem_matchEntries.mp belongs
    have less := (List.pairwise_append.mp sorted).2.2 _ sooner _ List.mem_cons_self
    exact first other another found meets less

structure Matches (rows : Rows) (filter : Filter) {ρ : Type} [Record ρ] (id : RecordId)
    (record : ρ) : Prop where
  own : Record.id? record = some id
  stored : ∃ row, rows[id]? = some row ∧ filter.accepts row = true ∧ isLive ρ row = .ok true ∧
    populate Record.blank row = .ok record

def NoneBefore (ρ : Type) [Record ρ] (rows : Rows) (filter : Filter) (id : RecordId) : Prop :=
  ∀ other another, rows[other]? = some another → filter.accepts another = true →
    compare other id = .lt → isLive ρ another = .ok false

theorem Named.findOne_eq_ok [NamedRecord ρ] (named : rows.Named) {record : ρ} :
    rows.findOne Record.blank filter = .ok record ↔
      ∃ id, Matches rows filter id record ∧ NoneBefore ρ rows filter id := by
  constructor
  · intro read
    obtain ⟨first, found, read⟩ := bind_eq_ok.mp read
    cases first with
    | none => cases read
    | some row =>
        obtain ⟨id, stored, accepted, live, earlier⟩ := firstLive_matching_iff.mp found
        have own := NamedRecord.populate_id (named.sorted stored) (named.id stored) read
        exact ⟨id, ⟨own, row, stored, accepted, live, read⟩, earlier⟩
  · rintro ⟨id, ⟨_, row, stored, accepted, live, read⟩, earlier⟩
    have found := firstLive_matching_iff.mpr ⟨id, stored, accepted, live, earlier⟩
    rw [Rows.findOne, found]
    exact read

theorem Matches.findOne_iff [NamedRecord ρ] (named : rows.Named) {id : RecordId} {record : ρ}
    (matched : Matches rows filter id record) :
    rows.findOne Record.blank filter = .ok record ↔ NoneBefore ρ rows filter id := by
  rw [named.findOne_eq_ok]
  constructor
  · rintro ⟨other, found, earlier⟩
    obtain rfl := Option.some.inj (found.own.symm.trans matched.own)
    exact earlier
  · exact fun earlier => ⟨id, matched, earlier⟩

end Rows

end CachedStore
