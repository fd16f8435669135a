import Mathlib.Data.String.Basic
import CachedStore.Record.Basic

/-!
The columns of rows: which value stands under a name after rows were built from one another.
-/

namespace CachedStore

namespace Row

variable {name other : String} {value : Json}

theorem lookup_place (name other : String) (value : Json) (members : List (String × Json)) :
    (place name value members).lookup other =
      if other = name then some value else members.lookup other := by
  induction members with
  | nil =>
      by_cases same : other = name
      · simp [place, same]
      · have skipped : (other == name) = false := by simpa using same
        simp [place, List.lookup_cons, same, skipped]
  | cons member rest ih =>
      obtain ⟨first, kept⟩ := member
      by_cases same : other = name
      · subst same
        by_cases equal : other = first
        · subst equal
          by_cases before : other < other <;> simp [place]
        · have skipped : (other == first) = false := by simpa using equal
          by_cases before : other < first
          · simp [place, before]
          · simp [place, before, equal, List.lookup_cons, skipped, ih]
      · have skipped : (other == name) = false := by simpa using same
        by_cases before : name < first
        · simp [place, before, same, skipped, List.lookup_cons]
        · by_cases equal : name = first
          · subst equal
            simp [place, List.lookup_cons, same, skipped]
          · simp [place, before, equal, List.lookup_cons, same, ih]

theorem get?_insert (row : Row) (name other : String) (value : Json) :
    (row.insert name value).get? other = if other = name then some value else row.get? other :=
  lookup_place name other value row.columns

theorem get?_empty (name : String) : empty.get? name = none := rfl

theorem get_insert_self (row : Row) (name : String) (value : Json) :
    (row.insert name value).get name = value := by
  simp [get, get?_insert]

theorem get?_withOptional (row : Row) (name other : String) (value : Option Json) :
    (row.withOptional name value).get? other =
      if other = name then value.or (row.get? other) else row.get? other := by
  cases value with
  | none => simp [withOptional]
  | some value => simp [withOptional, get?_insert]

def Sorted (row : Row) : Prop := row.columns.Pairwise (·.1 < ·.1)

theorem sorted_empty : empty.Sorted := List.Pairwise.nil

theorem mem_place {member : String × Json} {members : List (String × Json)}
    (belongs : member ∈ place name value members) : member = (name, value) ∨ member ∈ members := by
  induction members with
  | nil => simpa [place] using belongs
  | cons first rest ih =>
      obtain ⟨other, kept⟩ := first
      by_cases before : name < other
      · simpa [place, before] using belongs
      · by_cases same : name = other
        · rw [place, if_neg before, if_pos same] at belongs
          exact (List.mem_cons.mp belongs).imp id (List.mem_cons_of_mem _)
        · rw [place, if_neg before, if_neg same] at belongs
          rcases List.mem_cons.mp belongs with head | tail
          · exact Or.inr (head ▸ List.mem_cons_self)
          · exact (ih tail).imp id (List.mem_cons_of_mem _)

theorem pairwise_place {members : List (String × Json)}
    (sorted : members.Pairwise (·.1 < ·.1)) (name : String) (value : Json) :
    (place name value members).Pairwise (·.1 < ·.1) := by
  induction members with
  | nil => exact List.pairwise_singleton _ _
  | cons first rest ih =>
      obtain ⟨other, kept⟩ := first
      obtain ⟨above, tail⟩ := List.pairwise_cons.mp sorted
      by_cases before : name < other
      · rw [place, if_pos before]
        refine List.pairwise_cons.mpr ⟨fun member belongs => ?_, sorted⟩
        rcases List.mem_cons.mp belongs with rfl | later
        · exact before
        · exact lt_trans before (above member later)
      · by_cases same : name = other
        · rw [place, if_neg before, if_pos same]
          exact List.pairwise_cons.mpr ⟨fun member later => same ▸ above member later, tail⟩
        · rw [place, if_neg before, if_neg same]
          refine List.pairwise_cons.mpr ⟨fun member belongs => ?_, ih tail⟩
          rcases mem_place belongs with rfl | later
          · exact lt_of_le_of_ne (not_lt.mp before) (Ne.symm same)
          · exact above member later

theorem Sorted.insert {row : Row} (sorted : row.Sorted) (name : String) (value : Json) :
    (row.insert name value).Sorted := pairwise_place sorted name value

theorem Sorted.withOptional {row : Row} (sorted : row.Sorted) (name : String)
    (value : Option Json) : (row.withOptional name value).Sorted := by
  cases value with
  | none => exact sorted
  | some value => exact sorted.insert name value

theorem Sorted.names {row : Row} (sorted : row.Sorted) : (row.columns.map (·.1)).Nodup := by
  rw [List.Nodup, List.pairwise_map]
  exact sorted.imp fun before => ne_of_lt before

theorem get?_foldl_insert {columns : List (String × Json)} (once : (columns.map (·.1)).Nodup)
    (base : Row) (name : String) :
    (columns.foldl (fun row column => row.insert column.1 column.2) base).get? name =
      (columns.lookup name).or (base.get? name) := by
  induction columns generalizing base with
  | nil => rfl
  | cons column rest ih =>
      obtain ⟨first, value⟩ := column
      rw [List.map_cons, List.nodup_cons] at once
      rw [List.foldl_cons, ih once.2, get?_insert, List.lookup_cons]
      by_cases same : name = first
      · subst same
        have absent : rest.lookup name = none := by
          rw [List.lookup_eq_none_iff]
          intro other member
          simpa using fun equal : name = other.1 =>
            once.1 (List.mem_map.mpr ⟨other, member, equal.symm⟩)
        simp [absent]
      · have skipped : (name == first) = false := by simpa using same
        simp [same, skipped]

theorem get?_overlay {row : Row} (sorted : row.Sorted) (base : Row) (name : String) :
    (base.overlay row).get? name = (row.get? name).or (base.get? name) :=
  get?_foldl_insert sorted.names base name

end Row

end CachedStore
