import CachedStore.Proofs.Record.Lawful
import CachedStore.Store.Rows

/-!
Rows of named records: what every write keeps, and what a read by identity or by name gives. Names
are unique among all rows, deleted ones included, so that a read by name depends on one row.
-/

namespace CachedStore

theorem bind_eq_ok {ε α β : Type} {first : Except ε α} {next : α → Except ε β} {result : β} :
    first >>= next = .ok result ↔ ∃ value, first = .ok value ∧ next value = .ok result := by
  cases first with
  | error failure => simp [bind, Except.bind]
  | ok value => simp [bind, Except.bind]

theorem mapError_eq_ok {ε δ α : Type} {convert : ε → δ} {first : Except ε α} {result : α} :
    first.mapError convert = .ok result ↔ first = .ok result := by
  cases first <;> simp [Except.mapError]

theorem getElem?_insert_of_ne (rows : Rows) (row : Row) {id other : RecordId}
    (different : other ≠ id) : (rows.insert id row)[other]? = rows[other]? := by
  have differs : compare id other ≠ .eq := fun equal =>
    different (Std.compare_eq_iff_eq.mp equal).symm
  simp [Std.TreeMap.getElem?_insert, differs]

theorem getElem?_erase_of_ne (rows : Rows) {id other : RecordId} (different : other ≠ id) :
    (rows.erase id)[other]? = rows[other]? := by
  have differs : compare id other ≠ .eq := fun equal =>
    different (Std.compare_eq_iff_eq.mp equal).symm
  simp [Std.TreeMap.getElem?_erase, differs]

theorem getElem?_insert_cases {rows : Rows} {row another : Row} {id other : RecordId}
    (found : (rows.insert id row)[other]? = some another) :
    (other = id ∧ another = row) ∨ (other ≠ id ∧ rows[other]? = some another) := by
  by_cases same : other = id
  · subst same
    exact Or.inl ⟨rfl, by simpa [eq_comm] using found⟩
  · exact Or.inr ⟨same, (getElem?_insert_of_ne rows row same).symm.trans found⟩

namespace Rows

variable {ρ : Type} [Record ρ] {rows changed : Rows}

/-- Each row shows its identity and a name, and no two rows show the same name. -/
structure Named (rows : Rows) : Prop where
  sorted : ∀ {id : RecordId} {row : Row}, rows[id]? = some row → row.Sorted
  id : ∀ {id : RecordId} {row : Row}, rows[id]? = some row → row.get "id" = .string id.text
  name : ∀ {id : RecordId} {row : Row}, rows[id]? = some row →
    ∃ name, row.get "name" = .string name
  unique : ∀ {id other : RecordId} {row another : Row} {name : String},
    rows[id]? = some row → rows[other]? = some another → row.get "name" = .string name →
    another.get "name" = .string name → id = other

inductive Made (ρ : Type) [Record ρ] : Rows → Prop where
  | empty : Made ρ .empty
  | create {rows changed : Rows} (made : Made ρ rows) (record : ρ)
      (created : rows.create record = .ok changed) : Made ρ changed
  | update {rows changed : Rows} (made : Made ρ rows) (record : ρ)
      (updated : rows.update record = .ok changed) : Made ρ changed
  | delete {rows changed : Rows} (made : Made ρ rows) (record : ρ)
      (deleted : rows.delete record = .ok changed) : Made ρ changed

theorem requireId_eq_ok {record : ρ} {id : RecordId} :
    requireId record = .ok id ↔ Record.givenId? record = some id := by
  unfold requireId
  cases Record.givenId? record <;> simp

theorem id?_of_requireId {record : ρ} {id : RecordId} (required : requireId record = .ok id) :
    Record.id? record = some id :=
  (Option.filter_eq_some_iff.mp (requireId_eq_ok.mp required)).1

theorem keyIsTaken_iff {id : RecordId} {key : Filter} :
    keyIsTaken rows id key = true ↔ key.isEmpty = false ∧
      ∃ (other : RecordId) (row : Row), other ≠ id ∧ rows[other]? = some row ∧
        key.accepts row = true := by
  simp only [keyIsTaken, Bool.and_eq_true, Bool.not_eq_true', List.any_eq_true, Prod.exists,
    Std.TreeMap.mem_toList_iff_getElem?_eq_some, bne_iff_ne]
  refine and_congr_right fun _ => exists₂_congr fun other row => ?_
  exact ⟨fun ⟨stored, differs, meets⟩ => ⟨differs, stored, meets⟩,
    fun ⟨differs, stored, meets⟩ => ⟨stored, differs, meets⟩⟩

theorem rejected_of_not_taken {id other : RecordId} {key : Filter} {row : Row}
    (free : keyIsTaken rows id key = false) (given : key.isEmpty = false)
    (stored : rows[other]? = some row) (different : other ≠ id) : key.accepts row = false := by
  by_contra accepted
  have taken := keyIsTaken_iff.mpr ⟨given, other, row, different, stored, by simpa using accepted⟩
  rw [free] at taken
  cases taken

theorem checkKey_eq_ok {id : RecordId} {record : ρ} {answer : Unit} :
    checkKey rows id record = .ok answer ↔
      keyIsTaken rows id (Record.naturalKey record) = false := by
  unfold checkKey
  split <;> simp_all

/-! What the writes do -/

theorem create_eq_ok {record : ρ} (created : rows.create record = .ok changed) :
    ∃ id row, requireId record = .ok id ∧ Record.toRow record = .ok row ∧ rows[id]? = none ∧
      keyIsTaken rows id (Record.naturalKey record) = false ∧ changed = rows.insert id row := by
  obtain ⟨id, required, created⟩ := bind_eq_ok.mp created
  obtain ⟨row, shown, created⟩ := bind_eq_ok.mp created
  by_cases present : rows.contains id
  · simp only [present, ↓reduceIte] at created
    obtain ⟨_, impossible, _⟩ := bind_eq_ok.mp created
    cases impossible
  · simp only [present, Bool.false_eq_true, ↓reduceIte] at created
    obtain ⟨answer, checked, created⟩ := bind_eq_ok.mp created
    refine ⟨id, row, required, shown, ?_, checkKey_eq_ok.mp checked, (Except.ok.inj created).symm⟩
    simpa using present

theorem create_cases {record : ρ} {id : RecordId} {row : Row}
    (required : requireId record = .ok id) (shown : Record.toRow record = .ok row) :
    (rows[id]? = none ∧ keyIsTaken rows id (Record.naturalKey record) = false ∧
      rows.create record = .ok (rows.insert id row)) ∨
    ∃ failure, rows.create record = .error failure ∧ failure.isDuplicate = true ∧
      (rows[id]? = none → keyIsTaken rows id (Record.naturalKey record) = true) := by
  have unfolded : rows.create record = (do
      if rows.contains id then throw (Record.idTaken ρ id)
      checkKey rows id record
      return rows.insert id row) := by
    rw [Rows.create, required, shown]
    rfl
  rw [unfolded]
  by_cases present : rows.contains id
  · refine Or.inr ⟨Record.idTaken ρ id, ?_, rfl, fun missing => ?_⟩
    · simp only [present, ↓reduceIte]
      rfl
    · rw [Std.TreeMap.contains_eq_isSome_getElem?, missing] at present
      cases present
  · have missing : rows[id]? = none := by simpa using present
    cases taken : keyIsTaken rows id (Record.naturalKey record) with
    | true =>
        refine Or.inr ⟨Record.keyTaken ρ (Record.naturalKey record), ?_, rfl, fun _ => rfl⟩
        simp only [present, checkKey, taken, Bool.false_eq_true, ↓reduceIte]
        rfl
    | false =>
        refine Or.inl ⟨missing, rfl, ?_⟩
        simp only [present, checkKey, taken, Bool.false_eq_true, ↓reduceIte]
        rfl

theorem update_eq {record : ρ} {id : RecordId} {row : Row} (required : requireId record = .ok id)
    (shown : Record.toRow record = .ok row) :
    rows.update record =
      if rows.contains id then
        if keyIsTaken rows id (Record.naturalKey record) then
          .error (Record.keyTaken ρ (Record.naturalKey record))
        else .ok (rows.insert id row)
      else .error (Record.unknownId ρ id) := by
  have unfolded : rows.update record = (do
      if !rows.contains id then throw (Record.unknownId ρ id)
      checkKey rows id record
      return rows.insert id row) := by
    rw [Rows.update, required, shown]
    rfl
  rw [unfolded, checkKey]
  cases rows.contains id with
  | false => rfl
  | true => cases keyIsTaken rows id (Record.naturalKey record) <;> rfl

theorem update_eq_ok {record : ρ} (updated : rows.update record = .ok changed) :
    ∃ id row, requireId record = .ok id ∧ Record.toRow record = .ok row ∧
      keyIsTaken rows id (Record.naturalKey record) = false ∧ changed = rows.insert id row := by
  obtain ⟨id, required, updated⟩ := bind_eq_ok.mp updated
  obtain ⟨row, shown, updated⟩ := bind_eq_ok.mp updated
  by_cases present : rows.contains id
  · simp only [present, Bool.not_true, Bool.false_eq_true, ↓reduceIte] at updated
    obtain ⟨answer, checked, updated⟩ := bind_eq_ok.mp updated
    exact ⟨id, row, required, shown, checkKey_eq_ok.mp checked, (Except.ok.inj updated).symm⟩
  · simp only [present, Bool.not_false, ↓reduceIte] at updated
    obtain ⟨_, impossible, _⟩ := bind_eq_ok.mp updated
    cases impossible

theorem delete_eq_ok {record : ρ} (deleted : rows.delete record = .ok changed) :
    ∃ id, requireId record = .ok id ∧ changed = rows.erase id := by
  obtain ⟨id, required, deleted⟩ := bind_eq_ok.mp deleted
  by_cases present : rows.contains id
  · simp only [present, Bool.not_true, Bool.false_eq_true, ↓reduceIte] at deleted
    exact ⟨id, required, (Except.ok.inj deleted).symm⟩
  · simp only [present, Bool.not_false, ↓reduceIte] at deleted
    obtain ⟨_, impossible, _⟩ := bind_eq_ok.mp deleted
    cases impossible

/-- Rows that differ at most in what they have for an identity, not in whether they have it. -/
structure AlikeBut (id : RecordId) (rows changed : Rows) : Prop where
  others : ∀ other, other ≠ id → changed[other]? = rows[other]?
  present : changed.contains id = rows.contains id

theorem AlikeBut.refl (id : RecordId) (rows : Rows) : AlikeBut id rows rows :=
  ⟨fun _ _ => rfl, rfl⟩

theorem AlikeBut.symm {id : RecordId} (alike : AlikeBut id rows changed) :
    AlikeBut id changed rows :=
  ⟨fun other different => (alike.others other different).symm, alike.present.symm⟩

theorem AlikeBut.trans {id : RecordId} {last : Rows} (alike : AlikeBut id rows changed)
    (onward : AlikeBut id changed last) : AlikeBut id rows last :=
  ⟨fun other different => (onward.others other different).trans (alike.others other different),
    onward.present.trans alike.present⟩

theorem AlikeBut.keyIsTaken {id : RecordId} (alike : AlikeBut id rows changed) (key : Filter) :
    Rows.keyIsTaken changed id key = Rows.keyIsTaken rows id key := by
  refine Bool.eq_iff_iff.mpr ?_
  rw [keyIsTaken_iff, keyIsTaken_iff]
  refine and_congr_right fun _ => exists₂_congr fun other row => ?_
  exact and_congr_right fun different => by rw [alike.others other different]

theorem AlikeBut.update {record : ρ} {id : RecordId} (own : Record.id? record = some id)
    (updated : rows.update record = .ok changed) : AlikeBut id rows changed := by
  obtain ⟨other, row, required, shown, _, rfl⟩ := update_eq_ok updated
  obtain rfl : other = id := Option.some.inj ((id?_of_requireId required).symm.trans own)
  have present : rows.contains other = true := by
    by_contra missing
    rw [update_eq required shown, if_neg missing] at updated
    cases updated
  refine ⟨fun another different => getElem?_insert_of_ne rows row different, ?_⟩
  rw [present]
  simp

theorem AlikeBut.update_eq_error {record other : ρ} {id : RecordId} {failure : Failure}
    {row another : Row} (alike : AlikeBut id rows changed) (own : Record.id? record = some id)
    (same : Record.id? other = some id) (key : Record.naturalKey other = Record.naturalKey record)
    (shown : Record.toRow record = .ok row) (written : Record.toRow other = .ok another)
    (refused : rows.update record = .error failure) : changed.update other = .error failure := by
  have given : Record.givenId? other = Record.givenId? record := by
    rw [Record.givenId?, Record.givenId?, own, same]
  cases required : requireId record with
  | error reason =>
      have requires : requireId other = .error reason := by
        rw [← required, requireId, requireId, given]
      rw [Rows.update, required] at refused
      rw [Rows.update, requires]
      exact refused
  | ok known =>
      have requires : requireId other = .ok known := by rw [← required, requireId, requireId, given]
      obtain rfl : known = id := Option.some.inj ((id?_of_requireId required).symm.trans own)
      rw [update_eq required shown] at refused
      rw [update_eq requires written, alike.present, key, alike.keyIsTaken]
      split_ifs at refused ⊢ with contained taken
      · exact refused
      · exact refused

/-! What the writes keep -/

section Named

variable [NamedRecord ρ]

theorem named_empty : Named .empty where
  sorted stored := by simp at stored
  id stored := by simp at stored
  name stored := by simp at stored
  unique stored := by simp at stored

theorem Named.insert (named : rows.Named) {record : ρ} {id : RecordId} {row : Row}
    (required : requireId record = .ok id) (shown : Record.toRow record = .ok row)
    (free : keyIsTaken rows id (Record.naturalKey record) = false) :
    Named (rows.insert id row) := by
  have own : row.get "name" = .string (NamedRecord.name record) := NamedRecord.toRow_name shown
  -- No other row shows the name of the new one.
  have apart : ∀ {other : RecordId} {another : Row}, other ≠ id → rows[other]? = some another →
      another.get "name" ≠ .string (NamedRecord.name record) := by
    intro other another different found same
    rw [NamedRecord.naturalKey_eq] at free
    have rejected := rejected_of_not_taken free rfl found different
    simp [Filter.accepts, Filter.equals, same, Json.same] at rejected
  refine ⟨?_, ?_, ?_, ?_⟩
  · intro other another found
    rcases getElem?_insert_cases found with ⟨rfl, rfl⟩ | ⟨_, before⟩
    · exact NamedRecord.toRow_sorted shown
    · exact named.sorted before
  · intro other another found
    rcases getElem?_insert_cases found with ⟨rfl, rfl⟩ | ⟨_, before⟩
    · exact NamedRecord.toRow_id shown (id?_of_requireId required)
    · exact named.id before
  · intro other another found
    rcases getElem?_insert_cases found with ⟨rfl, rfl⟩ | ⟨_, before⟩
    · exact ⟨_, own⟩
    · exact named.name before
  · intro first second row another name found present shows equal
    rcases getElem?_insert_cases found with ⟨rfl, rfl⟩ | ⟨different, before⟩
    · rcases getElem?_insert_cases present with ⟨rfl, rfl⟩ | ⟨different, before⟩
      · rfl
      · exact absurd (equal.trans (shows.symm.trans own)) (apart different before)
    · rcases getElem?_insert_cases present with ⟨rfl, rfl⟩ | ⟨_, after⟩
      · exact absurd (shows.trans (equal.symm.trans own)) (apart different before)
      · exact named.unique before after shows equal

theorem Named.create (named : rows.Named) {record : ρ}
    (created : rows.create record = .ok changed) : changed.Named := by
  obtain ⟨id, row, required, shown, _, free, rfl⟩ := create_eq_ok created
  exact named.insert required shown free

theorem Named.update (named : rows.Named) {record : ρ}
    (updated : rows.update record = .ok changed) : changed.Named := by
  obtain ⟨id, row, required, shown, free, rfl⟩ := update_eq_ok updated
  exact named.insert required shown free

omit [NamedRecord ρ] in
theorem Named.delete (named : rows.Named) {record : ρ}
    (deleted : rows.delete record = .ok changed) : changed.Named := by
  obtain ⟨id, _, rfl⟩ := delete_eq_ok deleted
  have kept : ∀ {other : RecordId} {row : Row}, (rows.erase id)[other]? = some row →
      rows[other]? = some row := by
    intro other row found
    have different : other ≠ id := by
      rintro rfl
      simp at found
    exact (getElem?_erase_of_ne rows different).symm.trans found
  refine ⟨?_, ?_, ?_, ?_⟩
  · exact fun found => named.sorted (kept found)
  · exact fun found => named.id (kept found)
  · exact fun found => named.name (kept found)
  · exact fun found present => named.unique (kept found) (kept present)

theorem Made.named (made : Made ρ rows) : rows.Named := by
  induction made with
  | empty => exact named_empty
  | create _ record created ih => exact ih.create created
  | update _ record updated ih => exact ih.update updated
  | delete _ record deleted ih => exact ih.delete deleted

end Named

/-! What the reads give -/

theorem readByKey_congr (target : ρ) {id : RecordId} (same : changed[id]? = rows[id]?) :
    changed.readByKey target id = rows.readByKey target id := by
  unfold readByKey
  rw [same]

theorem populate_of_live {target record : ρ} {row : Row} {failure : Failure}
    (read : (do if ← isLive ρ row then populate target row else throw failure) =
      (.ok record : Except Failure ρ)) : populate target row = .ok record := by
  obtain ⟨live, _, read⟩ := bind_eq_ok.mp read
  split at read
  · exact read
  · cases read

theorem id?_of_readByKey [NamedRecord ρ] (named : rows.Named) {record : ρ} {id : RecordId}
    (read : rows.readByKey Record.blank id = .ok record) : Record.id? record = some id := by
  unfold readByKey at read
  cases stored : rows[id]? with
  | none =>
      rw [stored] at read
      cases read
  | some row =>
      rw [stored] at read
      exact NamedRecord.populate_id (named.sorted stored) (named.id stored) (populate_of_live read)

theorem matching_single {filter : Filter} {id : RecordId} {row : Row}
    (stored : rows[id]? = some row) (meets : filter.accepts row = true)
    (only : ∀ other another, rows[other]? = some another → filter.accepts another = true →
      other = id) : rows.matching filter = [row] := by
  let accepts : RecordId × Row → Bool := filter.accepts ∘ (·.2)
  have once : (rows.toList.filter accepts).Nodup := by
    refine List.Pairwise.filter _ (Std.TreeMap.distinct_keys_toList.imp ?_)
    rintro first second differ rfl
    exact differ Std.ReflCmp.compare_self
  have same : ∀ entry ∈ rows.toList.filter accepts, entry = (id, row) := by
    rintro ⟨other, another⟩ member
    obtain ⟨member, accepted⟩ := List.mem_filter.mp member
    have present := Std.TreeMap.mem_toList_iff_getElem?_eq_some.mp member
    obtain rfl := only other another present accepted
    exact Prod.ext rfl (Option.some.inj (present.symm.trans stored))
  have member : (id, row) ∈ rows.toList.filter accepts :=
    List.mem_filter.mpr ⟨Std.TreeMap.mem_toList_iff_getElem?_eq_some.mpr stored, meets⟩
  have single : rows.toList.filter accepts = [(id, row)] := by
    cases listed : rows.toList.filter accepts with
    | nil => simp [listed] at member
    | cons first rest =>
        rw [listed] at once same
        cases rest with
        | nil => rw [same first List.mem_cons_self]
        | cons second others =>
            have equal := (same first List.mem_cons_self).trans
              (same second (List.mem_cons_of_mem _ List.mem_cons_self)).symm
            simp [equal] at once
  have unfolded : rows.matching filter = (rows.toList.filter accepts).map (·.2) := by
    rw [matching, contents, List.filter_map]
  rw [unfolded, single, List.map_singleton]

theorem Named.accepts_name_iff (named : rows.Named) {id : RecordId} {row : Row} {name : String}
    (stored : rows[id]? = some row) :
    (Filter.equals "name" (.string name)).accepts row = true ↔ row.get "name" = .string name := by
  obtain ⟨own, shows⟩ := named.name stored
  simp [Filter.accepts, Filter.equals, shows, Json.same]

theorem Named.matching_name (named : rows.Named) {id : RecordId} {row : Row} {name : String}
    (stored : rows[id]? = some row) (shows : row.get "name" = .string name) :
    rows.matching (.equals "name" (.string name)) = [row] := by
  refine matching_single stored ?_ fun other another present accepted => ?_
  · exact (named.accepts_name_iff stored).mpr shows
  · exact (named.unique stored present shows ((named.accepts_name_iff present).mp accepted)).symm

theorem matching_none {filter : Filter}
    (rejects : ∀ (id : RecordId) (row : Row), rows[id]? = some row → filter.accepts row = false) :
    rows.matching filter = [] := by
  refine List.filter_eq_nil_iff.mpr fun row member => ?_
  obtain ⟨⟨id, _⟩, listed, rfl⟩ := List.mem_map.mp member
  have stored := Std.TreeMap.mem_toList_iff_getElem?_eq_some.mp listed
  simp [rejects id _ stored]

theorem firstLive_iff {listed : List Row} {row : Row} :
    firstLive ρ listed = .ok (some row) ↔
      ∃ before after, listed = before ++ row :: after ∧
        (∀ other ∈ before, isLive ρ other = .ok false) ∧ isLive ρ row = .ok true := by
  induction listed with
  | nil => simp [firstLive]
  | cons first rest ih =>
      constructor
      · intro found
        obtain ⟨live, alive, found⟩ := bind_eq_ok.mp found
        cases live with
        | true =>
            obtain rfl := Option.some.inj (Except.ok.inj found)
            exact ⟨[], rest, rfl, fun _ none => (by cases none), alive⟩
        | false =>
            obtain ⟨before, after, rfl, dead, aliveRow⟩ := ih.mp found
            refine ⟨first :: before, after, rfl, fun other member => ?_, aliveRow⟩
            rcases List.mem_cons.mp member with rfl | later
            · exact alive
            · exact dead other later
      · rintro ⟨before, after, parts, dead, alive⟩
        cases before with
        | nil =>
            obtain ⟨rfl, rfl⟩ := List.cons.inj parts
            exact bind_eq_ok.mpr ⟨true, alive, rfl⟩
        | cons other others =>
            obtain ⟨rfl, rfl⟩ := List.cons.inj parts
            refine bind_eq_ok.mpr ⟨false, dead first List.mem_cons_self, ?_⟩
            exact ih.mpr ⟨others, after, rfl,
              fun another member => dead another (List.mem_cons_of_mem _ member), alive⟩

theorem of_firstLive {listed : List Row} {row : Row}
    (found : firstLive ρ listed = .ok (some row)) : row ∈ listed ∧ isLive ρ row = .ok true := by
  obtain ⟨before, after, rfl, _, alive⟩ := firstLive_iff.mp found
  exact ⟨by simp, alive⟩

theorem Named.findOne_congr (named : rows.Named) (others : changed.Named) (target : ρ)
    {id : RecordId} {row : Row} {name : String} (stored : rows[id]? = some row)
    (shows : row.get "name" = .string name) (same : changed[id]? = rows[id]?) :
    changed.findOne target (.equals "name" (.string name)) =
      rows.findOne target (.equals "name" (.string name)) := by
  unfold findOne
  rw [named.matching_name stored shows, others.matching_name (same.trans stored) shows]

theorem id?_of_findOne [NamedRecord ρ] (named : rows.Named) {record : ρ} {name : String}
    (read : rows.findOne Record.blank (.equals "name" (.string name)) = .ok record) :
    ∃ id row, rows[id]? = some row ∧ row.get "name" = .string name ∧
      Record.id? record = some id := by
  obtain ⟨first, found, read⟩ := bind_eq_ok.mp read
  cases first with
  | none => cases read
  | some row =>
      obtain ⟨member, accepted⟩ := List.mem_filter.mp (of_firstLive found).1
      obtain ⟨⟨id, stored⟩, listed, rfl⟩ := List.mem_map.mp member
      have present := Std.TreeMap.mem_toList_iff_getElem?_eq_some.mp listed
      refine ⟨id, stored, present, (named.accepts_name_iff present).mp accepted, ?_⟩
      exact NamedRecord.populate_id (named.sorted present) (named.id present) read

end Rows

end CachedStore
