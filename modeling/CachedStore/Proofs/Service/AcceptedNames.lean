import Mathlib.Algebra.Order.BigOperators.Group.List
import Mathlib.Algebra.Order.Ring.Nat
import CachedStore.Proofs.Activity.Clocked
import CachedStore.Service.Answer
import CachedStore.Settings

/-!
The names that the service takes. A name is refused as too long by its bytes, though the refusal
counts characters, so that names beyond plain ASCII may be refused that are within what is
announced. Creates, conditional creates and updates refuse the same names.
-/

namespace CachedStore

/-! The size of a text -/

namespace Text

variable {text : String}

def HasInk (text : String) : Prop := ∃ c ∈ text.toList, isBlank c = false

theorem allBlank_eq_false_iff : allBlank text = false ↔ HasInk text := by
  simp [allBlank, HasInk, List.all_eq_false]

theorem utf8ByteSize_eq_sum (text : String) :
    text.utf8ByteSize = (text.toList.map Char.utf8Size).sum := by
  suffices of_list : ∀ chars : List Char,
      (String.ofList chars).utf8ByteSize = (chars.map Char.utf8Size).sum by
    rw [← of_list, String.ofList_toList]
  intro chars
  induction chars with
  | nil => rfl
  | cons c rest ih =>
      rw [String.ofList_cons, String.utf8ByteSize_append, String.utf8ByteSize_singleton, ih]
      rfl

theorem length_le_utf8ByteSize (text : String) : text.length ≤ text.utf8ByteSize := by
  have one : ∀ size ∈ text.toList.map Char.utf8Size, 1 ≤ size := by
    intro size member
    obtain ⟨c, _, rfl⟩ := List.mem_map.mp member
    exact c.utf8Size_pos
  calc
    text.length = (text.toList.map Char.utf8Size).length := by
      rw [List.length_map, String.length_toList]
    _ ≤ text.utf8ByteSize := by
      rw [utf8ByteSize_eq_sum]
      exact List.length_le_sum_of_one_le _ one

theorem utf8ByteSize_le (text : String) : text.utf8ByteSize ≤ text.length * 4 := by
  have four : ∀ size ∈ text.toList.map Char.utf8Size, size ≤ 4 := by
    intro size member
    obtain ⟨c, _, rfl⟩ := List.mem_map.mp member
    exact c.utf8Size_le_four
  have bounded := List.sum_le_card_nsmul _ 4 four
  rwa [← utf8ByteSize_eq_sum, List.length_map, String.length_toList, Nat.nsmul_eq_mul] at bounded

theorem utf8ByteSize_of_ascii (ascii : ∀ c ∈ text.toList, c.toNat < 128) :
    text.utf8ByteSize = text.length := by
  have one : ∀ size ∈ text.toList.map Char.utf8Size, size = 1 := by
    intro size member
    obtain ⟨c, present, rfl⟩ := List.mem_map.mp member
    have small := Nat.le_of_lt_succ (ascii c present)
    exact Char.utf8Size_eq_one_iff.mpr (UInt32.le_iff_toNat_le.mpr small)
  have summed := List.sum_eq_card_nsmul _ 1 one
  rwa [← utf8ByteSize_eq_sum, List.length_map, String.length_toList, Nat.nsmul_eq_mul,
    Nat.mul_one] at summed

end Text

/-! What is announced, and what is taken -/

/-- A name as the refusals describe it, which count its characters. -/
structure AnnouncedName (name : String) : Prop where
  shows : Text.HasInk name
  short : name.length ≤ longestName

theorem nameFault?_eq_none_iff {name : String} :
    nameFault? name = none ↔ AnnouncedName name ∧ name.utf8ByteSize ≤ longestName := by
  have counted := Text.length_le_utf8ByteSize name
  have shown : AnnouncedName name ↔ Text.allBlank name = false ∧ name.length ≤ longestName :=
    ⟨fun announced => ⟨Text.allBlank_eq_false_iff.mpr announced.shows, announced.short⟩,
      fun ⟨shows, short⟩ => ⟨Text.allBlank_eq_false_iff.mp shows, short⟩⟩
  rw [shown]
  unfold nameFault?
  split_ifs with blank long
  · simp [blank]
  · simp only [false_iff]
    omega
  · simp only [true_iff]
    exact ⟨⟨by simpa using blank, by omega⟩, by omega⟩

theorem nameFault?_of_wide {name : String} (shows : Text.HasInk name)
    (wide : longestName < name.utf8ByteSize) : nameFault? name = some .longName := by
  unfold nameFault?
  rw [Text.allBlank_eq_false_iff.mpr shows, if_neg (by decide), if_pos wide]

theorem not_ascii_of_wide {name : String} (long : longestName < name.utf8ByteSize)
    (short : name.length ≤ longestName) :
    longestName / 4 < name.length ∧ ∃ c ∈ name.toList, 128 ≤ c.toNat := by
  have bounded := Text.utf8ByteSize_le name
  refine ⟨by omega, ?_⟩
  by_contra ascii
  push Not at ascii
  have counted := Text.utf8ByteSize_of_ascii ascii
  omega

namespace CreateRequest

structure Announced (request : CreateRequest) : Prop where
  id : ∀ id ∈ request.id, Text.HasInk id
  name : AnnouncedName request.name

variable {request : CreateRequest}

theorem fault?_of_hasInk (shows : ∀ id ∈ request.id, Text.HasInk id) :
    request.fault? = nameFault? request.name := by
  have visible : request.id.any Text.allBlank = false := by
    cases given : request.id with
    | none => rfl
    | some id => exact Text.allBlank_eq_false_iff.mpr (shows id given)
  rw [fault?, visible]
  rfl

theorem fault?_eq_none_iff :
    request.fault? = none ↔ request.Announced ∧ request.name.utf8ByteSize ≤ longestName := by
  constructor
  · intro accepted
    have shows : ∀ id ∈ request.id, Text.HasInk id := by
      intro id given
      refine Text.allBlank_eq_false_iff.mp (Bool.eq_false_iff.mpr fun blank => ?_)
      rw [fault?, Option.mem_def.mp given, Option.any_some, if_pos blank] at accepted
      cases accepted
    rw [fault?_of_hasInk shows, nameFault?_eq_none_iff] at accepted
    exact ⟨⟨shows, accepted.1⟩, accepted.2⟩
  · rintro ⟨⟨shows, name⟩, short⟩
    rw [fault?_of_hasInk shows, nameFault?_eq_none_iff]
    exact ⟨name, short⟩

end CreateRequest

namespace UpdateRequest

structure Announced (request : UpdateRequest) : Prop where
  some_given : request.name.isSome ∨ request.content.isSome
  name : ∀ name ∈ request.name, AnnouncedName name

variable {request : UpdateRequest}

theorem fault?_of_name {name : String} (given : request.name = some name) :
    request.fault? = nameFault? name := by
  simp [fault?, given]

theorem fault?_eq_none_iff :
    request.fault? = none ↔
      request.Announced ∧ ∀ name ∈ request.name, name.utf8ByteSize ≤ longestName := by
  cases given : request.name with
  | none =>
      have announced : request.Announced ↔ request.content.isSome :=
        ⟨fun announced => by simpa [given] using announced.some_given,
          fun present => ⟨.inr present, by simp [given]⟩⟩
      rw [announced]
      cases content : request.content <;> simp [fault?, given, content]
  | some name =>
      have announced : request.Announced ↔ AnnouncedName name :=
        ⟨fun announced => announced.name name given,
          fun described => ⟨.inl (by simp [given]), by simpa [given] using described⟩⟩
      rw [fault?_of_name given, nameFault?_eq_none_iff, announced]
      simp

end UpdateRequest

/-! What the handlers refuse -/

namespace Service

def Refuses (response : HttpResponse) : Prop := response.status = 400

theorem not_refuses_ofFailure (failure : Failure) : ¬ Refuses (ofFailure failure) := by
  unfold Refuses ofFailure HttpResponse.json
  cases failure.kind <;> simp

theorem not_refuses_ofWritten {status : Nat} (differs : status ≠ 400) (written : Written Document) :
    ¬ Refuses (ofWritten status written) := by
  unfold ofWritten ofOutcome
  cases written.outcome with
  | error failure => exact not_refuses_ofFailure failure
  | ok done => exact differs

theorem gives_orRefuse {fault : Option RequestFault} {next : Activity State HttpResponse}
    (takes : next.Gives fun response => ¬ Refuses response) :
    (orRefuse fault next).Gives fun response => Refuses response ↔ fault ≠ none := by
  cases fault with
  | none => simpa [orRefuse] using takes
  | some fault => exact iff_of_true rfl (by simp)

/--
What is taken is what is announced, as long as the name has no more bytes than it may have
characters. A create and an update refuse a name alike, and whatever happens meanwhile, the handlers
refuse what they do not take and nothing else.
-/
theorem taken_iff (create : CreateRequest) (update : UpdateRequest) :
    (create.fault? = none ↔ create.Announced ∧ create.name.utf8ByteSize ≤ longestName) ∧
    (update.fault? = none ↔
      update.Announced ∧ ∀ name ∈ update.name, name.utf8ByteSize ≤ longestName) ∧
    ((∀ id ∈ create.id, Text.HasInk id) → update.name = some create.name →
      create.fault? = update.fault?) ∧
    (∀ name : String, longestName < name.utf8ByteSize → name.length ≤ longestName →
      longestName / 4 < name.length ∧ ∃ c ∈ name.toList, 128 ≤ c.toNat) ∧
    ∀ repository : Repository,
      (∀ policy, (createDocument repository policy create).Gives
        fun response => Refuses response ↔ create.fault? ≠ none) ∧
      ((ensureDocument repository create).Gives
        fun response => Refuses response ↔ create.fault? ≠ none) ∧
      ∀ id, (updateDocument repository id update).Gives
        fun response => Refuses response ↔ update.fault? ≠ none := by
  refine ⟨CreateRequest.fault?_eq_none_iff, UpdateRequest.fault?_eq_none_iff, ?_,
    fun _ => not_ascii_of_wide, fun repository => ⟨?_, ?_, ?_⟩⟩
  · intro shows named
    rw [CreateRequest.fault?_of_hasInk shows, UpdateRequest.fault?_of_name named]
  · exact fun policy => gives_orRefuse
      (.bind fun written => not_refuses_ofWritten (by decide) written)
  · exact gives_orRefuse (.bind fun written => not_refuses_ofWritten (by decide) written)
  · intro id
    refine gives_orRefuse (.bind fun loaded => ?_)
    cases loaded with
    | error failure => exact not_refuses_ofFailure failure
    | ok document => exact .bind fun written => not_refuses_ofWritten (by decide) written

def accented (count : Nat) : String := String.ofList (List.replicate count 'é')

theorem length_accented (count : Nat) : (accented count).length = count := by
  rw [accented, String.length_ofList, List.length_replicate]

theorem utf8ByteSize_accented (count : Nat) : (accented count).utf8ByteSize = count * 2 := by
  have two : Char.utf8Size 'é' = 2 := by decide
  rw [Text.utf8ByteSize_eq_sum, accented, String.toList_ofList, List.map_replicate,
    List.sum_replicate, two, Nat.nsmul_eq_mul]

theorem announcedName_accented {count : Nat} (positive : 0 < count) (short : count ≤ longestName) :
    AnnouncedName (accented count) := by
  have member : 'é' ∈ (accented count).toList := by
    rw [accented, String.toList_ofList]
    exact List.mem_replicate.mpr ⟨by omega, rfl⟩
  exact ⟨⟨'é', member, by decide⟩, by rwa [length_accented]⟩

/-- With 128 such letters a name fits exactly: the creates take it, and an update does as well. -/
theorem taken_iff_accented :
    (∀ id ∈ (none : Option String), Text.HasInk id) ∧
      (⟨none, accented 128, ""⟩ : CreateRequest).fault? = none ∧
      (⟨some (accented 128), none⟩ : UpdateRequest).fault? = none ∧
      ∀ id moment state, ¬ Refuses ((updateDocument Settings.standard.repository id
        ⟨some (accented 128), none⟩).run moment state).1 := by
  obtain ⟨creates, -, alike, -, handlers⟩ :=
    taken_iff ⟨none, accented 128, ""⟩ ⟨some (accented 128), none⟩
  have shows : ∀ id ∈ (none : Option String), Text.HasInk id := by simp
  have size : (accented 128).utf8ByteSize ≤ longestName := by
    rw [utf8ByteSize_accented]
    decide
  have name : AnnouncedName (accented 128) := announcedName_accented (by decide) (by decide)
  have taken : (⟨none, accented 128, ""⟩ : CreateRequest).fault? = none :=
    creates.mpr ⟨⟨shows, name⟩, size⟩
  have renames : (⟨some (accented 128), none⟩ : UpdateRequest).fault? = none :=
    (alike shows rfl).symm.trans taken
  obtain ⟨-, -, updates⟩ := handlers Settings.standard.repository
  generalize (⟨some (accented 128), none⟩ : UpdateRequest) = update at renames updates ⊢
  exact ⟨shows, taken, renames, fun id moment state refused =>
    ((updates id).run moment state).mp refused renames⟩

/-- With one letter more it is refused as having more than 256 characters, though it has 129. -/
theorem announced_not_taken :
    (⟨none, accented 129, ""⟩ : CreateRequest).Announced ∧
      (accented 129).length = 129 ∧ (accented 129).utf8ByteSize = 258 ∧
      (⟨none, accented 129, ""⟩ : CreateRequest).fault? = some .longName ∧
      RequestFault.longName.text = "Name exceeds maximum length of 256 characters" ∧
      (⟨some (accented 129), none⟩ : UpdateRequest).Announced ∧
      (⟨some (accented 129), none⟩ : UpdateRequest).fault? = some .longName := by
  have name : AnnouncedName (accented 129) := announcedName_accented (by decide) (by decide)
  have size : (accented 129).utf8ByteSize = 258 := utf8ByteSize_accented 129
  have refused : nameFault? (accented 129) = some .longName :=
    nameFault?_of_wide name.shows (by rw [size]; decide)
  have unnamed : ∀ id ∈ (none : Option String), Text.HasInk id := by simp
  refine ⟨⟨unnamed, name⟩, length_accented 129, size, ?_, by decide +kernel,
    ⟨.inl rfl, by simpa using name⟩, ?_⟩
  · rw [CreateRequest.fault?_of_hasInk unnamed, refused]
  · rw [UpdateRequest.fault?_of_name rfl, refused]

end Service

end CachedStore
