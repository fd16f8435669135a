import Mathlib.Data.List.TakeWhile
import CachedStore.Proofs.Service.Dispatch
import CachedStore.Proofs.Text.PercentRoundTrip

/-!
How documents are addressed. Their identities are written as segments of paths, and a fixed place
with the same path hides a document.
-/

namespace CachedStore

/-! Segments that are written for an identity -/

namespace Percent

variable {text other : String}

theorem encodeSegment_injective (same : encodeSegment text = encodeSegment other) :
    text = other := by
  have read := decodeSegment?_encodeSegment text
  rw [same, decodeSegment?_encodeSegment] at read
  exact (Option.some.inj read).symm

theorem isSegmentChar_of_mem {c : Char} (member : c ∈ encodeSegment text) :
    isSegmentChar c = true ∨ c = '%' := by
  obtain ⟨letter, _, written⟩ := List.mem_flatMap.mp member
  unfold encodeChar at written
  split at written
  next plain =>
    obtain rfl := List.mem_singleton.mp written
    exact .inl plain
  next =>
    obtain ⟨byte, _, digit⟩ := List.mem_flatMap.mp written
    have small : byte.toNat < 256 := byte.toNat_lt
    rw [encodeByte, List.mem_cons, List.mem_pair] at digit
    rcases digit with percent | rfl | rfl
    · exact .inr percent
    · exact .inl (isSegmentChar_hexDigit (by omega))
    · exact .inl (isSegmentChar_hexDigit (by omega))

theorem plain_of_mem {c : Char} (member : c ∈ encodeSegment text) :
    Target.isPathChar c = true ∧ c ≠ '/' ∧ c ≠ '?' ∧ c ≠ '#' := by
  have known : ∀ code < 128, isSegmentChar (Char.ofNat code) = true →
      Target.isPathChar (Char.ofNat code) = true ∧ Char.ofNat code ≠ '/' ∧
        Char.ofNat code ≠ '?' ∧ Char.ofNat code ≠ '#' := by
    decide +kernel
  rcases isSegmentChar_of_mem member with plain | rfl
  · have ascii := known c.toNat (toNat_of_isSegmentChar plain)
    rw [Char.ofNat_toNat] at ascii
    exact ascii plain
  · decide

end Percent

/-! Targets -/

namespace Target

theorem parsePath?_of_plain {path : List Char}
    (plain : ∀ c ∈ path, isPathChar c = true ∧ c ≠ '?' ∧ c ≠ '#') :
    parsePath? path = some ⟨path, []⟩ := by
  have whole : path.takeWhile (· != '#') = path :=
    List.takeWhile_eq_self_iff.mpr fun c member => by simpa using (plain c member).2.2
  have front : path.takeWhile (· != '?') = path :=
    List.takeWhile_eq_self_iff.mpr fun c member => by simpa using (plain c member).2.1
  have back : path.dropWhile (· != '?') = [] :=
    List.dropWhile_eq_nil_iff.mpr fun c member => by simpa using (plain c member).2.1
  have proper : path.all isPathChar = true :=
    List.all_eq_true.mpr fun c member => (plain c member).1
  simp only [parsePath?, whole, front, back, proper, List.drop_nil, List.all_nil, Bool.and_self,
    ↓reduceIte]

end Target

namespace Endpoint

theorem ne_nil_of_ofSegment? {segment other : List Char}
    (place : ofSegment? segment = some (.document other)) : other ≠ [] := by
  unfold ofSegment? at place
  split_ifs at place with ensure existence missing
  · cases place
  · cases place
  · obtain rfl := document.inj (Option.some.inj place)
    exact fun empty => missing (.inl empty)

theorem ne_nil_of_ofPath? {path segment : List Char}
    (place : ofPath? path = some (.document segment)) : segment ≠ [] := by
  unfold ofPath? at place
  split_ifs at place
  · cases place
  · cases place
  · cases place
  · exact ne_nil_of_ofSegment? place

end Endpoint

namespace Service

def documentPath (id : RecordId) : List Char :=
  "/documents/".toList ++ Percent.encodeSegment id.text

def documentTarget (id : RecordId) : String := String.ofList (documentPath id)

variable {id : RecordId}

theorem parse?_documentTarget :
    Target.parse? (documentTarget id) =
      if Target.longest < (documentTarget id).utf8ByteSize then none
      else some ⟨documentPath id, []⟩ := by
  have plain : ∀ c ∈ documentPath id, Target.isPathChar c = true ∧ c ≠ '?' ∧ c ≠ '#' := by
    intro c member
    rcases List.mem_append.mp member with root | segment
    · have known : "/documents/".toList.all (fun c =>
          decide (Target.isPathChar c = true ∧ c ≠ '?' ∧ c ≠ '#')) = true := by decide +kernel
      exact of_decide_eq_true (List.all_eq_true.mp known c root)
    · obtain ⟨proper, _, query, fragment⟩ := Percent.plain_of_mem segment
      exact ⟨proper, query, fragment⟩
  have read := Target.parsePath?_of_plain plain
  unfold Target.parse?
  split
  · rfl
  · rw [documentTarget, String.toList_ofList]
    exact read

/-! Handlers that are reached -/

/-- The service answers the request as the call does, and does nothing else. -/
def AnswersAs (request : HttpRequest) (call : Call) : Prop :=
  ∀ repository, answer repository request =
    (call.activity repository).bind fun response => .done (dress request response)

theorem answersAs_of_dispatch {request : HttpRequest} {call : Call}
    (calls : dispatch request = .ok call) : AnswersAs request call := by
  intro repository
  rw [answer_eq, calls]
  rfl

structure Serves (path : List Char) (id : RecordId) : Prop where
  get : ∀ (query : List Char) (contentType : Option String) (body : String),
    AnswersAs ⟨"GET", ⟨path, query⟩, contentType, body⟩ (.getDocument id)
  put : ∀ (query : List Char) (contentType : Option String) (body : String)
    (update : UpdateRequest),
    readBody ⟨"PUT", ⟨path, query⟩, contentType, body⟩ UpdateRequest.fields
      UpdateRequest.ofJson? = .ok update →
    AnswersAs ⟨"PUT", ⟨path, query⟩, contentType, body⟩ (.updateDocument id update)
  delete : ∀ (query : List Char) (contentType : Option String) (body : String) (soft : Bool),
    readQuery ⟨"DELETE", ⟨path, query⟩, contentType, body⟩ readSoft? = .ok soft →
    AnswersAs ⟨"DELETE", ⟨path, query⟩, contentType, body⟩ (.deleteDocument id soft)

/-- A client can write the path of the document, and is served there. -/
def Addressed (id : RecordId) : Prop :=
  ∃ path, Target.parse? (documentTarget id) = some ⟨path, []⟩ ∧ Serves path id

section Places

variable {path segment : List Char} {request : HttpRequest}

theorem dispatch_of_place {endpoint : Endpoint}
    (place : Endpoint.ofPath? request.target.path = some endpoint)
    (taken : request.method ∈ endpoint.methods) (asks : request.method ≠ "OPTIONS") :
    dispatch request = callAt endpoint request := by
  have listed : endpoint.methods.contains request.method = true := by simpa using taken
  simp only [dispatch, place, asks, listed, ↓reduceIte]

theorem callAt_get (asks : request.method = "GET") :
    callAt (.document segment) request = (readId segment).map .getDocument := by
  have put : ¬ request.method = "PUT" := by simp [asks]
  have delete : ¬ request.method = "DELETE" := by simp [asks]
  simp only [callAt]

theorem callAt_put (asks : request.method = "PUT") :
    callAt (.document segment) request = (readId segment).bind fun id =>
      (readBody request UpdateRequest.fields UpdateRequest.ofJson?).map (.updateDocument id) := by
  simp only [callAt, asks]

theorem callAt_delete (asks : request.method = "DELETE") :
    callAt (.document segment) request = (readId segment).bind fun id =>
      (readQuery request readSoft?).map (.deleteDocument id) := by
  simp only [callAt, asks]

theorem serves_of_place (place : Endpoint.ofPath? path = some (.document segment))
    (reads : Percent.decodeSegment? segment = some id.text) : Serves path id := by
  have read : readId segment = .ok id := by
    rw [readId, reads]
    rfl
  have methods : Endpoint.methods (.document segment) = ["GET", "HEAD", "PUT", "DELETE"] := rfl
  constructor
  case get =>
    intro query contentType body
    apply answersAs_of_dispatch
    rw [dispatch_of_place place (by simp [methods]) (by simp), callAt_get rfl, read]
    rfl
  case put =>
    intro query contentType body update given
    apply answersAs_of_dispatch
    rw [dispatch_of_place place (by simp [methods]) (by simp), callAt_put rfl, read, Except.bind,
      given]
    rfl
  case delete =>
    intro query contentType body soft given
    apply answersAs_of_dispatch
    rw [dispatch_of_place place (by simp [methods]) (by simp), callAt_delete rfl, read,
      Except.bind, given]
    rfl

end Places

theorem written_of_readId {path segment : List Char}
    (place : Endpoint.ofPath? path = some (.document segment)) (read : readId segment = .ok id) :
    id.isEmpty = false := by
  have bytes := Percent.decodeBytes_ne_nil (Utf8.encode_ne_nil (Endpoint.ne_nil_of_ofPath? place))
  have filled := Utf8.decode?_ne_empty bytes
  unfold readId Percent.decodeSegment? at read
  cases decoded : Utf8.decode? (Percent.decodeBytes (Utf8.encode segment)) with
  | none => simp [decoded] at read
  | some text =>
      obtain rfl : RecordId.mk text = id := by simpa [decoded] using read
      have written : text ≠ "" := by
        rintro rfl
        exact filled decoded
      simpa [RecordId.isEmpty] using written

theorem ofPath?_document (segment : List Char) :
    Endpoint.ofPath? ("/documents/".toList ++ segment) = Endpoint.ofSegment? segment := by
  have long : ∀ fixed : List Char, fixed.length < 11 → "/documents/".toList ++ segment ≠ fixed := by
    rintro fixed short rfl
    rw [List.length_append] at short
    exact absurd short (by simp)
  have behind : "/documents/".toList.isPrefixOf ("/documents/".toList ++ segment) = true :=
    List.isPrefixOf_iff_prefix.mpr (List.prefix_append _ _)
  have rest : ("/documents/".toList ++ segment).drop "/documents/".length = segment :=
    List.drop_left' rfl
  rw [Endpoint.ofPath?, if_neg (long _ (by decide)), if_neg (long _ (by decide)),
    if_neg (long _ (by decide)), if_pos behind, rest]

theorem ofSegment?_encodeSegment {text : String} (written : text ≠ "") (ensure : text ≠ "ensure")
    (existence : text ≠ "exists") :
    Endpoint.ofSegment? (Percent.encodeSegment text) =
      some (.document (Percent.encodeSegment text)) := by
  have unlike : ∀ other, text ≠ other → Percent.encodeSegment text ≠ Percent.encodeSegment other :=
    fun other different same => different (Percent.encodeSegment_injective same)
  have single : '/' ∉ Percent.encodeSegment text := fun member =>
    (Percent.plain_of_mem member).2.1 rfl
  have named : ¬ (Percent.encodeSegment text = [] ∨ '/' ∈ Percent.encodeSegment text) :=
    not_or.mpr ⟨unlike "" written, single⟩
  unfold Endpoint.ofSegment?
  rw [if_neg, if_neg, if_neg named]
  · exact unlike "exists" existence
  · exact unlike "ensure" ensure

def firstStatus (activity : Activity State HttpResponse) : Nat :=
  (activity.runOn ((dayVisit "GET" "/" "" "").clock Instant.mk) 0 firstState).1.status

theorem not_addressed_of_fixed (fixed : id.text = "ensure" ∨ id.text = "exists") :
    ¬ Addressed id := by
  rintro ⟨path, read, serves⟩
  obtain rfl : documentPath id = path := by
    rw [parse?_documentTarget] at read
    split at read
    · cases read
    · exact congrArg Target.path (Option.some.inj read)
  have same := congrArg firstStatus (serves.get [] none "" Settings.standard.repository)
  revert same
  obtain ⟨text⟩ := id
  -- The document is not found, but the fixed places refuse the method or miss a name.
  rcases fixed with rfl | rfl
  · decide +kernel
  · decide +kernel

/--
Of the documents that can be created, those are addressed whose identity is no name of a fixed place
and whose target is not too long to be read.
-/
theorem addressed_iff {request : CreateRequest} (valid : request.fault? = none)
    (given : request.document.id = some id) :
    Addressed id ↔ id.text ≠ "ensure" ∧ id.text ≠ "exists" ∧
      (documentTarget id).utf8ByteSize ≤ Target.longest := by
  have written : id.text ≠ "" := by
    intro empty
    obtain ⟨text, chosen, rfl⟩ := Option.map_eq_some_iff.mp given
    obtain rfl : text = "" := empty
    rw [CreateRequest.fault?, chosen, if_pos (by decide)] at valid
    cases valid
  constructor
  · intro addressed
    refine ⟨fun ensure => not_addressed_of_fixed (.inl ensure) addressed,
      fun existence => not_addressed_of_fixed (.inr existence) addressed, ?_⟩
    obtain ⟨path, read, _⟩ := addressed
    rw [parse?_documentTarget] at read
    split at read
    · cases read
    · omega
  · rintro ⟨ensure, existence, short⟩
    refine ⟨documentPath id, ?_, ?_⟩
    · rw [parse?_documentTarget, if_neg (Nat.not_lt.mpr short)]
    · have place : Endpoint.ofPath? (documentPath id) =
          some (.document (Percent.encodeSegment id.text)) :=
        (ofPath?_document _).trans (ofSegment?_encodeSegment written ensure existence)
      exact serves_of_place place (Percent.decodeSegment?_encodeSegment id.text)

def slashed : CreateRequest := ⟨some "a/b é", "x", ""⟩

theorem addressed_iff_slashed :
    slashed.fault? = none ∧ slashed.document.id = some ⟨"a/b é"⟩ ∧
      documentTarget ⟨"a/b é"⟩ = "/documents/a%2Fb%20%C3%A9" ∧ Addressed ⟨"a/b é"⟩ := by
  have valid : slashed.fault? = none := by decide +kernel
  have target : documentTarget ⟨"a/b é"⟩ = "/documents/a%2Fb%20%C3%A9" := by decide +kernel
  have addressed := (addressed_iff valid rfl).mpr
    ⟨by decide, by decide, by rw [target]; decide⟩
  exact ⟨valid, rfl, target, addressed⟩

/--
A document is created with the name of a fixed place for its identity. It is asked for, its content
is to be changed, and it is to be deleted.
-/
def hiddenVisits : List Visit :=
  [dayVisit "POST" "/documents" "" "\x7b\"id\": \"ensure\", \"name\": \"x\"\x7d",
    dayVisit "GET" "/documents/ensure" "" "",
    dayVisit "PUT" "/documents/ensure" "" "\x7b\"name\": \"y\", \"content\": \"1\"\x7d",
    dayVisit "DELETE" "/documents/ensure" "" ""]

def afterHidden : List HttpResponse × State × Nat :=
  runVisits Settings.standard.repository Instant.mk hiddenVisits 0 firstState

/-- It can neither be read nor deleted, and what is to change it creates another document. -/
theorem created_not_addressed :
    Settings.standard.start (.create none) = .ok firstState ∧
      (⟨some "ensure", "x", ""⟩ : CreateRequest).fault? = none ∧
      hiddenVisits.map (fun visit => (dispatch visit.request).toOption) =
        [some (.createDocument .strict ⟨some "ensure", "x", ""⟩), none,
          some (.ensureDocument ⟨none, "y", "1"⟩), none] ∧
      afterHidden.1.map (·.status) = [201, 405, 200, 405] ∧
      afterHidden.2.1.store.rows.keys = [⟨"a"⟩, ⟨"ensure"⟩] ∧
      Target.parse? (documentTarget ⟨"ensure"⟩) = some ⟨"/documents/ensure".toList, []⟩ ∧
      ¬ Addressed ⟨"ensure"⟩ := by
  have valid : (⟨some "ensure", "x", ""⟩ : CreateRequest).fault? = none := by decide +kernel
  have calls : hiddenVisits.map (fun visit => (dispatch visit.request).toOption) =
      [some (.createDocument .strict ⟨some "ensure", "x", ""⟩), none,
        some (.ensureDocument ⟨none, "y", "1"⟩), none] := by decide +kernel
  have answers : afterHidden.1.map (·.status) = [201, 405, 200, 405] := by decide +kernel
  have stored : afterHidden.2.1.store.rows.keys = [⟨"a"⟩, ⟨"ensure"⟩] := by decide +kernel
  have target : Target.parse? (documentTarget ⟨"ensure"⟩) =
      some ⟨"/documents/ensure".toList, []⟩ := by decide +kernel
  exact ⟨rfl, valid, calls, answers, stored, target, not_addressed_of_fixed (.inl rfl)⟩

end Service

end CachedStore
