import Std.Data.String.ToNat
import CachedStore.Proofs.Repository.Alone
import CachedStore.Proofs.Repository.Coherence
import CachedStore.Service.DocumentRequest

/-!
The cache keys of the service: a key stands for the read of one document, or for one listing.
-/

namespace CachedStore

def ListRequest.query (request : ListRequest) : Query :=
  { Query.all with order := request.order, limit := request.limit }

/-- What the keys of the service stand for. -/
inductive StandsFor : Key → CachedQuery → Prop where
  | document (id : RecordId) : StandsFor (Document.idKey id) (.byId id)
  | listing (request : ListRequest) (valid : request.fault? = none) :
    StandsFor request.cacheKey (.list request.query)

theorem Document.idKey_injective {id other : RecordId}
    (same : Document.idKey id = Document.idKey other) : id = other := by
  obtain ⟨text⟩ := id
  obtain ⟨another⟩ := other
  have lists := congrArg String.toList same
  simp only [Document.idKey, String.toList_append] at lists
  have equal : text = another := String.toList_inj.mp (List.append_cancel_left lists)
  rw [equal]

theorem ListRequest.toList_cacheKey (request : ListRequest) :
    request.cacheKey.toList = "document:list:".toList ++ ((request.column.getD "-").toList ++
      ':' :: ((if request.descending then "desc" else "asc").toList ++
        ':' :: (toString (request.limit.getD 0)).toList)) := by
  have colon : ":".toList = [':'] := rfl
  have parts : request.cacheKey = "document:list:" ++ request.column.getD "-" ++ ":" ++
      (if request.descending then "desc" else "asc") ++ ":" ++
      toString (request.limit.getD 0) := rfl
  simp only [parts, String.toList_append, colon, List.append_assoc, List.cons_append,
    List.nil_append]

theorem Document.idKey_ne_cacheKey (id : RecordId) (request : ListRequest) :
    Document.idKey id ≠ request.cacheKey := by
  intro same
  have lists := congrArg String.toList same
  have documents : "document:id:".toList =
      ['d', 'o', 'c', 'u', 'm', 'e', 'n', 't', ':', 'i', 'd', ':'] := rfl
  have listings : "document:list:".toList =
      ['d', 'o', 'c', 'u', 'm', 'e', 'n', 't', ':', 'l', 'i', 's', 't', ':'] := rfl
  rw [Document.idKey, String.toList_append, request.toList_cacheKey, documents, listings] at lists
  simp at lists

theorem cut_unique {first second rest others : List Char} {separator : Char}
    (left : separator ∉ first) (right : separator ∉ second)
    (same : first ++ separator :: rest = second ++ separator :: others) :
    first = second ∧ rest = others := by
  induction first generalizing second with
  | nil =>
      cases second with
      | nil => exact ⟨rfl, (List.cons.inj same).2⟩
      | cons head tail =>
          obtain ⟨rfl, _⟩ := List.cons.inj same
          exact absurd List.mem_cons_self right
  | cons head tail ih =>
      cases second with
      | nil =>
          obtain ⟨rfl, _⟩ := List.cons.inj same
          exact absurd List.mem_cons_self left
      | cons other remains =>
          obtain ⟨rfl, equal⟩ := List.cons.inj same
          obtain ⟨rfl, found⟩ := ih (fun member => left (List.mem_cons_of_mem _ member))
            (fun member => right (List.mem_cons_of_mem _ member)) equal
          exact ⟨rfl, found⟩

theorem ListRequest.column_of_valid {request : ListRequest} (valid : request.fault? = none) :
    request.column = none ∨ ∃ column ∈ orderColumns, request.column = some column := by
  unfold fault? at valid
  cases given : request.column with
  | none => exact Or.inl rfl
  | some column =>
      by_cases known : orderColumns.contains column
      · exact Or.inr ⟨column, by simpa using known, rfl⟩
      · simp [given] at valid
        exact absurd (by simpa using valid) known

theorem orderColumns_plain : ∀ column ∈ orderColumns, ':' ∉ column.toList ∧ column ≠ "-" := by
  decide

theorem ListRequest.eq_of_cacheKey {request other : ListRequest} (valid : request.fault? = none)
    (sound : other.fault? = none) (same : request.cacheKey = other.cacheKey) :
    request.order = other.order ∧ request.limit.getD 0 = other.limit.getD 0 := by
  have plain : ∀ {listing : ListRequest}, listing.fault? = none →
      ':' ∉ (listing.column.getD "-").toList := by
    intro listing valid
    rcases listing.column_of_valid valid with missing | ⟨column, known, given⟩
    · rw [missing]
      decide
    · rw [given]
      exact (orderColumns_plain column known).1
  have directions : ∀ descending : Bool,
      ':' ∉ (if descending then "desc" else "asc").toList := by decide
  have lists := congrArg String.toList same
  rw [request.toList_cacheKey, other.toList_cacheKey] at lists
  obtain ⟨columns, rest⟩ := cut_unique (plain valid) (plain sound) (List.append_cancel_left lists)
  obtain ⟨ways, limits⟩ := cut_unique (directions _) (directions _) rest
  have column : request.column = other.column := by
    have named := String.toList_inj.mp columns
    rcases request.column_of_valid valid with missing | ⟨column, known, given⟩
    · rcases other.column_of_valid sound with absent | ⟨another, known, given⟩
      · rw [missing, absent]
      · rw [missing, given] at named
        exact absurd named.symm (orderColumns_plain another known).2
    · rcases other.column_of_valid sound with absent | ⟨another, _, present⟩
      · rw [given, absent] at named
        exact absurd named (orderColumns_plain column known).2
      · rw [given, present] at named ⊢
        exact congrArg some named
  have way : request.descending = other.descending := by
    have named := String.toList_inj.mp ways
    revert named
    cases request.descending <;> cases other.descending <;> decide
  refine ⟨?_, Nat.repr_injective (String.toList_inj.mp limits)⟩
  rw [order, order, column, way]

theorem Query.effectiveLimit_congr {query other : Query}
    (same : query.limit.getD 0 = other.limit.getD 0) :
    query.effectiveLimit = other.effectiveLimit := by
  have effective : ∀ limit : Option Nat, limit.filter (0 < ·) =
      if limit.getD 0 = 0 then none else some (limit.getD 0) := by
    intro limit
    cases limit with
    | none => rfl
    | some limit =>
        by_cases zero : limit = 0
        · simp [zero]
        · simp [zero, Nat.pos_of_ne_zero zero]
  rw [effectiveLimit, effectiveLimit, effective, effective, same]

theorem ListRequest.find_eq_of_cacheKey {request other : ListRequest}
    (valid : request.fault? = none) (sound : other.fault? = none)
    (same : request.cacheKey = other.cacheKey) (rows : Rows) (target : List Document) :
    rows.find target request.query = rows.find target other.query := by
  obtain ⟨order, limit⟩ := eq_of_cacheKey valid sound same
  have limits : request.query.effectiveLimit = other.query.effectiveLimit :=
    Query.effectiveLimit_congr limit
  have orders : request.query.order = other.query.order := order
  simp only [Rows.find, Rows.select, limits, orders]
  rfl

theorem StandsFor.of_idKey {id : RecordId} {query : CachedQuery}
    (stands : StandsFor (Document.idKey id) query) : query = .byId id := by
  generalize named : Document.idKey id = key at stands
  cases stands with
  | document other => rw [Document.idKey_injective named]
  | listing request valid => exact absurd named (Document.idKey_ne_cacheKey id request)

theorem StandsFor.of_cacheKey {request : ListRequest} {query : CachedQuery}
    (valid : request.fault? = none) (stands : StandsFor request.cacheKey query) (rows : Rows) :
    (query.answer rows : Except Failure (Cached Document)) =
      (CachedQuery.list request.query).answer rows := by
  generalize named : request.cacheKey = key at stands
  cases stands with
  | document id => exact absurd named.symm (Document.idKey_ne_cacheKey id request)
  | listing other sound =>
      rw [CachedQuery.answer, CachedQuery.answer,
        ListRequest.find_eq_of_cacheKey valid sound named]

/-! What is read under a key -/

inductive CachedRead where
  | document (id : RecordId)
  | listing (request : ListRequest)

namespace CachedRead

def key : CachedRead → Key
  | document id => Document.idKey id
  | listing request => request.cacheKey

/-- A listing in an unknown order is refused before the cache is asked. -/
def IsValid : CachedRead → Prop
  | document _ => True
  | listing request => request.fault? = none

def load : CachedRead → Activity (MemoryStore Document) (Except Failure (Cached Document))
  | document id =>
    (MemoryStore.readByKey Record.blank id).bind fun read => .done (read.map .one)
  | listing request =>
    (MemoryStore.find [] request.query).bind fun found => .done (found.map .many)

end CachedRead

/--
The keys of the cache are sound. Valid listings that share a key are the same call on the store, the
key of a listing is no key of a document, and documents have keys of their own; so a key never
serves two reads that differ.
-/
theorem cacheKey_sound :
    (∀ request other : ListRequest, request.fault? = none → other.fault? = none →
      request.cacheKey = other.cacheKey →
      ∀ (target : List Document) (clock : Nat → Moment) (step : Nat)
        (store : MemoryStore Document),
        (MemoryStore.find target request.query).runOn clock step store =
          (MemoryStore.find target other.query).runOn clock step store) ∧
    (∀ (request : ListRequest) (id : RecordId), request.cacheKey ≠ Document.idKey id) ∧
    Function.Injective Document.idKey ∧
    ∀ read other : CachedRead, read.IsValid → other.IsValid → read.key = other.key →
      read.load = other.load := by
  have listings : ∀ request other : ListRequest, request.fault? = none → other.fault? = none →
      request.cacheKey = other.cacheKey → ∀ target : List Document,
        MemoryStore.find target request.query = MemoryStore.find target other.query := by
    intro request other valid sound same target
    have finds := ListRequest.find_eq_of_cacheKey valid sound same
    rw [MemoryStore.find, MemoryStore.find]
    exact congrArg _ (funext fun rows => finds rows target)
  refine ⟨?_, fun request id same => Document.idKey_ne_cacheKey id request same.symm,
    fun _ _ => Document.idKey_injective, ?_⟩
  · intro request other valid sound same target clock step store
    rw [listings request other valid sound same]
  · intro read other valid sound same
    cases read with
    | document id =>
        cases other with
        | document another => rw [Document.idKey_injective same]
        | listing request => exact absurd same (Document.idKey_ne_cacheKey id request)
    | listing request =>
        cases other with
        | document id => exact absurd same.symm (Document.idKey_ne_cacheKey id request)
        | listing another =>
            rw [CachedRead.load, CachedRead.load, listings request another valid sound same]

/-- No limit and a limit of zero share a key. -/
theorem cacheKey_sound_limits :
    let unlimited : ListRequest := ⟨some "created_at", true, none⟩
    let zero : ListRequest := ⟨some "created_at", true, some 0⟩
    unlimited.fault? = none ∧ zero.fault? = none ∧ unlimited.cacheKey = zero.cacheKey ∧
      unlimited.query.limit ≠ zero.query.limit ∧
      (CachedRead.listing unlimited).load = (CachedRead.listing zero).load := by
  intro unlimited zero
  have valid : unlimited.fault? = none := by decide
  have sound : zero.fault? = none := by decide
  have same : unlimited.cacheKey = zero.cacheKey := rfl
  exact ⟨valid, sound, same, by decide,
    cacheKey_sound.2.2.2 (.listing unlimited) (.listing zero) valid sound same⟩

end CachedStore
