import CachedStore.Proofs.Service.Dispatch

/-!
The states that the service comes to while it answers requests, any number of them at a time. In
whichever order their steps are taken, and wherever their limits end or their clients leave, the
rows are those of whole documents, each under its own identity and its own name.
-/

namespace CachedStore

namespace Service

open Repository

/-- The rows are those of whole documents, and no call of the store is about to fail. -/
structure WellKept (state : State) : Prop where
  calm : state.store.faults = []
  named : state.store.rows.Named
  faithful : state.store.rows.Faithful Document

theorem WellKept.of_store {state after : State} (orderly : WellKept state)
    (same : after.store = state.store) : WellKept after := by
  refine ⟨?_, ?_, ?_⟩
  · rw [same]
    exact orderly.calm
  · rw [same]
    exact orderly.named
  · rw [same]
    exact orderly.faithful

/-! Activities that keep to the order -/

def wellKeptRules : Rules State {state : State // WellKept state} where
  state := Subtype.val
  admits _ moment := moment.time.IsValid
  later _ _ := True
  step _ _ _ := True
  limits := True
  refl _ := trivial
  trans _ _ := trivial
  idle {world _} _ := ⟨world, trivial, trivial, rfl⟩

variable {α β : Type}

def Conducts (post : α → Prop) (activity : Activity State α) : Prop :=
  ∀ world, Activity.Safe wellKeptRules (fun _ => True) activity (fun result _ => post result) world

section Conducts

variable {post : α → Prop} {activity : Activity State α}

theorem conducts_done {result : α} (holds : post result) : Conducts post (.done result) :=
  fun _ => holds

theorem Conducts.bind {next : α → Activity State β} {last : β → Prop}
    (conducts : Conducts post activity)
    (goesOn : ∀ result, post result → Conducts last (next result)) :
    Conducts last (activity.bind next) := by
  intro world
  refine Activity.Safe.bind ((conducts world).mono (fun _ _ => trivial) ?_)
  exact fun result met holds => goesOn result holds met

theorem conducts_act {effect : Moment → State → β × State} {next : β → Activity State α}
    (store : ∀ moment state, (effect moment state).2.store = state.store)
    (goesOn : ∀ moment state, moment.time.IsValid →
      Conducts post (next (effect moment state).1)) :
    Conducts post (.act effect next) := by
  intro world now _
  refine ⟨trivial, fun moment admitted => ?_⟩
  let after : {state : State // WellKept state} :=
    ⟨(effect moment now.1).2, now.2.of_store (store moment now.1)⟩
  exact ⟨after, trivial, rfl, goesOn moment now.1 admitted after⟩

theorem conducts_step {effect : Moment → State → α × State}
    (store : ∀ moment state, (effect moment state).2.store = state.store) :
    Conducts (fun _ => True) (Activity.step effect) :=
  conducts_act store fun _ _ _ => conducts_done trivial

end Conducts

/-! Calls on the store -/

section Calls

variable {repository : Repository} {post : α → Prop}

def Behaves (operation : Rows → Except Failure (α × Rows)) (post : α → Prop) : Prop :=
  ∀ rows answer changed, rows.Named → rows.Faithful Document →
    operation rows = .ok (answer, changed) →
    changed.Named ∧ changed.Faithful Document ∧ post answer

theorem WellKept.perform {state : State} (orderly : WellKept state)
    {operation : Rows → Except Failure (α × Rows)} (behaves : Behaves operation post) :
    WellKept { state with store := (state.store.perform operation).2 } ∧
      ∀ answer, (state.store.perform operation).1 = .ok answer → post answer := by
  cases outcome : operation state.store.rows with
  | error failure =>
      rw [MemoryStore.perform_error orderly.calm outcome]
      exact ⟨orderly, fun _ impossible => by cases impossible⟩
  | ok result =>
      obtain ⟨answer, changed⟩ := result
      obtain ⟨named, faithful, holds⟩ :=
        behaves _ answer changed orderly.named orderly.faithful outcome
      rw [MemoryStore.perform_ok orderly.calm outcome]
      refine ⟨⟨orderly.calm, named, faithful⟩, fun other same => ?_⟩
      obtain rfl := Except.ok.inj same
      exact holds

theorem conducts_call (call : StoreCall) {operation : Rows → Except Failure (α × Rows)}
    (behaves : Behaves operation post) :
    Conducts (fun outcome => ∀ answer, outcome = .ok answer → post answer)
      (onStore (MemoryStore.call call operation)) := by
  intro world
  refine call_safe_of call operation (fun _ _ => trivial) ?_ ?_
  · intro now moment _ _
    let after : {state : State // WellKept state} :=
      ⟨{ now.1 with store := now.1.store.begin call },
        ⟨now.2.calm, now.2.named, now.2.faithful⟩⟩
    exact ⟨after, trivial, trivial, rfl⟩
  · intro now moment _ _
    obtain ⟨kept, gives⟩ := now.2.perform behaves
    exact ⟨⟨_, kept⟩, trivial, rfl, gives⟩

theorem behaves_read {read : Rows → Except Failure α}
    (gives : ∀ rows answer, rows.Named → rows.Faithful Document → read rows = .ok answer →
      post answer) :
    Behaves (fun rows => (read rows).map fun answer => (answer, rows)) post := by
  intro rows answer changed named faithful given
  cases found : read rows with
  | error failure => simp [found, Except.map] at given
  | ok value =>
      obtain ⟨rfl, rfl⟩ : value = answer ∧ rows = changed := by
        simpa [found, Except.map] using given
      exact ⟨named, faithful, gives rows value named faithful found⟩

theorem behaves_write {change : Rows → Except Failure Rows}
    (keeps : ∀ rows changed, rows.Named → rows.Faithful Document → change rows = .ok changed →
      changed.Named ∧ changed.Faithful Document) :
    Behaves (fun rows => (change rows).map fun changed => ((), changed)) fun _ => True := by
  intro rows answer changed named faithful given
  cases made : change rows with
  | error failure => simp [made, Except.map] at given
  | ok others =>
      obtain rfl : others = changed := by simpa [made, Except.map] using given
      obtain ⟨stillNamed, stillFaithful⟩ := keeps rows others named faithful made
      exact ⟨stillNamed, stillFaithful, trivial⟩

theorem conducts_deadline {call : Activity State (Except Failure α)} (operation : String)
    (conducts : Conducts (fun outcome => ∀ answer, outcome = .ok answer → post answer) call) :
    Conducts (fun outcome => ∀ answer, outcome = .ok answer → post answer)
      (repository.deadline operation call) := by
  intro world
  refine deadline_safe_of operation (fun _ _ => trivial) fun now _ => ?_
  refine (conducts now).mono (fun _ _ => ⟨trivial, fun _ => ?_⟩) fun _ _ holds => holds
  exact fun answer impossible => by cases impossible

theorem conducts_uncached (operation : String) (call : StoreCall)
    {effect : Rows → Except Failure (α × Rows)} (behaves : Behaves effect post) :
    Conducts (fun outcome => ∀ answer, outcome = .ok answer → post answer)
      (repository.uncached operation (MemoryStore.call call effect)) := by
  unfold uncached
  split
  · exact conducts_deadline operation (conducts_call call behaves)
  · exact conducts_done fun answer impossible => by cases impossible

end Calls

/-! Operations of the repository -/

section Operations

variable {repository : Repository} {document : Document}

theorem conducts_fetch {δ : Type} (shape : Shape Document δ) (key : Key) (lifetime : Duration)
    (call : StoreCall) (read : Rows → Except Failure δ) :
    Conducts (fun _ => True)
      (repository.fetch shape key lifetime (onStore (MemoryStore.readCall call read))) := by
  have behaves : Behaves (fun rows => (read rows).map fun answer => (answer, rows))
      fun _ => True := behaves_read fun _ _ _ _ _ => trivial
  refine conducts_act (fun _ _ => rfl) fun moment state _ => ?_
  obtain ⟨_ | value, epoch⟩ := (lookup shape key moment state).1
  · refine (conducts_deadline "load" (conducts_call call behaves)).bind fun loaded _ => ?_
    cases loaded with
    | error failure => exact conducts_done trivial
    | ok value =>
        exact conducts_act (store_keep repository key (shape.wrap value) lifetime epoch)
          fun _ _ _ => conducts_done trivial
  · exact conducts_done trivial

theorem conducts_cachedRead {δ : Type} (shape : Shape Document δ) (key : Key) (call : StoreCall)
    (read : Rows → Except Failure δ) :
    Conducts (fun _ => True)
      (repository.cachedRead shape key (MemoryStore.readCall call read)) := by
  unfold cachedRead
  split
  · exact (conducts_fetch shape key _ call read).bind fun _ _ => conducts_done trivial
  · exact conducts_done trivial

theorem conducts_needingStore {activity : Activity State (Written Document)}
    (conducts : Conducts (fun _ => True) activity) :
    Conducts (fun _ => True) (repository.needingStore document activity) := by
  unfold needingStore
  split
  · exact conducts
  · exact conducts_done trivial

theorem conducts_write (operation : String) (policy : DuplicatePolicy) (id : Option RecordId)
    (call : StoreCall) {change : Rows → Except Failure Rows}
    (keeps : ∀ rows changed, rows.Named → rows.Faithful Document → change rows = .ok changed →
      changed.Named ∧ changed.Faithful Document) :
    Conducts (fun _ => True) (repository.write operation policy id document
      (MemoryStore.writeCall call change)) := by
  refine (conducts_deadline operation (conducts_call call (behaves_write keeps))).bind
    fun outcome _ => ?_
  unfold finishWrite
  cases settle policy outcome with
  | error failure => exact conducts_done trivial
  | ok done =>
      exact conducts_act (store_invalidateRecord repository id)
        fun _ _ _ => conducts_done trivial

theorem keeps_create (valid : document.metadata.IsValid) {rows changed : Rows}
    (named : rows.Named) (faithful : rows.Faithful Document)
    (created : rows.create document = .ok changed) :
    changed.Named ∧ changed.Faithful Document := by
  obtain ⟨id, _, required, _⟩ := Rows.create_eq_ok created
  exact ⟨named.create created,
    (faithful.create valid created (Rows.id?_of_requireId required)).2⟩

theorem keeps_update (valid : document.metadata.IsValid) {rows changed : Rows}
    (named : rows.Named) (faithful : rows.Faithful Document)
    (updated : rows.update document = .ok changed) :
    changed.Named ∧ changed.Faithful Document := by
  obtain ⟨id, _, required, _⟩ := Rows.update_eq_ok updated
  exact ⟨named.update updated,
    (faithful.update valid updated (Rows.id?_of_requireId required)).2⟩

theorem conducts_createWith (policy : DuplicatePolicy) (valid : document.metadata.IsValid) :
    Conducts (fun _ => True) (repository.createWith policy document) := by
  refine conducts_needingStore (conducts_act (fun _ _ => rfl) fun moment state timed => ?_)
  obtain ⟨id, stamped, stamps, _, _, metadata⟩ := stampNew_ok document moment
  rw [stamps]
  refine conducts_write "create" policy (some id) .create fun rows changed named faithful made => ?_
  have proper : stamped.metadata.IsValid := by
    change (FaithfulRecord.metadata stamped).IsValid
    rw [metadata]
    exact valid.created timed
  exact keeps_create proper named faithful made

theorem conducts_createIfAbsent (valid : document.metadata.IsValid) :
    Conducts (fun _ => True) (repository.createIfAbsent document) := by
  refine conducts_needingStore ((conducts_uncached "create_if_not" .findOne
    (behaves_read fun _ _ _ _ _ => trivial)).bind fun found _ => ?_)
  cases found with
  | ok existing => exact conducts_done trivial
  | error failure =>
      dsimp only
      split
      · exact conducts_createWith .strict valid
      · exact conducts_done trivial

theorem conducts_update (valid : document.metadata.IsValid) :
    Conducts (fun _ => True) (repository.update document) := by
  refine conducts_needingStore (conducts_act (fun _ _ => rfl) fun moment state timed => ?_)
  refine conducts_write "update" .strict _ .update fun rows changed named faithful made => ?_
  exact keeps_update (valid.updated timed) named faithful made

theorem conducts_softDelete (valid : document.metadata.IsValid) :
    Conducts (fun _ => True) (repository.softDelete document) := by
  refine conducts_needingStore (conducts_act (fun _ _ => rfl) fun moment state timed => ?_)
  refine conducts_write "soft_delete" .strict _ .update fun rows changed named faithful made => ?_
  exact keeps_update ((valid.deleted timed).updated timed) named faithful made

theorem conducts_delete : Conducts (fun _ => True) (repository.delete document) :=
  conducts_needingStore (conducts_write "delete" .strict _ .delete
    fun _ _ named faithful made => ⟨named.delete made, faithful.delete made⟩)

theorem conducts_truncate : Conducts (fun _ => True) (truncate (ρ := Document) repository) := by
  have behaves : Behaves (fun rows => .ok (rows.size, (.empty : Rows))) fun _ => True := by
    intro rows answer changed _ _ emptied
    obtain ⟨rfl, rfl⟩ : rows.size = answer ∧ (.empty : Rows) = changed := by simpa using emptied
    exact ⟨Rows.named_empty, Rows.faithful_empty, trivial⟩
  refine (conducts_uncached "truncate" .truncate behaves).bind fun outcome _ => ?_
  cases outcome with
  | error failure => exact conducts_done trivial
  | ok removed => exact conducts_act (fun _ _ => rfl) fun _ _ _ => conducts_done trivial

end Operations

/-! Requests -/

section Requests

variable {repository : Repository}

theorem conducts_load (id : RecordId) :
    Conducts (fun loaded => ∀ document, loaded = .ok document → document.metadata.IsValid)
      (load repository id) := by
  have behaves : Behaves (fun rows => (rows.find ([] : List Document)
      { Query.all with filter := .byId id }).map fun answer => (answer, rows))
      fun documents => ∀ document ∈ documents, document.metadata.IsValid := by
    refine behaves_read fun rows documents named faithful found document member => ?_
    rw [faithful.find_byId named id] at found
    obtain rfl := Except.ok.inj found
    cases read : rows.readByKey (Record.blank : Document) id with
    | error failure => simp [read, Except.toOption] at member
    | ok held =>
        obtain rfl : document = held := by simpa [read, Except.toOption] using member
        exact (faithful.of_readByKey read).1.valid
  refine (conducts_uncached "find_matches" .find behaves).bind fun found valid => ?_
  rcases found with failure | ⟨_ | ⟨document, others⟩⟩
  · exact conducts_done fun _ impossible => by cases impossible
  · exact conducts_done fun _ impossible => by cases impossible
  · refine conducts_done fun other same => ?_
    obtain rfl := Except.ok.inj same
    exact valid _ rfl document List.mem_cons_self

theorem conducts_orRefuse {fault : Option RequestFault} {next : Activity State HttpResponse}
    (conducts : Conducts (fun _ => True) next) :
    Conducts (fun _ => True) (orRefuse fault next) := by
  cases fault with
  | some fault => exact conducts_done trivial
  | none => exact conducts

theorem Conducts.answer {activity : Activity State α} {post : α → Prop}
    (conducts : Conducts post activity) (form : α → HttpResponse) :
    Conducts (fun _ => True) (activity.bind fun result => .done (form result)) :=
  conducts.bind fun _ _ => conducts_done trivial

theorem conducts_activity (call : Call) : Conducts (fun _ => True) (call.activity repository) := by
  cases call with
  | createDocument policy request =>
      exact conducts_orRefuse ((conducts_createWith policy (valid_of_request request)).answer _)
  | ensureDocument request =>
      exact conducts_orRefuse ((conducts_createIfAbsent (valid_of_request request)).answer _)
  | listDocuments request =>
      exact conducts_orRefuse ((conducts_cachedRead .many _ .find _).answer _)
  | clearDocuments => exact conducts_truncate.answer _
  | documentExists name =>
      have existing : Conducts (fun _ => True)
          (existsLike repository (Document.named name "")) := by
        refine (conducts_uncached "exists" .findOne (behaves_read fun _ _ _ _ _ => trivial)).bind
          fun found _ => ?_
        cases found <;> exact conducts_done trivial
      exact existing.answer _
  | getDocument id => exact (conducts_cachedRead .one _ .readByKey _).answer _
  | updateDocument id request =>
      refine conducts_orRefuse ((conducts_load id).bind fun loaded valid => ?_)
      cases loaded with
      | error failure => exact conducts_done trivial
      | ok document =>
          have proper : (request.apply document).metadata.IsValid := valid document rfl
          exact (conducts_update proper).answer _
  | deleteDocument id soft =>
      refine (conducts_load id).bind fun loaded valid => ?_
      cases loaded with
      | error failure => exact conducts_done trivial
      | ok document =>
          cases soft with
          | true => exact (conducts_softDelete (valid document rfl)).answer _
          | false => exact conducts_delete.answer _
  | statistics => exact conducts_step fun _ _ => rfl
  | health => exact conducts_step fun _ _ => rfl

theorem conducts_answer (request : HttpRequest) :
    Conducts (fun _ => True) (answer repository request) := by
  rw [answer_eq]
  cases dispatch request with
  | error response => exact conducts_done trivial
  | ok call => exact (conducts_activity call).answer _

end Requests

/-! States that are reached -/

/-- The states of a service that started in `start`, with the requests that are under way. -/
inductive Reached (repository : Repository) (start : State) :
    State → List (Activity State HttpResponse) → Prop where
  | start : Reached repository start start []
  | arrive {state : State} {active : List (Activity State HttpResponse)}
      (reached : Reached repository start state active) (request : HttpRequest) :
      Reached repository start state (answer repository request :: active)
  | step {state : State} {before after : List (Activity State HttpResponse)}
      {activity : Activity State HttpResponse}
      (reached : Reached repository start state (before ++ activity :: after)) (moment : Moment)
      (timed : moment.time.IsValid) (late : Nat) :
      Reached repository start (activity.advance moment late state).2
        (before ++ (activity.advance moment late state).1 :: after)
  | leave {state : State} {active fewer : List (Activity State HttpResponse)}
      (reached : Reached repository start state active) (left : fewer.Sublist active) :
      Reached repository start state fewer

theorem Conducts.advance {activity : Activity State α}
    (conducts : Conducts (fun _ => True) activity) {state : State} (orderly : WellKept state)
    {moment : Moment} (timed : moment.time.IsValid) (late : Nat) :
    WellKept (activity.advance moment late state).2 ∧
      Conducts (fun _ => True) (activity.advance moment late state).1 := by
  by_cases finished : activity.isDone = true
  · obtain ⟨result, rfl⟩ := Activity.eq_done finished
    exact ⟨orderly, conducts_done trivial⟩
  · have underway : activity.isDone = false := by simpa using finished
    let now : {state : State // WellKept state} := ⟨state, orderly⟩
    have reached : wellKeptRules.later now now := trivial
    obtain ⟨after, _, same, safe⟩ :=
      (conducts now).advance underway reached timed late fun _ => trivial
    have same : after.1 = (activity.advance moment late state).2 := same
    refine ⟨same ▸ after.2, fun world => ?_⟩
    have onward : wellKeptRules.later after world := trivial
    by_cases ended : (activity.advance moment late state).1.isDone = true
    · obtain ⟨result, last⟩ := Activity.eq_done ended
      rw [last]
      exact conducts_done trivial world
    · have goesOn : (activity.advance moment late state).1.isDone = false := by simpa using ended
      exact safe.later goesOn onward

theorem Reached.conducts {repository : Repository} {start state : State}
    {active : List (Activity State HttpResponse)}
    (reached : Reached repository start state active) (orderly : WellKept start) :
    WellKept state ∧ ∀ activity ∈ active, Conducts (fun _ => True) activity := by
  induction reached with
  | start => exact ⟨orderly, by simp⟩
  | arrive reached request ih =>
      refine ⟨ih.1, fun activity member => ?_⟩
      rcases List.mem_cons.mp member with rfl | earlier
      · exact conducts_answer request
      · exact ih.2 activity earlier
  | @step state before after activity reached moment timed late ih =>
      have conducts := ih.2 activity (by simp)
      obtain ⟨kept, goesOn⟩ := conducts.advance ih.1 timed late
      refine ⟨kept, fun other member => ?_⟩
      rcases List.mem_append.mp member with earlier | later
      · exact ih.2 other (List.mem_append_left _ earlier)
      · rcases List.mem_cons.mp later with rfl | rest
        · exact goesOn
        · exact ih.2 other (List.mem_append_right _ (List.mem_cons_of_mem _ rest))
  | leave reached left ih =>
      exact ⟨ih.1, fun activity member => ih.2 activity (left.subset member)⟩

end Service

end CachedStore
