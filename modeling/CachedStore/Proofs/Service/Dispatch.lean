import CachedStore.Proofs.Service.ReadYourWrites

/-!
Which handler a request is for. Before anything happens a request is read, which gives the call of a
handler or a refusal, and what the call gives is dressed for the client.
-/

namespace CachedStore

namespace Service

/-! Calls from requests -/

deriving instance DecidableEq for Call

def callAt (endpoint : Endpoint) (request : HttpRequest) : Except HttpResponse Call :=
  match endpoint, request.method with
  | .documents, "POST" =>
    (readQuery request readIgnoreDuplicate?).bind fun ignore =>
      (readBody request CreateRequest.fields CreateRequest.ofJson?).map
        (.createDocument (if ignore then .ignore else .strict))
  | .documents, "DELETE" => .ok .clearDocuments
  | .documents, _ => (readQuery request ListRequest.ofPairs?).map .listDocuments
  | .ensure, _ =>
    (readBody request CreateRequest.fields CreateRequest.ofJson?).map .ensureDocument
  | .existence, _ => (readQuery request readName?).map .documentExists
  | .document segment, "PUT" =>
    (readId segment).bind fun id =>
      (readBody request UpdateRequest.fields UpdateRequest.ofJson?).map (.updateDocument id)
  | .document segment, "DELETE" =>
    (readId segment).bind fun id => (readQuery request readSoft?).map (.deleteDocument id)
  | .document segment, _ => (readId segment).map .getDocument
  | .statistics, _ => .ok .statistics
  | .health, _ => .ok .health

def dispatch (request : HttpRequest) : Except HttpResponse Call :=
  match Endpoint.ofPath? request.target.path with
  | none => .error (if request.method = "OPTIONS" then preflight else .empty 404)
  | some endpoint =>
    if request.method = "OPTIONS" then .error (announcing endpoint preflight)
    else if endpoint.methods.contains request.method then callAt endpoint request
    else .error (announcing endpoint (.empty 405))

def dress (request : HttpRequest) (response : HttpResponse) : HttpResponse :=
  openToAll (if request.method = "HEAD" then response.withoutBody else response)

@[simp]
theorem status_dress (request : HttpRequest) (response : HttpResponse) :
    (dress request response).status = response.status := by
  unfold dress
  split <;> rfl

section Answers

variable {β γ : Type} {part : Except HttpResponse β} {next : γ → Activity State HttpResponse}

theorem orAnswer_map (form : β → γ) :
    orAnswer (part.map form) next = orAnswer part fun value => next (form value) := by
  cases part <;> rfl

theorem orAnswer_bind (form : β → Except HttpResponse γ) :
    orAnswer (part.bind form) next = orAnswer part fun value => orAnswer (form value) next := by
  cases part <;> rfl

theorem answerAt_eq (repository : Repository) (endpoint : Endpoint) (request : HttpRequest) :
    answerAt repository endpoint request =
      orAnswer (callAt endpoint request) (Call.activity repository) := by
  cases endpoint with
  | documents =>
      by_cases post : request.method = "POST"
      · simp only [answerAt, callAt, post, orAnswer_bind, orAnswer_map, Call.activity]
      · by_cases delete : request.method = "DELETE"
        · simp only [answerAt, callAt, delete, orAnswer, Call.activity]
        · simp only [answerAt, callAt, orAnswer_map, Call.activity]
  | document segment =>
      by_cases put : request.method = "PUT"
      · simp only [answerAt, callAt, put, orAnswer_bind, orAnswer_map, Call.activity]
      · by_cases delete : request.method = "DELETE"
        · simp only [answerAt, callAt, delete, orAnswer_bind, orAnswer_map, Call.activity]
        · simp only [answerAt, callAt, orAnswer_map, Call.activity]
  | ensure => simp only [answerAt, callAt, orAnswer_map, Call.activity]
  | existence => simp only [answerAt, callAt, orAnswer_map, Call.activity]
  | statistics => rfl
  | health => rfl

theorem answer_eq (repository : Repository) (request : HttpRequest) :
    answer repository request =
      (orAnswer (dispatch request) (Call.activity repository)).bind fun response =>
        .done (dress request response) := by
  have bare : ∀ response : HttpResponse, response.body = .empty →
      dress request response = openToAll response := by
    rintro ⟨status, headers, _⟩ rfl
    unfold dress
    split <;> rfl
  unfold answer answerPlainly dispatch
  cases Endpoint.ofPath? request.target.path with
  | none =>
      have empty : dress request (if request.method = "OPTIONS" then preflight else .empty 404) =
          openToAll (if request.method = "OPTIONS" then preflight else .empty 404) := by
        split <;> exact bare _ rfl
      exact congrArg Activity.done empty.symm
  | some endpoint =>
      dsimp only
      by_cases announces : request.method = "OPTIONS"
      · simp only [announces, ↓reduceIte]
        exact congrArg Activity.done (bare (announcing endpoint preflight) rfl).symm
      · by_cases taken : endpoint.methods.contains request.method = true
        · simp only [announces, taken, ↓reduceIte]
          rw [answerAt_eq, Activity.bind_assoc]
          rfl
        · simp only [announces, taken, Bool.false_eq_true, ↓reduceIte]
          exact congrArg Activity.done (bare (announcing endpoint (.empty 405)) rfl).symm

end Answers

/-! Visits -/

def Visit.run (repository : Repository) (instants : Nat → Instant) (visit : Visit) (step : Nat)
    (state : State) : HttpResponse × State × Nat :=
  (answer repository visit.request).runOn (visit.clock instants) step state

def runVisits (repository : Repository) (instants : Nat → Instant) :
    List Visit → (step : Nat) → State → List HttpResponse × State × Nat
  | [], step, state => ([], state, step)
  | visit :: rest, step, state =>
    let (response, state, step) := visit.run repository instants step state
    let (responses, state, step) := runVisits repository instants rest step state
    (response :: responses, state, step)

def Visit.errand (visit : Visit) (call : Call) : Errand := ⟨call, visit.time, visit.freshId⟩

section Visits

variable {repository : Repository} {instants : Nat → Instant} {step : Nat} {state : State}
  {visit : Visit}

theorem Visit.run_of_call {call : Call} (calls : dispatch visit.request = .ok call) :
    visit.run repository instants step state =
      (dress visit.request ((visit.errand call).run repository instants step state).1,
        ((visit.errand call).run repository instants step state).2) := by
  rw [Visit.run, answer_eq, calls, Activity.runOn_bind]
  rfl

theorem Visit.run_of_refusal {response : HttpResponse}
    (refuses : dispatch visit.request = .error response) :
    visit.run repository instants step state = (dress visit.request response, state, step) := by
  rw [Visit.run, answer_eq, refuses]
  rfl

theorem Tended.runVisit (tended : Tended repository instants step state)
    (proper : visit.time.IsValid) :
    Tended repository instants (visit.run repository instants step state).2.2
      (visit.run repository instants step state).2.1 := by
  cases calls : dispatch visit.request with
  | error response =>
      rw [Visit.run_of_refusal calls]
      exact tended
  | ok call =>
      rw [Visit.run_of_call calls]
      have timed : (visit.errand call).time.IsValid := proper
      exact (tended.run timed).1

theorem Tended.runVisits (tended : Tended repository instants step state) {visits : List Visit}
    (proper : ∀ visit ∈ visits, visit.time.IsValid) :
    Tended repository instants (Service.runVisits repository instants visits step state).2.2
      (Service.runVisits repository instants visits step state).2.1 := by
  induction visits generalizing step state with
  | nil => exact tended
  | cons visit rest ih =>
      have first := tended.runVisit (proper visit List.mem_cons_self)
      exact ih first fun other member => proper other (List.mem_cons_of_mem _ member)

theorem latency_runVisits (repository : Repository) (instants : Nat → Instant)
    (visits : List Visit) (step : Nat) (state : State) :
    (runVisits repository instants visits step state).2.1.store.latency = state.store.latency := by
  induction visits generalizing step state with
  | nil => rfl
  | cons visit rest ih =>
      have first : (visit.run repository instants step state).2.1.store.latency =
          state.store.latency := by
        cases calls : dispatch visit.request with
        | error response => rw [Visit.run_of_refusal calls]
        | ok call =>
            rw [Visit.run_of_call calls]
            exact (keeps_call repository call state.store.latency).runOn _ step rfl
      exact (ih _ _).trans first

end Visits

def firstState : State := ⟨.single ⟨1000, .empty, .empty, .zero⟩, .empty, .create none⟩

end Service

end CachedStore
