import CachedStore.Proofs.Service.Handlers
import CachedStore.Settings

/-!
The cache is invisible to the clients of the service: what it answers and which documents it leaves
depend on the documents, the time and the fresh identity of each request, but on nothing that the
cache does.
-/

namespace CachedStore

namespace Service

open Repository

/-! The endpoints -/

section Endpoints

variable {β : Type}

theorem transparent_orAnswer {part : Except HttpResponse β}
    {next : Repository → β → Activity State HttpResponse}
    (transparent : ∀ value, Transparent served fun repository => next repository value) :
    Transparent served fun repository => orAnswer part (next repository) := by
  cases part with
  | error response => exact transparent_done response
  | ok value => exact transparent value

theorem transparent_map {α : Type} {family : Repository → Activity State α}
    (transparent : Transparent served family) (answer : α → β) :
    Transparent served fun repository =>
      (family repository).bind fun result => .done (answer result) :=
  transparent.bind fun result => transparent_done (answer result)

theorem transparent_answerAt (endpoint : Endpoint) (request : HttpRequest)
    (plain : endpoint ≠ .statistics) :
    Transparent served fun repository => answerAt repository endpoint request := by
  unfold answerAt
  split
  · exact transparent_orAnswer fun ignore => transparent_orAnswer fun body =>
      ⟨_, fun _ tracking stored => implements_createDocument tracking stored _ body⟩
  · exact ⟨_, fun _ _ stored => implements_clearDocuments stored⟩
  · exact transparent_orAnswer fun listing =>
      ⟨_, fun _ tracking stored => implements_listDocuments tracking stored listing⟩
  · exact transparent_orAnswer fun body =>
      ⟨_, fun _ tracking stored => implements_ensureDocument tracking stored body⟩
  · exact transparent_orAnswer fun name =>
      ⟨_, fun _ _ stored => implements_documentExists stored name⟩
  · exact transparent_orAnswer fun id => transparent_orAnswer fun body =>
      ⟨_, fun _ tracking stored => implements_updateDocument tracking stored id body⟩
  · exact transparent_orAnswer fun id => transparent_orAnswer fun soft =>
      ⟨_, fun _ tracking stored => implements_deleteDocument tracking stored id soft⟩
  · exact transparent_orAnswer fun id =>
      ⟨_, fun _ tracking stored => implements_getDocument tracking stored id⟩
  · exact absurd rfl plain
  · exact ⟨_, fun _ _ stored => implements_health stored⟩

def asksStatistics (request : HttpRequest) : Prop :=
  request.method = "GET" ∧ Endpoint.ofPath? request.target.path = some .statistics

theorem transparent_statistics_head :
    Transparent served fun _ => statistics.bind fun response => .done response.withoutBody := by
  refine ⟨fun _ _ rows => ((HttpResponse.json 200 .null).withoutBody, rows), ?_⟩
  intro repository tracking stored clock time freshId step state clockwise ready
  exact ⟨state, step + 1, rfl, rfl, ready.mono (clockwise.order step)⟩

theorem transparent_answer (request : HttpRequest) (plain : ¬ asksStatistics request) :
    Transparent served fun repository => answer repository request := by
  refine transparent_map ?_ openToAll
  unfold answerPlainly
  cases place : Endpoint.ofPath? request.target.path with
  | none => exact transparent_done _
  | some endpoint =>
      dsimp only
      split
      · exact transparent_done _
      · split
        · rename_i taken
          by_cases asked : endpoint = .statistics
          · subst asked
            have head : request.method = "HEAD" := by
              have methods : request.method = "GET" ∨ request.method = "HEAD" := by
                simpa [Endpoint.methods] using taken
              exact methods.resolve_left fun get => plain ⟨get, place⟩
            simp only [head, ↓reduceIte]
            exact transparent_statistics_head
          · exact transparent_map (transparent_answerAt endpoint request asked) _
        · exact transparent_done _

theorem answer_statistics (repository : Repository) {request : HttpRequest}
    (asked : asksStatistics request) (clock : Nat → Moment) (step : Nat) (state : State) :
    ((answer repository request).runOn clock step state).2 = (state, step + 1) := by
  obtain ⟨get, place⟩ := asked
  have other : request.method ≠ "OPTIONS" := by
    rw [get]
    decide
  have taken : Endpoint.statistics.methods.contains request.method = true := by
    rw [get]
    decide
  simp only [answer, answerPlainly, place, other, taken, ↓reduceIte, answerAt]
  rfl

end Endpoints

/-! Requests one after the other -/

structure Visit where
  request : HttpRequest
  time : Timestamp
  freshId : RecordId

def dayVisit (method path query body : String) : Visit :=
  ⟨⟨method, ⟨path.toList, query.toList⟩, some "application/json", body⟩,
    ⟨2024, 1, 1, 0, 0, 0, 0⟩, ⟨"a"⟩⟩

def Visit.clock (visit : Visit) (instants : Nat → Instant) (step : Nat) : Moment :=
  ⟨instants step, visit.time, visit.freshId⟩

def serve (repository : Repository) (instants : Nat → Instant) :
    List Visit → (step : Nat) → State → List HttpResponse × State
  | [], _, state => ([], state)
  | visit :: rest, step, state =>
    let (response, state, step) :=
      (answer repository visit.request).runOn (visit.clock instants) step state
    let (responses, state) := serve repository instants rest step state
    (response :: responses, state)

/-- Whether two lists of responses agree wherever the statistics are not asked for. -/
def AgreeOn : List Visit → List HttpResponse → List HttpResponse → Prop
  | [], [], [] => True
  | visit :: visits, response :: responses, other :: others =>
    (¬ asksStatistics visit.request → response = other) ∧ AgreeOn visits responses others
  | _, _, _ => False

structure Between (repository : Repository) (instants : Nat → Instant) (step : Nat)
    (state : State) : Prop where
  tracking : repository.invalidation = .byIdentity
  stored : repository.hasStore = true
  order : ∀ step, instants step ≤ instants (step + 1)
  ready : Ready served repository.queryTimeout (instants step) state

theorem Between.clockwise {repository : Repository} {instants : Nat → Instant} {step : Nat}
    {state : State} (between : Between repository instants step state) (visit : Visit) :
    Clockwise (visit.clock instants) visit.time visit.freshId :=
  ⟨between.order, fun _ => rfl, fun _ => rfl⟩

theorem visit_agree {first second : Repository} {instants others : Nat → Instant}
    {step later : Nat} {state other : State} (left : Between first instants step state)
    (right : Between second others later other) (same : state.store.rows = other.store.rows)
    (visit : Visit) :
    ∃ response answered middle next between after,
      (answer first visit.request).runOn (visit.clock instants) step state =
        (response, middle, next) ∧
      (answer second visit.request).runOn (visit.clock others) later other =
        (answered, between, after) ∧
      (¬ asksStatistics visit.request → response = answered) ∧
      Between first instants next middle ∧ Between second others after between ∧
      middle.store.rows = between.store.rows := by
  by_cases asked : asksStatistics visit.request
  · have one := answer_statistics first asked (visit.clock instants) step state
    have two := answer_statistics second asked (visit.clock others) later other
    refine ⟨_, _, state, step + 1, other, later + 1, Prod.ext rfl one, Prod.ext rfl two,
      fun plain => absurd asked plain, ?_, ?_, same⟩
    · exact ⟨left.tracking, left.stored, left.order, left.ready.mono (left.order step)⟩
    · exact ⟨right.tracking, right.stored, right.order, right.ready.mono (right.order later)⟩
  · obtain ⟨plain, implements⟩ := transparent_answer visit.request asked
    obtain ⟨middle, next, ran, rows, ready⟩ := implements first left.tracking left.stored _ _ _ step
      state (left.clockwise visit) left.ready
    obtain ⟨between, after, went, leaves, still⟩ := implements second right.tracking right.stored
      _ _ _ later other (right.clockwise visit) right.ready
    rw [← same] at went leaves
    refine ⟨_, _, middle, next, between, after, ran, went, fun _ => rfl, ?_, ?_,
      rows.trans leaves.symm⟩
    · exact ⟨left.tracking, left.stored, left.order, ready⟩
    · exact ⟨right.tracking, right.stored, right.order, still⟩

theorem serve_agree {first second : Repository} {instants others : Nat → Instant}
    {visits : List Visit} {step later : Nat} {state other : State}
    (left : Between first instants step state) (right : Between second others later other)
    (same : state.store.rows = other.store.rows) :
    AgreeOn visits (serve first instants visits step state).1
        (serve second others visits later other).1 ∧
      (serve first instants visits step state).2.store.rows =
        (serve second others visits later other).2.store.rows := by
  induction visits generalizing step later state other with
  | nil => exact ⟨trivial, same⟩
  | cons visit rest ih =>
      obtain ⟨response, answered, middle, next, between, after, ran, went, agree, onward, further,
        rows⟩ := visit_agree left right same visit
      obtain ⟨agrees, leaves⟩ := ih onward further rows
      simp only [serve, ran, went]
      exact ⟨⟨agree, agrees⟩, leaves⟩

theorem cache_of_start {settings : Settings} {store : MemoryStore Document} {state : State}
    (started : settings.start store = .ok state) :
    ∃ cache, settings.cache = .ok cache ∧
      settings.repository.build (some cache) store = .ok state := by
  unfold Settings.start at started
  obtain ⟨_, _, started⟩ := bind_eq_ok.mp started
  obtain ⟨cache, created, built⟩ := bind_eq_ok.mp started
  exact ⟨cache, created, mapError_eq_ok.mp built⟩

theorem store_of_start {settings : Settings} {store : MemoryStore Document} {state : State}
    (started : settings.start store = .ok state) : state.store = store := by
  obtain ⟨cache, _, built⟩ := cache_of_start started
  rw [Repository.state_of_build built]

theorem between_of_start {settings : Settings} {store : MemoryStore Document} {state : State}
    {instants : Nat → Instant} (invalidates : settings.invalidateOnWrite = true)
    (started : settings.start store = .ok state) (calm : store.faults = [])
    (timely : ∀ latency, store.latency = some latency →
      latency.pauseTicks ≤ settings.queryLimit.ticks)
    (named : store.rows.Named) (order : ∀ step, instants step ≤ instants (step + 1)) :
    Between settings.repository instants 0 state ∧ state.store = store := by
  obtain ⟨cache, created, built⟩ := cache_of_start started
  have kept := store_of_start started
  refine ⟨⟨?_, rfl, order, ⟨.of_built created built named _, ?_, ?_⟩⟩, kept⟩
  · simp only [Settings.repository, Settings.invalidation, invalidates, ↓reduceIte]
  · rw [kept, calm]
  · rw [kept]
    exact timely

def recached (settings : Settings) (capacity shards lifetime : UInt64) : Settings :=
  { settings with cacheCapacity := capacity, cacheShards := shards, readTtl := lifetime }

/--
Services that differ only in the size, the shards and the lifetimes of their caches give the same
answers to all requests, the statistics apart, and leave the same rows. The monotonic clock may even
show them different instants.
-/
theorem serve_invisible {settings : Settings} {capacity shards lifetime : UInt64}
    {store : MemoryStore Document} {state other : State} {instants others : Nat → Instant}
    (invalidates : settings.invalidateOnWrite = true)
    (started : settings.start store = .ok state)
    (restarted : (recached settings capacity shards lifetime).start store = .ok other)
    (calm : store.faults = [])
    (timely : ∀ latency, store.latency = some latency →
      latency.pauseTicks ≤ settings.queryLimit.ticks)
    (made : Rows.Made Document store.rows)
    (order : ∀ step, instants step ≤ instants (step + 1))
    (reorder : ∀ step, others step ≤ others (step + 1)) (visits : List Visit) :
    AgreeOn visits (serve settings.repository instants visits 0 state).1
        (serve (recached settings capacity shards lifetime).repository others visits 0 other).1 ∧
      (serve settings.repository instants visits 0 state).2.store.rows =
        (serve (recached settings capacity shards lifetime).repository others visits 0
          other).2.store.rows := by
  obtain ⟨left, first⟩ := between_of_start invalidates started calm timely made.named order
  have drops : (recached settings capacity shards lifetime).invalidateOnWrite = true := invalidates
  obtain ⟨right, second⟩ := between_of_start drops restarted calm timely made.named reorder
  have same : state.store.rows = other.store.rows := by rw [first, second]
  exact serve_agree left right same

/-- A document is created, read, renamed and deleted, with listings around all of it. -/
@[irreducible] def documentLife : List Visit :=
  [dayVisit "GET" "/documents" "" "",
    dayVisit "POST" "/documents" "" "\x7b\"name\": \"x\", \"content\": \"1\"\x7d",
    dayVisit "GET" "/documents" "" "", dayVisit "GET" "/documents" "" "",
    dayVisit "GET" "/documents/a" "" "", dayVisit "GET" "/documents/a" "" "",
    dayVisit "PUT" "/documents/a" "" "\x7b\"name\": \"y\"\x7d",
    dayVisit "GET" "/documents/a" "" "", dayVisit "GET" "/documents/a" "" "",
    dayVisit "GET" "/documents" "" "", dayVisit "DELETE" "/documents/a" "" "",
    dayVisit "GET" "/documents/a" "" "", dayVisit "GET" "/documents" "" ""]

def slowStore : MemoryStore Document := .create (some (.ofMilliseconds 20))

def slowStart (capacity : Nat) : State :=
  ⟨.single ⟨capacity, .empty, .empty, .zero⟩, .empty, slowStore⟩

def keptLife : List HttpResponse × State :=
  serve Settings.standard.repository Instant.mk documentLife 0 (slowStart 1000)

def reloadedLife : List HttpResponse × State :=
  serve (recached Settings.standard 1 1 0).repository (fun _ => ⟨7⟩) documentLife 0 (slowStart 1)

/-- The one service answers three of the reads from its cache, and the other one none. -/
theorem serve_documentLife :
    Settings.standard.start slowStore = .ok (slowStart 1000) ∧
      (recached Settings.standard 1 1 0).start slowStore = .ok (slowStart 1) ∧
      AgreeOn documentLife keptLife.1 reloadedLife.1 ∧
      keptLife.2.store.rows = reloadedLife.2.store.rows ∧
      keptLife.1.map (·.status) =
        [200, 201, 200, 200, 200, 200, 200, 200, 200, 200, 200, 404, 200] ∧
      keptLife.2.cache.stats.hits = 3 ∧ reloadedLife.2.cache.stats.hits = 0 := by
  have timely : ∀ latency, slowStore.latency = some latency →
      latency.pauseTicks ≤ Settings.standard.queryLimit.ticks := by
    intro latency same
    obtain rfl := Option.some.inj same
    decide
  have started : Settings.standard.start slowStore = .ok (slowStart 1000) := rfl
  have restarted : (recached Settings.standard 1 1 0).start slowStore = .ok (slowStart 1) := rfl
  have order : ∀ step, Instant.mk step ≤ ⟨step + 1⟩ := fun step => Nat.le_succ step
  have still : ∀ _ : Nat, (⟨7⟩ : Instant) ≤ ⟨7⟩ := fun _ => Nat.le_refl 7
  have agrees : AgreeOn documentLife keptLife.1 reloadedLife.1 ∧
      keptLife.2.store.rows = reloadedLife.2.store.rows := by
    unfold keptLife reloadedLife
    exact serve_invisible rfl started restarted rfl timely .empty order still documentLife
  exact ⟨started, restarted, agrees.1, agrees.2, by decide +kernel, by decide +kernel,
    by decide +kernel⟩

end Service

end CachedStore
