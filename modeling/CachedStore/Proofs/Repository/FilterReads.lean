import CachedStore.Proofs.Repository.Coherence
import CachedStore.Proofs.Repository.Sequence
import CachedStore.Proofs.Store.FirstMatch

/-!
Cached reads by filters that more than one record may match. What is cached under the key of a
filter is a live match of it as the store has it now, but not always the first one: a write of
another record does not drop it.
-/

namespace CachedStore

namespace Rows

variable {ρ : Type} [Record ρ]

theorem Matches.congr {rows changed : Rows} {filter : Filter} {id : RecordId} {record : ρ}
    (matched : Matches rows filter id record) (same : changed[id]? = rows[id]?) :
    Matches changed filter id record := by
  obtain ⟨row, stored, shows⟩ := matched.stored
  exact ⟨matched.own, row, same.trans stored, shows⟩

end Rows

section Matching

variable {ρ : Type} [Record ρ]

def matching (ρ : Type) [Record ρ] (use : Key → Option Filter) : Meaning ρ where
  Sound rows := rows.Named
  Fits rows key cached := ∀ filter, use key = some filter →
    ∃ id record, cached = .one record ∧ rows.Matches filter id record

variable {use : Key → Option Filter}

theorem matching_lawful [NamedRecord ρ] : (matching ρ use).Lawful := by
  refine Meaning.lawful_of_named (fun _ => Iff.rfl) ?_
  intro rows changed id key cached _ _ same fits unaffected filter used
  obtain ⟨other, record, rfl, matched⟩ := fits filter used
  have different : other ≠ id := by
    rintro rfl
    exact unaffected (Or.inr matched.own)
  exact ⟨other, record, rfl, matched.congr (same other different)⟩

theorem matching_loads [NamedRecord ρ] {key : Key} {filter : Filter}
    (uses : use key = some filter) :
    Repository.Loads (matching ρ use) key .one
      (Repository.onStore (MemoryStore.findOne (Record.blank : ρ) filter)) := by
  refine Repository.readCall_loads .findOne fun rows record named found other used => ?_
  obtain rfl : filter = other := Option.some.inj (uses.symm.trans used)
  obtain ⟨id, matched, _⟩ := (Rows.Named.findOne_eq_ok named).mp found
  exact ⟨id, record, rfl, matched⟩

theorem unmatched_fits {key : Key} (unused : use key = none) (rows : Rows) (cached : Cached ρ) :
    (matching ρ use).Fits rows key cached := by
  intro filter used
  simp [unused] at used

end Matching

/--
The keys of filters are used for reads by these filters only. A load under another key may be
anything that leaves the rows as they are.
-/
def Deed.Uses {ρ : Type} (use : Key → Option Filter) : Deed ρ → Prop
  | operate (.findOne key filter) => use key = some filter
  | operate (.fetchOne key _ load) =>
    use key = none ∧ ∀ rows, load.Keeps fun store => store.rows = rows
  | operate (.fetchMany key _ load) =>
    use key = none ∧ ∀ rows, load.Keeps fun store => store.rows = rows
  | operate (.readByKey key _) => use key = none
  | operate (.find key _) => use key = none
  | _ => True

theorem Deed.Uses.allowed {ρ : Type} [Record ρ] [NamedRecord ρ] {use : Key → Option Filter}
    {deed : Deed ρ} (uses : deed.Uses use) : deed.Allowed (matching ρ use) := by
  have loads : ∀ {δ : Type} {key : Key} {wrap : δ → Cached ρ}
      {load : Activity (MemoryStore ρ) (Except Failure δ)}, use key = none →
      (∀ rows, load.Keeps fun store => store.rows = rows) →
      Repository.Loads (matching ρ use) key wrap (Repository.onStore load) := by
    intro δ key wrap load unused keeps admits cut world free cuts
    refine Repository.leaving_safe keeps cuts fun result now reached => ?_
    exact ⟨reached, fun value _ => Or.inl (unmatched_fits unused _ _)⟩
  cases deed with
  | operate operation =>
      cases operation with
      | fetchOne key lifetime load => exact loads uses.1 uses.2
      | fetchMany key lifetime load => exact loads uses.1 uses.2
      | readByKey key id => exact loads uses (MemoryStore.keeps_readCall _ _)
      | findOne key filter => exact matching_loads uses
      | find key query => exact loads uses (MemoryStore.keeps_readCall _ _)
      | _ => trivial
  | _ => trivial

namespace Repository

variable {ρ : Type} {repository : Repository} {clock : Nat → Moment} {step : Nat}

section Record

variable [Record ρ] {state : RepositoryState ρ} {α δ : Type}

theorem runOn_deadline_eq_ok {operation : String} {call : StoreCall}
    {read : Rows → Except Failure α} {value : α}
    (answered : ((repository.deadline operation
      (onStore (MemoryStore.readCall call read))).runOn clock step state).1 = .ok value) :
    read state.store.rows = .ok value := by
  have performed : ∀ store : MemoryStore ρ,
      (store.perform fun rows => (read rows).map fun answer => (answer, rows)).1 = .ok value →
      read store.rows = .ok value := by
    intro store given
    rcases store.perform_cases fun rows => (read rows).map fun answer => (answer, rows)
      with ⟨failure, after, fails, _⟩ | ⟨answer, changed, found, succeeds⟩
    · simp [fails] at given
    · rw [succeeds] at given
      obtain rfl : answer = value := Except.ok.inj given
      cases outcome : read store.rows with
      | error failure => simp [outcome, Except.map] at found
      | ok made =>
          obtain ⟨rfl, _⟩ : made = answer ∧ store.rows = changed := by
            simpa [outcome, Except.map] using found
          rfl
  cases latency : state.store.latency with
  | none =>
      simp only [deadline, Activity.limited, Activity.runOn, onStore, MemoryStore.readCall,
        MemoryStore.call, Activity.onPart, Activity.runForOn, Activity.step, latency] at answered
      exact performed (state.store.begin call) answered
  | some span =>
      by_cases enough : span.pauseTicks ≤ repository.queryTimeout.ticks
      · simp only [deadline, Activity.limited, Activity.runOn, onStore, MemoryStore.readCall,
          MemoryStore.call, Activity.onPart, Activity.runForOn, Activity.step, latency, enough,
          ↓reduceIte] at answered
        exact performed (state.store.begin call) answered
      · have late : Late repository.queryTimeout state.store := ⟨span, latency, by omega⟩
        rw [MemoryStore.readCall, runOn_deadline_late late] at answered
        cases answered

theorem runOn_cachedRead_eq_ok {shape : Shape ρ δ} {key : Key} {call : StoreCall}
    {read : Rows → Except Failure δ} {value : δ} (sound : state.cache.Sound)
    (answered : ((repository.cachedRead shape key
      (MemoryStore.readCall call read)).runOn clock step state).1 = .ok value) :
    (∃ cached, state.cache.live? (clock step).instant key = some cached ∧
      shape.unwrap cached = some value) ∨ read state.store.rows = .ok value := by
  by_cases stored : repository.hasStore = true
  · simp only [cachedRead, stored, ↓reduceIte, Activity.runOn_bind, fetch, Activity.runOn, lookup,
      sound.get_fst] at answered
    cases found : (state.cache.live? (clock step).instant key).bind shape.unwrap with
    | some hit =>
        obtain ⟨cached, alive, shaped⟩ := Option.bind_eq_some_iff.mp found
        simp only [found, Activity.runOn] at answered
        obtain rfl := Except.ok.inj answered
        exact Or.inl ⟨cached, alive, shaped⟩
    | none =>
        simp only [found, Activity.runOn_bind] at answered
        generalize ran : (repository.deadline "load" (onStore
          (MemoryStore.readCall call read) : Activity (RepositoryState ρ) _)).runOn clock
            (step + 1) _ = loaded at answered
        obtain ⟨outcome, middle, later⟩ := loaded
        cases outcome with
        | error failure => cases answered
        | ok given =>
            obtain rfl : given = value := Except.ok.inj answered
            have loaded := runOn_deadline_eq_ok (congrArg Prod.fst ran)
            exact Or.inr loaded
  · simp [cachedRead, stored, Activity.runOn] at answered

theorem rows_runOn_findOne (key : Key) (filter : Filter) :
    ((repository.findOne key filter : Activity (RepositoryState ρ) _).runOn clock step
      state).2.1.store.rows = state.store.rows :=
  (keeps_cachedRead (MemoryStore.keeps_readCall .findOne _ state.store.rows)).runOn clock step rfl

end Record

variable [Record ρ] [NamedRecord ρ]

/--
After any history in which the keys of filters are used for these only, a read by a filter that
succeeds gives a live match of it, as the store has it at that moment. It is what the store's own
read gives if and only if no live match comes before it in the order of the identities.
-/
theorem findOne_matches {capacity : UInt64} {shards : Option UInt64}
    {cache : ReadCache (Cached ρ)} {store : MemoryStore ρ}
    {start before after : RepositoryState ρ} {use : Key → Option Filter} {deeds : List (Deed ρ)}
    {key : Key} {filter : Filter} {record : ρ} {next : Nat}
    (tracking : repository.invalidation = .byIdentity)
    (created : ReadCache.create capacity shards = .ok cache)
    (built : repository.build (some cache) store = .ok start) (made : Rows.Made ρ store.rows)
    (order : ∀ step, (clock step).instant ≤ (clock (step + 1)).instant)
    (uses : ∀ deed ∈ deeds, deed.Uses use) (used : use key = some filter)
    (ran : repository.runDeeds clock deeds 0 start = (before, step))
    (answered : (repository.findOne key filter).runOn clock step before =
      (.ok record, after, next)) :
    after.store.rows = before.store.rows ∧
      ∃ id, after.store.rows.Matches filter id record ∧
        (after.store.rows.findOne Record.blank filter = .ok record ↔
          after.store.rows.NoneBefore ρ filter id) := by
  have rest : AtRest (matching ρ use) (clock step).instant before := by
    have first : AtRest (matching ρ use) (clock 0).instant start :=
      .of_built created built made.named _
    have last := first.runDeeds matching_lawful tracking order
      fun deed member => (uses deed member).allowed
    rw [ran] at last
    exact last
  have rows : after.store.rows = before.store.rows := by
    have same : ((repository.findOne key filter).runOn clock step before).2.1.store.rows =
        before.store.rows := rows_runOn_findOne key filter
    rw [answered] at same
    exact same
  obtain ⟨world, rfl, present, free, alone⟩ := rest
  have named : world.1.state.store.rows.Named := world.2.rows
  have found : ∃ id, world.1.state.store.rows.Matches filter id record := by
    rcases runOn_cachedRead_eq_ok world.2.cache (congrArg Prod.fst answered) with
      ⟨cached, alive, shaped⟩ | loaded
    · rcases world.2.explained key cached (ReadCache.live?_earlier present alive) with
        fits | ⟨debt, owes, _⟩
      · obtain ⟨id, held, rfl, matched⟩ := fits filter used
        obtain rfl : held = record := Option.some.inj shaped
        exact ⟨id, matched⟩
      · rcases owes with others | own
        · simp [alone] at others
        · simp [free] at own
    · obtain ⟨id, matched, _⟩ := named.findOne_eq_ok.mp loaded
      exact ⟨id, matched⟩
  obtain ⟨id, matched⟩ := found
  rw [rows]
  exact ⟨rfl, id, matched, matched.findOne_iff named⟩

def balanceOfTen : Filter := .equals "balance" (.ofInt 10)

def createTen (id name : String) : Deed Account :=
  .operate (.create .strict ⟨some ⟨id⟩, name, 10, .none⟩)

def cachedBetween (first second : String) : List (Deed Account) :=
  [createTen first "x", .operate (.findOne "k" balanceOfTen), createTen second "y"]

def ticking (step : Nat) : Moment := ⟨⟨step⟩, ⟨2024, 1, 1, 0, 0, 0, 0⟩, ⟨"c"⟩⟩

def tenOf (id name : String) : Account :=
  ⟨some ⟨id⟩, name, 10, ⟨some ⟨2024, 1, 1, 0, 0, 0, 0⟩, none, none⟩⟩

theorem uses_cachedBetween (first second : String) :
    ∀ deed ∈ cachedBetween first second, deed.Uses fun _ => some balanceOfTen := by
  intro deed member
  simp only [cachedBetween, List.mem_cons, List.not_mem_nil, or_false] at member
  rcases member with rfl | rfl | rfl
  · trivial
  · rfl
  · trivial

theorem findOne_matches_first :
    ∃ (cache : ReadCache (Cached Account)) (start before after : RepositoryState Account)
      (step next : Nat) (id : RecordId),
      ReadCache.create 8 none = .ok cache ∧
      standard.build (some cache) (.create none) = .ok start ∧
      standard.runDeeds ticking (cachedBetween "a" "b") 0 start = (before, step) ∧
      (standard.findOne "k" balanceOfTen).runOn ticking step before =
        (.ok (tenOf "a" "x"), after, next) ∧
      after.store.rows.Matches balanceOfTen id (tenOf "a" "x") ∧
      (after.store.rows.findOne Record.blank balanceOfTen = .ok (tenOf "a" "x") ↔
        after.store.rows.NoneBefore Account balanceOfTen id) := by
  let start : RepositoryState Account :=
    ⟨.single ⟨8, .empty, .empty, .zero⟩, .empty, .create none⟩
  have created : ReadCache.create 8 none = .ok start.cache := rfl
  have built : standard.build (some start.cache) start.store = .ok start := rfl
  have order : ∀ step, (ticking step).instant ≤ (ticking (step + 1)).instant :=
    fun step => Nat.le_succ step
  let left := standard.runDeeds ticking (cachedBetween "a" "b") 0 start
  let given := (standard.findOne "k" balanceOfTen).runOn ticking left.2 left.1
  have success : given.1 = .ok (tenOf "a" "x") := by decide +kernel
  have answered : given = (.ok (tenOf "a" "x"), given.2.1, given.2.2) := by
    rw [← success]
  have ran : standard.runDeeds ticking (cachedBetween "a" "b") 0 start = (left.1, left.2) :=
    Prod.mk.eta.symm
  obtain ⟨_, id, matched, first⟩ := findOne_matches rfl created built .empty order
    (uses_cachedBetween "a" "b") rfl ran answered
  exact ⟨_, start, _, _, _, _, id, created, built, ran, answered, matched, first⟩

/-- A record that comes before the cached one does not take its place. -/
theorem findOne_overtaken :
    ∃ (cache : ReadCache (Cached Account)) (start before after : RepositoryState Account)
      (step next : Nat),
      ReadCache.create 8 none = .ok cache ∧
      standard.build (some cache) (.create none) = .ok start ∧
      (∀ deed ∈ cachedBetween "b" "a", deed.Uses fun _ => some balanceOfTen) ∧
      standard.runDeeds ticking (cachedBetween "b" "a") 0 start = (before, step) ∧
      (standard.findOne "k" balanceOfTen).runOn ticking step before =
        (.ok (tenOf "b" "x"), after, next) ∧
      before.store.rows.findOne Record.blank balanceOfTen = .ok (tenOf "a" "y") :=
  ⟨_, _, _, _, _, _, rfl, rfl, uses_cachedBetween "b" "a", rfl, rfl, rfl⟩

end Repository

end CachedStore
