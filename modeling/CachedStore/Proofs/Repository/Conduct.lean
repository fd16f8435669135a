import CachedStore.Proofs.Activity.Clocked
import CachedStore.Proofs.Repository.Steps

/-!
How the operations of a repository conduct themselves among others: each of their steps keeps the
cached reads tracked and explained, whatever the others do in between.
-/

namespace CachedStore

theorem MemoryStore.perform_cases {ρ α : Type} (store : MemoryStore ρ)
    (operation : Rows → Except Failure (α × Rows)) :
    (∃ failure after, store.perform operation = (.error failure, after) ∧
      after.rows = store.rows) ∨
    ∃ answer rows, operation store.rows = .ok (answer, rows) ∧
      store.perform operation = (.ok answer, { store with rows := rows }) := by
  unfold MemoryStore.perform
  cases store.faults with
  | cons failure faults => exact Or.inl ⟨failure, _, rfl, rfl⟩
  | nil =>
      cases outcome : operation store.rows with
      | error failure => exact Or.inl ⟨failure, store, by simp, rfl⟩
      | ok result => exact Or.inr ⟨result.1, result.2, rfl, by simp⟩

namespace Repository

/-! Calls on the store, under any rules -/

section Rules

variable {ρ W α : Type} {rules : Rules (RepositoryState ρ) W} {cut : W → Prop} {world : W}

theorem call_safe_of (call : StoreCall) (operation : Rows → Except Failure (α × Rows))
    {post : Except Failure α → W → Prop} (cuts : ∀ now, rules.later world now → cut now)
    (begins : ∀ now moment, rules.later world now → rules.admits now moment →
      ∃ after, rules.step now moment after ∧ rules.later now after ∧
        rules.state after =
          { rules.state now with store := (rules.state now).store.begin call })
    (performs : ∀ now moment, rules.later world now → rules.admits now moment →
      ∃ after, rules.step now moment after ∧
        rules.state after =
          { rules.state now with store := ((rules.state now).store.perform operation).2 } ∧
        post ((rules.state now).store.perform operation).1 after) :
    Activity.Safe rules cut (onStore (MemoryStore.call call operation)) post world := by
  have perform : ∀ now, rules.later world now →
      Activity.Safe rules cut (onStore (.step fun _ store => store.perform operation)) post
        now := by
    intro now reached last onward
    refine ⟨cuts last (rules.trans reached onward), fun moment admitted => ?_⟩
    exact performs last moment (rules.trans reached onward) admitted
  intro now reached
  refine ⟨cuts now reached, fun moment admitted => ?_⟩
  obtain ⟨after, step, later, state⟩ := begins now moment reached admitted
  refine ⟨after, step, state, ?_⟩
  simp only
  cases (rules.state now).store.latency with
  | none => exact perform after (rules.trans reached later)
  | some latency =>
      intro last onward
      exact ⟨cuts last (rules.trans (rules.trans reached later) onward),
        perform last (rules.trans (rules.trans reached later) onward)⟩

theorem deadline_safe_of [Record ρ] {repository : Repository} (operation : String)
    {call : Activity (RepositoryState ρ) (Except Failure α)}
    {post : Except Failure α → W → Prop} (cuts : ∀ now, rules.later world now → cut now)
    (inner : ∀ now, rules.later world now →
      Activity.Safe rules
        (fun left => cut left ∧ (rules.limits →
          post (.error (deadlineExceeded ρ operation repository.queryTimeout)) left))
        call post now) :
    Activity.Safe rules cut (repository.deadline operation call) post world :=
  fun now reached => ⟨cuts now reached, inner now reached⟩

end Rules

open Snapshot World

variable {ρ : Type} [Record ρ] {meaning : Meaning ρ} {admits : Nat → Prop} {α δ : Type}
  {cut : World meaning → Prop} {world : World meaning} {repository : Repository}

/-! Calls on the store -/

theorem call_safe (call : StoreCall) (operation : Rows → Except Failure (α × Rows))
    {post : Except Failure α → World meaning → Prop}
    (cuts : ∀ now : World meaning, Later meaning world.1 now.1 → cut now)
    (performs : ∀ (now : World meaning) (moment : Moment), Later meaning world.1 now.1 →
      now.1.now ≤ moment.instant →
      ∃ after : World meaning, Step meaning now.1 moment after.1 ∧
        after.1.state =
          { now.1.state with store := (now.1.state.store.perform operation).2 } ∧
        post (now.1.state.store.perform operation).1 after) :
    Activity.Safe (rules meaning admits) cut (onStore (MemoryStore.call call operation)) post
      world := by
  refine call_safe_of call operation cuts ?_ ?_
  · intro now moment _ admitted
    obtain ⟨after, step, later, state, _⟩ := now.quiet_step moment
      { now.1.state with store := now.1.state.store.begin call }
      admitted.1 now.2.cache (fun _ _ stored => stored) rfl rfl
    exact ⟨after, step, later, state⟩
  · exact fun now moment reached admitted => performs now moment reached admitted.1

theorem readCall_safe (call : StoreCall) (read : Rows → Except Failure α)
    {post : Except Failure α → World meaning → Prop}
    (cuts : ∀ now : World meaning, Later meaning world.1 now.1 → cut now)
    (fails : ∀ (failure : Failure) (now : World meaning), Later meaning world.1 now.1 →
      post (.error failure) now)
    (answers : ∀ (value : α) (now : World meaning), Later meaning world.1 now.1 →
      read now.1.state.store.rows = .ok value → post (.ok value) now) :
    Activity.Safe (rules meaning admits) cut (onStore (MemoryStore.readCall call read)) post
      world := by
  refine call_safe call _ cuts fun now moment reached order => ?_
  rcases now.1.state.store.perform_cases fun rows => (read rows).map fun answer => (answer, rows)
    with ⟨failure, store, performed, rows⟩ | ⟨value, rows, found, performed⟩
  · obtain ⟨after, step, later, state, _⟩ := now.quiet_step moment
      { now.1.state with store := store } order now.2.cache
      (fun _ _ stored => stored) rfl rows
    rw [performed]
    exact ⟨after, step, state, fails failure after (reached.trans later)⟩
  · cases given : read now.1.state.store.rows with
    | error failure => simp [given, Except.map] at found
    | ok answer =>
        obtain ⟨rfl, rfl⟩ : answer = value ∧ now.1.state.store.rows = rows := by
          simpa [given, Except.map] using found
        obtain ⟨after, step, later, state, _⟩ := now.quiet_step moment now.1.state
          order now.2.cache (fun _ _ stored => stored) rfl rfl
        rw [performed]
        have read : read after.1.state.store.rows = .ok answer := by rw [state, given]
        exact ⟨after, step, state, answers answer after (reached.trans later) read⟩

theorem deadline_safe (operation : String)
    {call : Activity (RepositoryState ρ) (Except Failure α)}
    {post : Except Failure α → World meaning → Prop}
    (late : ∀ now : World meaning, Later meaning world.1 now.1 →
      cut now ∧ post (.error (deadlineExceeded ρ operation repository.queryTimeout)) now)
    (inner : ∀ now : World meaning, Later meaning world.1 now.1 →
      Activity.Safe (rules meaning admits)
        (fun left => cut left ∧
          post (.error (deadlineExceeded ρ operation repository.queryTimeout)) left)
        call post now) :
    Activity.Safe (rules meaning admits) cut (repository.deadline operation call) post world := by
  refine deadline_safe_of operation (fun now reached => (late now reached).1) ?_
  intro now reached
  exact (inner now reached).mono (fun left both => ⟨both.1, fun _ => both.2⟩)
    fun _ _ holds => holds

/-! Reads -/

/-- A load that is safe, and whose value is in order under the key when it is there. -/
def Loads (meaning : Meaning ρ) (key : Key) (wrap : δ → Cached ρ)
    (load : Activity (RepositoryState ρ) (Except Failure δ)) : Prop :=
  ∀ (admits : Nat → Prop) (cut : World meaning → Prop) (world : World meaning),
    world.1.own = none → (∀ now : World meaning, Later meaning world.1 now.1 → cut now) →
    Activity.Safe (rules meaning admits) cut load
      (fun result after => Later meaning world.1 after.1 ∧
        ∀ value, result = .ok value → after.1.Explains meaning key (wrap value)) world

theorem readCall_loads {key : Key} {wrap : δ → Cached ρ} (call : StoreCall)
    {read : Rows → Except Failure δ}
    (fits : ∀ rows value, meaning.Sound rows → read rows = .ok value →
      meaning.Fits rows key (wrap value)) :
    Loads meaning key wrap (onStore (MemoryStore.readCall call read)) := by
  intro admits cut world free cuts
  refine readCall_safe call read cuts ?_ ?_
  · exact fun failure now reached => ⟨reached, fun value impossible => by simp at impossible⟩
  · intro value now reached answered
    refine ⟨reached, fun other same => Or.inl ?_⟩
    obtain rfl := Except.ok.inj same
    exact fits _ value now.2.rows answered

theorem onStore_safe {post : α → World meaning → Prop} (call : Activity (MemoryStore ρ) α)
    (sound : call.Keeps fun store => meaning.Sound store.rows)
    (fits : ∀ key cached, call.Keeps fun store => meaning.Fits store.rows key cached)
    (cuts : ∀ now : World meaning, Later meaning world.1 now.1 → cut now)
    (posts : ∀ (result : α) (now : World meaning), Later meaning world.1 now.1 →
      post result now) :
    Activity.Safe (rules meaning admits) cut (onStore call) post world := by
  induction call generalizing cut world with
  | done result => exact posts result world (Later.refl world.1)
  | act effect next ih =>
      intro now reached
      refine ⟨cuts now reached, fun moment admitted => ?_⟩
      obtain ⟨after, step, later, state, _⟩ := now.calm_step moment
        { now.1.state with store := (effect moment now.1.state.store).2 } admitted.1 now.2.cache
        rfl (sound.1 moment _ now.2.rows) (fun key cached => (fits key cached).1 moment _)
        (fun key cached alive => now.held_before admitted.1 (fun _ stored => stored) alive)
      have onward := reached.trans later
      refine ⟨after, step, state, ih _ (sound.2 _) (fun key cached => (fits key cached).2 _)
        ?_ ?_⟩
      · exact fun last further => cuts last (onward.trans further)
      · exact fun result last further => posts result last (onward.trans further)
  | pause ticks next ih =>
      intro now reached
      refine ⟨cuts now reached, ih sound fits ?_ ?_⟩
      · exact fun last further => cuts last (reached.trans further)
      · exact fun result last further => posts result last (reached.trans further)
  | within ticks late inner next ihInner ih =>
      intro now reached
      have goesOn : ∀ result (last : World meaning), Later meaning now.1 last.1 →
          Activity.Safe (rules meaning admits) cut (onStore (next result)) post last := by
        intro result last further
        refine ih result (sound.2 result) (fun key cached => (fits key cached).2 result)
          ?_ ?_
        · exact fun final more => cuts final ((reached.trans further).trans more)
        · exact fun answer final more => posts answer final ((reached.trans further).trans more)
      refine ⟨cuts now reached, ihInner sound.1 (fun key cached => (fits key cached).1)
        ?_ ?_⟩
      · intro last further
        exact ⟨cuts last (reached.trans further), fun _ => goesOn late last further⟩
      · exact goesOn

theorem onStore_loads {key : Key} {wrap : δ → Cached ρ}
    {load : Activity (MemoryStore ρ) (Except Failure δ)}
    (sound : load.Keeps fun store => meaning.Sound store.rows)
    (fits : ∀ key cached, load.Keeps fun store => meaning.Fits store.rows key cached)
    (any : ∀ rows cached, meaning.Fits rows key cached) :
    Loads meaning key wrap (onStore load) := by
  intro admits cut world free cuts
  exact onStore_safe load sound fits cuts fun result now reached =>
    ⟨reached, fun _ _ => Or.inl (any _ _)⟩

/-- After a read that an invalidation overlapped, nothing is cached under its key. -/
def LeavesNothing (key : Key) (since : Nat) (outcome : Except Failure δ) (after : World meaning) :
    Prop :=
  after.1.own = none ∧ ∀ value, outcome = .ok value → since < after.1.count →
    after.1.state.cache.stored? key = none

theorem finishLoad_safe (tracking : repository.invalidation = .byIdentity) (shape : Shape ρ δ)
    (key : Key) (lifetime : Duration) {since : Nat} {loaded : Except Failure δ}
    (free : world.1.own = none) (before : since ≤ world.1.count)
    (explained : ∀ value, loaded = .ok value → world.1.Explains meaning key (shape.wrap value)) :
    Activity.Safe (rules meaning fun count => count < since + 2 ^ 64) (fun _ => True)
      (repository.finishLoad shape key lifetime (UInt64.ofNat since) loaded)
      (fun fetched => LeavesNothing key since fetched.outcome) world := by
  cases loaded with
  | error failure => exact ⟨free, fun value impossible => by simp at impossible⟩
  | ok value =>
      intro now reached
      refine ⟨trivial, fun moment admitted => ?_⟩
      have reached : Later meaning world.1 now.1 := reached
      have later := reached.count
      obtain ⟨after, step, onward, state, count, gone⟩ := now.keep_step tracking key
        (shape.wrap value) lifetime admitted.1 (Nat.le_trans before later) admitted.2
        (fun same => reached.carries (by omega) key _ (explained value rfl))
      refine ⟨after, step, state, ?_, fun _ _ overlapped => gone (count ▸ overlapped)⟩
      exact onward.own.symm.trans (reached.own.symm.trans free)

/--
An operation that owes nothing may take its first step at any time, and is safe from then on. What
it ends with may depend on how many invalidations there had been by its first step.
-/
def Starts (meaning : Meaning ρ) (admits : Nat → Nat → Prop)
    (activity : Activity (RepositoryState ρ) α) (post : Nat → α → World meaning → Prop) : Prop :=
  ∀ (world : World meaning) (moment : Moment) (late : Nat), world.1.own = none →
    world.1.now ≤ moment.instant →
    ∃ after : World meaning, Step meaning world.1 moment after.1 ∧
      after.1.state = (activity.advance moment late world.1.state).2 ∧
      Activity.Safe (rules meaning (admits world.1.count)) (fun _ => True)
        (activity.advance moment late world.1.state).1 (post world.1.count) after

theorem Starts.bind {admits : Nat → Nat → Prop} {activity : Activity (RepositoryState ρ) α}
    {post : Nat → α → World meaning → Prop} {γ : Type} {next : α → γ}
    {last : Nat → γ → World meaning → Prop} (starts : Starts meaning admits activity post)
    (underway : activity.isDone = false)
    (ends : ∀ since result after, post since result after → last since (next result) after) :
    Starts meaning admits (activity.bind fun result => .done (next result)) last := by
  intro world moment late free order
  obtain ⟨after, step, state, safe⟩ := starts world moment late free order
  rw [activity.advance_bind underway]
  refine ⟨after, step, state, Activity.Safe.bind (safe.mono (fun _ holds => holds) ?_)⟩
  exact fun result met ended => ends world.1.count result met ended

/-- A read looks up, loads under the deadline, and keeps what it loaded. -/
theorem fetch_starts (tracking : repository.invalidation = .byIdentity) (shape : Shape ρ δ)
    (key : Key) (lifetime : Duration)
    {load : Activity (RepositoryState ρ) (Except Failure δ)}
    (loads : Loads meaning key shape.wrap load) :
    Starts meaning (fun since count => count < since + 2 ^ 64)
      (repository.fetch shape key lifetime load)
      (fun since fetched => LeavesNothing key since fetched.outcome) := by
  intro world moment late free order
  obtain ⟨after, step, later, count, state, answer⟩ := world.lookup_step shape key order
  refine ⟨after, step, state, ?_⟩
  have own : after.1.own = none := later.own.symm.trans free
  simp only [fetch, Activity.advance, answer]
  cases (world.1.state.cache.live? moment.instant key).bind shape.unwrap with
  | some value =>
      exact ⟨own, fun _ _ overlapped => absurd overlapped (by omega)⟩
  | none =>
      apply Activity.Safe.bind
      refine deadline_safe "load" (fun now reached => ⟨trivial, ?_⟩) fun now reached => ?_
      · exact ⟨reached.own.symm.trans own, fun value impossible => by simp at impossible⟩
      · refine (loads _ _ now (reached.own.symm.trans own) ?_).mono (fun _ holds => holds) ?_
        · intro last onward
          refine ⟨trivial, (onward.own.symm.trans (reached.own.symm.trans own)), ?_⟩
          exact fun value impossible => by simp at impossible
        · rintro result met ⟨onward, explained⟩
          have arrived := reached.trans onward
          exact finishLoad_safe tracking shape key lifetime (arrived.own.symm.trans own)
            (count ▸ arrived.count) explained

/-! Writes -/

/-- After a write that went through, the operation may owe its debt; after another it owes none. -/
def MayOwe (debt : Debt) (outcome : Except Failure α) (after : World meaning) : Prop :=
  after.1.own = none ∨ (∃ answer, outcome = .ok answer) ∧ after.1.own = some debt

theorem effect_safe (call : StoreCall) {operation : Rows → Except Failure (α × Rows)} (debt : Debt)
    (free : world.1.own = none)
    (cuts : ∀ now : World meaning, Later meaning world.1 now.1 → cut now)
    (allowed : ∀ rows answer changed, meaning.Sound rows →
      operation rows = .ok (answer, changed) → meaning.Permits rows changed debt) :
    Activity.Safe (rules meaning admits) cut (onStore (MemoryStore.call call operation))
      (MayOwe debt) world := by
  refine call_safe call operation cuts fun now moment reached order => ?_
  have own : now.1.own = none := reached.own.symm.trans free
  rcases now.1.state.store.perform_cases operation
    with ⟨failure, store, performed, rows⟩ | ⟨answer, changed, wrote, performed⟩
  · obtain ⟨after, step, later, state, _⟩ := now.quiet_step moment
      { now.1.state with store := store } order now.2.cache (fun _ _ stored => stored) rfl rows
    rw [performed]
    exact ⟨after, step, state, Or.inl (later.own.symm.trans own)⟩
  · obtain ⟨sound, stale⟩ := allowed _ answer changed now.2.rows wrote
    obtain ⟨after, step, state, owes⟩ := now.write_step moment
      { now.1.state.store with rows := changed } debt order own sound stale
    rw [performed]
    exact ⟨after, step, state, owes.imp id fun owed => ⟨⟨answer, rfl⟩, owed⟩⟩

def Clears (id : Option RecordId) (after : World meaning) : Prop :=
  after.1.previous < after.1.count ∧
    ∀ key cached, after.1.state.cache.live? after.1.now key = some cached →
      cached.recordId? ≠ none ∧ cached.recordId? ≠ id

/-- A write that succeeds clears what it makes stale. -/
def Writes (id : Option RecordId) (record : ρ) (written : Written ρ) (after : World meaning) :
    Prop :=
  after.1.own = none ∧ (written.outcome = .ok () → written.record = record ∧ Clears id after)

theorem finishWrite_safe (tracking : repository.invalidation = .byIdentity)
    (policy : DuplicatePolicy) (id : Option RecordId) (record : ρ) {outcome : Except Failure Unit}
    (owes : MayOwe (.record id) outcome world) :
    Activity.Safe (rules meaning admits) (fun _ => True)
      (repository.finishWrite policy id record outcome) (Writes id record) world := by
  unfold finishWrite
  cases settled : settle policy outcome with
  | error failure =>
      have free : world.1.own = none := by
        rcases owes with free | ⟨⟨answer, succeeded⟩, _⟩
        · exact free
        · simp [succeeded, settle] at settled
      exact ⟨free, fun impossible => by simp at impossible⟩
  | ok answer =>
      intro now reached
      refine ⟨trivial, fun moment admitted => ?_⟩
      have own : now.1.own = none ∨ now.1.own = some (.record id) :=
        owes.imp reached.own.symm.trans fun owed => reached.own.symm.trans owed.2
      obtain ⟨after, step, state, free, count, clears⟩ :=
        now.invalidateRecord_step tracking id admitted.1 own
      refine ⟨after, step, state, free, fun _ => ⟨rfl, ?_, fun key cached alive => ?_⟩⟩
      · rw [step.previous, count]
        exact Nat.lt_succ_self _
      · exact clears key cached (step.now ▸ alive)

theorem write_safe (tracking : repository.invalidation = .byIdentity) (operation : String)
    (policy : DuplicatePolicy) (id : Option RecordId) (record : ρ) (call : StoreCall)
    {change : Rows → Except Failure Rows} (free : world.1.own = none)
    (allowed : ∀ rows changed, meaning.Sound rows → change rows = .ok changed →
      meaning.Permits rows changed (.record id)) :
    Activity.Safe (rules meaning admits) (fun _ => True)
      (repository.write operation policy id record (MemoryStore.writeCall call change))
      (Writes id record) world := by
  apply Activity.Safe.bind
  have late : ∀ (failure : Failure) (now : World meaning), Later meaning world.1 now.1 →
      Activity.Safe (rules meaning admits) (fun _ => True)
        (repository.finishWrite policy id record (.error failure)) (Writes id record) now :=
    fun failure now reached =>
      finishWrite_safe tracking policy id record (Or.inl (reached.own.symm.trans free))
  refine deadline_safe operation (fun now reached => ⟨trivial, late _ now reached⟩) ?_
  intro now reached
  refine (effect_safe call (.record id) (reached.own.symm.trans free) ?_ ?_).mono
    (fun _ holds => holds) ?_
  · exact fun last onward => ⟨trivial, late _ last (reached.trans onward)⟩
  · intro rows answer changed sound wrote
    refine allowed rows changed sound ?_
    cases outcome : change rows with
    | error failure => simp [outcome, Except.map] at wrote
    | ok made => simpa [outcome, Except.map] using wrote
  · exact fun result met owes => finishWrite_safe tracking policy id record owes

theorem ask_safe {β : Type} {answer : Moment → β} {next : β → Activity (RepositoryState ρ) α}
    {post : α → World meaning → Prop}
    (safe : ∀ (moment : Moment) (now : World meaning), Later meaning world.1 now.1 →
      Activity.Safe (rules meaning admits) (fun _ => True) (next (answer moment)) post now) :
    Activity.Safe (rules meaning admits) (fun _ => True)
      (.act (fun moment state => (answer moment, state)) next) post world := by
  intro now reached
  refine ⟨trivial, fun moment admitted => ?_⟩
  obtain ⟨after, step, later, state⟩ := now.idle_step admitted.1
  exact ⟨after, step, state, safe moment after (reached.trans later)⟩

def Creates (record : ρ) (written : Written ρ) (after : World meaning) : Prop :=
  after.1.own = none ∧ (written.outcome = .ok () → ∃ moment id,
    stampNew record moment = .ok (id, written.record) ∧ Clears (some id) after)

theorem createWith_safe (lawful : meaning.Lawful)
    (tracking : repository.invalidation = .byIdentity) (policy : DuplicatePolicy) (record : ρ)
    (free : world.1.own = none) :
    Activity.Safe (rules meaning admits) (fun _ => True) (repository.createWith policy record)
      (Creates record) world := by
  unfold createWith needingStore
  split
  · refine ask_safe fun moment now reached => ?_
    have own : now.1.own = none := reached.own.symm.trans free
    cases stamped : stampNew record moment with
    | error failure => exact ⟨own, fun impossible => by simp at impossible⟩
    | ok result =>
        obtain ⟨id, stampedRecord⟩ := result
        refine (write_safe tracking "create" policy (some id) stampedRecord .create own ?_).mono
          (fun _ holds => holds) ?_
        · exact fun rows changed sound made => lawful.create sound stamped made
        · rintro written after ⟨free, clears⟩
          refine ⟨free, fun succeeded => ⟨moment, id, ?_, (clears succeeded).2⟩⟩
          rw [(clears succeeded).1]
          exact stamped
  · exact ⟨free, fun impossible => by simp at impossible⟩

theorem createIfAbsent_safe (lawful : meaning.Lawful)
    (tracking : repository.invalidation = .byIdentity) (record : ρ) (free : world.1.own = none) :
    Activity.Safe (rules meaning admits) (fun _ => True) (repository.createIfAbsent record)
      (fun _ after => after.1.own = none) world := by
  unfold createIfAbsent needingStore
  split
  · rename_i stored
    simp only [uncached, stored, ↓reduceIte]
    apply Activity.Safe.bind
    have goesOn : ∀ (failure : Failure) (now : World meaning), Later meaning world.1 now.1 →
        Activity.Safe (rules meaning admits) (fun _ => True)
          (if failure.isNotFound then repository.create record
            else .done ⟨.error failure, record⟩) (fun _ after => after.1.own = none) now := by
      intro failure now reached
      have own : now.1.own = none := reached.own.symm.trans free
      split
      · exact (createWith_safe lawful tracking .strict record own).mono (fun _ holds => holds)
          fun _ _ created => created.1
      · exact own
    refine deadline_safe "create_if_not" (fun now reached => ⟨trivial, goesOn _ now reached⟩) ?_
    intro now reached
    refine readCall_safe .findOne _ ?_ ?_ ?_
    · exact fun last onward => ⟨trivial, goesOn _ last (reached.trans onward)⟩
    · exact fun failure last onward => goesOn failure last (reached.trans onward)
    · exact fun value last onward _ => (reached.trans onward).own.symm.trans free
  · exact free

def Changes (written : Written ρ) (after : World meaning) : Prop :=
  after.1.own = none ∧
    (written.outcome = .ok () → Clears (Record.id? written.record) after)

theorem Writes.changes {record : ρ} {written : Written ρ} {after : World meaning}
    (writes : Writes (Record.id? record) record written after) : Changes written after := by
  refine ⟨writes.1, fun succeeded => ?_⟩
  obtain ⟨same, clears⟩ := writes.2 succeeded
  exact same.symm ▸ clears

theorem update_safe (lawful : meaning.Lawful)
    (tracking : repository.invalidation = .byIdentity) (record : ρ) (free : world.1.own = none) :
    Activity.Safe (rules meaning admits) (fun _ => True) (repository.update record) Changes
      world := by
  unfold update needingStore
  split
  · refine ask_safe fun moment now reached => ?_
    refine (write_safe tracking "update" .strict _ _ .update (reached.own.symm.trans free) ?_).mono
      (fun _ holds => holds) (fun _ _ writes => writes.changes)
    exact fun rows changed sound made => lawful.update sound made
  · exact ⟨free, fun impossible => by simp at impossible⟩

theorem softDelete_safe (lawful : meaning.Lawful)
    (tracking : repository.invalidation = .byIdentity) (record : ρ) (free : world.1.own = none) :
    Activity.Safe (rules meaning admits) (fun _ => True) (repository.softDelete record) Changes
      world := by
  unfold softDelete needingStore
  split
  · refine ask_safe fun moment now reached => ?_
    have own : now.1.own = none := reached.own.symm.trans free
    cases stampDeleted record moment with
    | error failure => exact ⟨own, fun impossible => by simp at impossible⟩
    | ok stamped =>
        refine (write_safe tracking "soft_delete" .strict _ _ .update own ?_).mono
          (fun _ holds => holds) (fun _ _ writes => writes.changes)
        exact fun rows changed sound made => lawful.update sound made
  · exact ⟨free, fun impossible => by simp at impossible⟩

theorem delete_safe (lawful : meaning.Lawful)
    (tracking : repository.invalidation = .byIdentity) (record : ρ) (free : world.1.own = none) :
    Activity.Safe (rules meaning admits) (fun _ => True) (repository.delete record) Changes
      world := by
  unfold delete needingStore
  split
  · refine (write_safe tracking "delete" .strict _ _ .delete free ?_).mono
      (fun _ holds => holds) (fun _ _ writes => writes.changes)
    exact fun rows changed sound made => lawful.delete sound made
  · exact ⟨free, fun impossible => by simp at impossible⟩

def Emptied (state : RepositoryState ρ) : Prop :=
  state.cache.length = 0 ∧ (∀ key, state.cache.stored? key = none) ∧ state.index.tracked = 0

theorem truncate_safe (lawful : meaning.Lawful) (free : world.1.own = none) :
    Activity.Safe (rules meaning admits) (fun _ => True) (repository.truncate)
      (fun outcome after => after.1.own = none ∧
        ∀ removed, outcome = .ok removed →
          after.1.previous < after.1.count ∧ Emptied after.1.state) world := by
  unfold truncate uncached
  split
  · apply Activity.Safe.bind
    refine deadline_safe "truncate" (fun now reached => ⟨trivial, ?_⟩) fun now reached => ?_
    · exact ⟨reached.own.symm.trans free, fun _ impossible => by simp at impossible⟩
    · refine (effect_safe .truncate .all (reached.own.symm.trans free) ?_ ?_).mono
        (fun _ holds => holds) ?_
      · intro last onward
        have own := (reached.trans onward).own.symm.trans free
        exact ⟨trivial, own, fun _ impossible => by simp at impossible⟩
      · intro rows answer changed sound emptied
        obtain ⟨_, rfl⟩ : rows.size = answer ∧ (.empty : Rows) = changed := by simpa using emptied
        exact ⟨lawful.empty, fun _ _ _ => Or.inr trivial⟩
      · intro outcome met owes
        cases outcome with
        | error failure =>
            have own : met.1.own = none := by
              rcases owes with own | ⟨⟨_, impossible⟩, _⟩
              · exact own
              · simp at impossible
            exact ⟨own, fun _ impossible => by simp at impossible⟩
        | ok removed =>
            intro last onward
            refine ⟨trivial, fun moment admitted => ?_⟩
            obtain ⟨after, step, state, own, count⟩ := last.invalidateAll_step admitted.1
              (owes.imp onward.own.symm.trans fun owed => onward.own.symm.trans owed.2)
            refine ⟨after, step, state, own, fun _ _ => ⟨?_, ?_⟩⟩
            · rw [step.previous, count]
              exact Nat.lt_succ_self _
            · rw [state]
              exact ⟨ReadCache.length_clear _, ReadCache.stored?_clear _, rfl⟩
  · exact ⟨free, fun _ impossible => by simp at impossible⟩

theorem invalidateKey_safe {outcome : α} (key : Key) (free : world.1.own = none) :
    Activity.Safe (rules meaning admits) (fun _ => True)
      (.step fun _ state => (outcome, invalidateKey key state))
      (fun _ after => after.1.own = none) world := by
  intro now reached
  refine ⟨trivial, fun moment admitted => ?_⟩
  have sound := now.2.cache
  obtain ⟨after, step, later, state, _⟩ := now.quiet_step moment
    (invalidateKey key now.1.state) admitted.1 (sound.delete key)
    (fun other entry stored => by
      have stored : (now.1.state.cache.delete key).stored? other = some entry := stored
      rw [sound.stored?_delete] at stored
      split_ifs at stored
      exact stored) rfl rfl
  refine ⟨after, step, state, ?_⟩
  exact later.own.symm.trans (reached.own.symm.trans free)

end Repository

end CachedStore
