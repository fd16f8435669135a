import CachedStore.Proofs.Repository.Histories

/-!
Reading through the cache. A read that finds its value answers with it and does nothing else. Any
other runs its load once, and if that gives a value keeps it, unless a write overlapped the load.
What it kept answers the reads that follow, until it expires or something removes it.
-/

namespace CachedStore

def Shape.Lawful {ρ δ : Type} (shape : Shape ρ δ) : Prop :=
  ∀ value, shape.unwrap (shape.wrap value) = some value

theorem Shape.one_lawful {ρ : Type} : (Shape.one : Shape ρ ρ).Lawful := fun _ => rfl

theorem Shape.many_lawful {ρ : Type} : (Shape.many : Shape ρ (List ρ)).Lawful := fun _ => rfl

namespace Repository

variable {ρ δ : Type} [Record ρ] {repository : Repository}

section Reads

variable {shape : Shape ρ δ} {key : Key} {lifetime : Duration} {clock : Nat → Moment} {step : Nat}
  {before : RepositoryState ρ} {load : Activity (RepositoryState ρ) (Except Failure δ)} {value : δ}

omit [Record ρ] in
theorem lookup_found (sound : before.cache.Sound) (shape : Shape ρ δ) (key : Key)
    (moment : Moment) :
    (lookup shape key moment before).1.1 =
      (before.cache.live? moment.instant key).bind shape.unwrap := by
  simp only [lookup, sound.get_fst]

theorem fetch_hit (sound : before.cache.Sound)
    (found : (before.cache.live? (clock step).instant key).bind shape.unwrap = some value) :
    (repository.fetch shape key lifetime load).runOn clock step before =
      (⟨.ok value, false⟩, (lookup shape key (clock step) before).2, step + 1) := by
  rw [← lookup_found sound] at found
  have ends := fetch_ends repository clock shape key lifetime load step before
  generalize (repository.fetch shape key lifetime load).runOn clock step before = ended at ends
  cases ends with
  | hit other =>
      obtain rfl := Option.some.inj (other.symm.trans found)
      rfl
  | failed missed _ => simp [missed] at found
  | kept missed _ => simp [missed] at found

omit [Record ρ] in
theorem stored?_lookup (sound : before.cache.Sound)
    (found : (before.cache.live? (clock step).instant key).bind shape.unwrap = some value)
    (other : Key) :
    (lookup shape key (clock step) before).2.cache.stored? other = before.cache.stored? other := by
  rcases sound.stored?_get (clock step).instant key other with
    same | ⟨rfl, _, entry, stored, expired⟩
  · exact same
  · simp [ReadCache.live?, stored, Entry.live?, expired] at found

theorem runOn_deadline_ended (repository : Repository) (clock : Nat → Moment) (step : Nat)
    (state : RepositoryState ρ) (operation : String)
    (call : Activity (RepositoryState ρ) (Except Failure δ)) :
    (repository.deadline operation call).runOn clock step state =
      let ended := call.runForOn clock step repository.queryTimeout.ticks state
      (ended.1.elim (.error (deadlineExceeded ρ operation repository.queryTimeout)) (·.1),
        ended.2) := by
  simp only [deadline, Activity.limited, Activity.runOn]
  rcases call.runForOn clock step repository.queryTimeout.ticks state with
    ⟨_ | ⟨result, rest⟩, after, later⟩ <;> rfl

theorem fetch_missed (sound : before.cache.Sound)
    (missed : (before.cache.live? (clock step).instant key).bind shape.unwrap = none) :
    (repository.fetch shape key lifetime load).runOn clock step before =
      match load.runForOn clock (step + 1) repository.queryTimeout.ticks
        (lookup shape key (clock step) before).2 with
      | (none, middle, later) =>
        (⟨.error (deadlineExceeded ρ "load" repository.queryTimeout), true⟩, middle, later)
      | (some (.error failure, _), middle, later) => (⟨.error failure, true⟩, middle, later)
      | (some (.ok value, _), middle, later) =>
        (⟨.ok value, true⟩,
          (repository.keep key (shape.wrap value) lifetime before.index.epoch (clock later)
            middle).2,
          later + 1) := by
  rw [← lookup_found sound] at missed
  have looked : lookup shape key (clock step) before =
      ((none, before.index.epoch), (lookup shape key (clock step) before).2) := by
    rw [← missed]
    rfl
  rw [fetch, Activity.runOn, looked]
  dsimp only
  rw [Activity.runOn_bind, runOn_deadline_ended]
  rcases load.runForOn clock (step + 1) repository.queryTimeout.ticks
    (lookup shape key (clock step) before).2 with ⟨_ | ⟨_ | value, rest⟩, middle, later⟩ <;> rfl

/--
As long as no step removes the entry and its deadline is not reached, reads of the shape find the
value and do not call the store.
-/
def Lasts (repository : Repository) (shape : Shape ρ δ) (key : Key) (value : δ)
    (limit : Option Instant) (start : RepositoryState ρ) : Prop :=
  ∀ (history : History ρ) (clock : Nat → Moment) (step : Nat) (lifetime : Duration)
    (load : Activity (RepositoryState ρ) (Except Failure δ)),
    repository.LeavesAlone key history start →
    (∀ past ∈ history, past.1.instant ≤ (clock step).instant) →
    (∀ deadline, limit = some deadline → ¬deadline ≤ (clock step).instant) →
    ∃ after, (repository.fetch shape key lifetime load).runOn clock step
        (repository.undergo history start) = (⟨.ok value, false⟩, after, step + 1) ∧
      after.store = (repository.undergo history start).store

theorem lasts_of_stored (lawful : shape.Lawful) {start : RepositoryState ρ}
    {limit : Option Instant} (sound : start.cache.Sound)
    (stored : start.cache.stored? key = some ⟨shape.wrap value, limit⟩) :
    repository.Lasts shape key value limit start := by
  intro history clock step lifetime load leaves earlier due
  let entry : Entry (Cached ρ) := ⟨shape.wrap value, limit⟩
  have fresh : entry.isExpired (clock step).instant = false := by
    cases bound : limit with
    | none => simp [entry, Entry.isExpired, bound]
    | some deadline => simpa [entry, Entry.isExpired, bound] using due deadline bound
  -- What is live in the end was live all along, so that no look-up dropped it on the way.
  have always : ∀ past ∈ history, entry.isExpired past.1.instant = false := by
    intro past member
    cases expired : entry.isExpired past.1.instant with
    | false => rfl
    | true =>
        have gone := Entry.live?_of_expired expired (earlier past member)
        simp [Entry.live?, fresh] at gone
  have present := stored?_undergo sound leaves stored always
  have alive : entry.live? (clock step).instant = some (shape.wrap value) := by
    simp [Entry.live?, fresh, entry]
  refine ⟨_, fetch_hit (sound_undergo sound history) ?_, rfl⟩
  rw [ReadCache.live?, present, Option.bind_some, alive, Option.bind_some]
  exact lawful value

/-- How a read ends that had to load, by what its load ended with in the time that it had. -/
structure LoadEnds (repository : Repository) (shape : Shape ρ δ) (key : Key)
    (lifetime : Duration) (clock : Nat → Moment) (looked : RepositoryState ρ)
    (loaded : Option (Except Failure δ × Nat) × RepositoryState ρ × Nat)
    (ended : Fetched δ × RepositoryState ρ × Nat) : Prop where
  late : loaded.1 = none →
    ended = (⟨.error (deadlineExceeded ρ "load" repository.queryTimeout), true⟩, loaded.2)
  failed : ∀ failure rest, loaded.1 = some (.error failure, rest) →
    ended = (⟨.error failure, true⟩, loaded.2)
  kept : ∀ value rest history, loaded.1 = some (.ok value, rest) →
    loaded.2.1 = repository.undergo history looked →
    repository.invalidation = .disabled ∨ repository.invalidations history = 0 →
    ∃ after, ended = (⟨.ok value, true⟩, after, loaded.2.2 + 1) ∧
      Entered key (shape.wrap value) lifetime (clock loaded.2.2).instant loaded.2.1 after ∧
      repository.Lasts shape key value ((clock loaded.2.2).instant.after? lifetime) after
  /-- The epoch counts no further than a machine word does. -/
  overlapped : ∀ value rest history, loaded.1 = some (.ok value, rest) →
    loaded.2.1 = repository.undergo history looked →
    repository.invalidation = .byIdentity →
    0 < repository.invalidations history → repository.invalidations history < UInt64.size →
    ∃ after, ended = (⟨.ok value, true⟩, after, loaded.2.2 + 1) ∧ Dropped key loaded.2.1 after

theorem epoch_add_ne (epoch : UInt64) {count : Nat} (any : 0 < count) (few : count < UInt64.size) :
    epoch + UInt64.ofNat count ≠ epoch := by
  intro same
  have words := congrArg UInt64.toNat same
  rw [UInt64.toNat_add, UInt64.toNat_ofNat'] at words
  have bound := epoch.toNat_lt
  have size : UInt64.size = 2 ^ 64 := rfl
  omega

theorem loadEnds_fetch (lawful : shape.Lawful) (sound : before.cache.Sound)
    (missed : (before.cache.live? (clock step).instant key).bind shape.unwrap = none) :
    LoadEnds repository shape key lifetime clock (lookup shape key (clock step) before).2
      (load.runForOn clock (step + 1) repository.queryTimeout.ticks
        (lookup shape key (clock step) before).2)
      ((repository.fetch shape key lifetime load).runOn clock step before) := by
  rw [fetch_missed sound missed]
  have looked : (lookup shape key (clock step) before).2.cache.Sound := sound.get _ _
  have epoch : (lookup shape key (clock step) before).2.index.epoch = before.index.epoch := rfl
  generalize (lookup shape key (clock step) before).2 = state at looked epoch ⊢
  generalize load.runForOn clock (step + 1) repository.queryTimeout.ticks state = outcome
  obtain ⟨result, middle, later⟩ := outcome
  refine ⟨?_, ?_, ?_, ?_⟩
  · rintro ⟨⟩
    rfl
  · rintro failure rest ⟨⟩
    rfl
  · rintro value rest history ⟨⟩ rfl unnoticed
    let middle := repository.undergo history state
    have reached : middle.cache.Sound := sound_undergo looked history
    have current : repository.invalidation = .disabled ∨
        middle.index.epoch = before.index.epoch := by
      refine unnoticed.imp id fun calm => ?_
      rw [epoch_undergo, calm, epoch]
      exact UInt64.add_zero _
    have kept : Entered key (shape.wrap value) lifetime (clock later).instant middle
        (repository.keep key (shape.wrap value) lifetime before.index.epoch (clock later)
          middle).2 := keep_entered reached current
    exact ⟨_, rfl, kept, lasts_of_stored lawful (sound_keep reached) kept.stored⟩
  · rintro value rest history ⟨⟩ rfl tracking any few
    refine ⟨_, rfl, keep_dropped (sound_undergo looked history) tracking ?_⟩
    rw [epoch_undergo, epoch]
    exact epoch_add_ne _ any few

/--
A read answers with what is cached under its key, if that is live and has its shape, and then
nothing changes. Otherwise its load runs once. What the load gives is kept, and answers the reads of
that shape until it expires or is removed, unless an invalidation overlapped the load. The load is
any activity on the repository: it stands for what others do there in the meantime, too.
-/
theorem fetch_reads_through (repository : Repository) (clock : Nat → Moment) (step : Nat)
    (key : Key) (lifetime : Duration) (load : Activity (RepositoryState ρ) (Except Failure δ))
    (lawful : shape.Lawful) (sound : before.cache.Sound) :
    let found := (before.cache.live? (clock step).instant key).bind shape.unwrap
    let looked := (lookup shape key (clock step) before).2
    let loaded := load.runForOn clock (step + 1) repository.queryTimeout.ticks looked
    let ended := (repository.fetch shape key lifetime load).runOn clock step before
    Untraced (some key) True (clock step).instant before looked ∧
      (∀ value, found = some value → ended = (⟨.ok value, false⟩, looked, step + 1) ∧
        ∀ other, looked.cache.stored? other = before.cache.stored? other) ∧
      (found = none → LoadEnds repository shape key lifetime clock looked loaded ended ∧
        ∀ call, load = onStore call →
          loaded.2.1.cache = looked.cache ∧ loaded.2.1.index = looked.index) := by
  refine ⟨untraced_lookup sound (fun _ => rfl) (fun _ => rfl) rfl rfl, ?_, ?_⟩
  · exact fun value found => ⟨fetch_hit sound found, stored?_lookup sound found⟩
  · refine fun missed => ⟨loadEnds_fetch lawful sound missed, ?_⟩
    rintro call rfl
    have apart := runOn_deadline_apart repository clock (step + 1)
      (lookup shape key (clock step) before).2 "load" call
    rw [runOn_deadline_ended] at apart
    exact apart

end Reads

theorem undergo_useStore (repository : Repository) {looked middle : RepositoryState ρ}
    (moment : Moment) (cache : middle.cache = looked.cache)
    (index : middle.index = looked.index) :
    middle = repository.undergo [(moment, .useStore middle.store)] looked := by
  obtain ⟨_, _, _⟩ := middle
  obtain ⟨_, _, _⟩ := looked
  obtain rfl := cache
  obtain rfl := index
  rfl

def ada : Account := ⟨some ⟨"a"⟩, "ada", 10, .none⟩

def stocked : RepositoryState Account :=
  ⟨.single ⟨8, .empty, .empty, .zero⟩, .empty,
    ((MemoryStore.createRecord ada).runOn afternoon 0 (.create none)).2.1⟩

def loadAda : Activity (RepositoryState Account) (Except Failure Account) :=
  onStore (MemoryStore.readByKey Record.blank ⟨"a"⟩)

def readAda : Activity (RepositoryState Account) (Fetched Account) :=
  standard.fetch .one "k" standard.readTtl loadAda

/-- The account is read once, after which a write to another one changes nothing for its readers. -/
theorem fetch_reads_through_twice :
    ∃ (first second : RepositoryState Account) (next : Nat),
      readAda.runOn afternoon 0 stocked = (⟨.ok ada, true⟩, first, next) ∧
      readAda.runOn afternoon 20
          (standard.invalidateRecord (some ⟨"b"⟩) (afternoon 10) first).2 =
        (⟨.ok ada, false⟩, second, 21) ∧
      second.store = first.store := by
  have created : ReadCache.create 8 none =
      .ok (ReadCache.single ⟨8, .empty, .empty, .zero⟩ : ReadCache (Cached Account)) := rfl
  have sound : stocked.cache.Sound := (ReadCache.create_sound created).1
  obtain ⟨_, _, missed⟩ := fetch_reads_through standard afternoon 0 "k" standard.readTtl loadAda
    Shape.one_lawful sound
  obtain ⟨ends, apart⟩ := missed (by decide +kernel)
  obtain ⟨cache, index⟩ := apart _ rfl
  have loaded := undergo_useStore standard (afternoon 1) cache index
  obtain ⟨first, ran, _, lasts⟩ := ends.kept ada 5000 _ (by decide +kernel) loaded (Or.inr rfl)
  have reached : first = (readAda.runOn afternoon 0 stocked).2.1 := by
    rw [readAda, ran]
  have spared : "k" ∉ (first.index.take (some ⟨"b"⟩)).1 := by
    rw [reached]
    decide +kernel
  obtain ⟨second, again, store⟩ := lasts
    [(afternoon 10, .invalidateRecord (some ⟨"b"⟩))] afternoon 20 standard.readTtl loadAda
    ⟨fun removed => spared removed.2, trivial⟩ (by decide) (by decide +kernel)
  exact ⟨first, second, _, ran, again, store⟩

/-- A load that a write to its account overlaps leaves nothing under the key. -/
example :
    let load := loadAda.bind fun loaded =>
      .act (standard.invalidateRecord (some ⟨"a"⟩)) fun _ => .done loaded
    let ended := (standard.fetch .one "k" standard.readTtl load).runOn afternoon 0 stocked
    ended.1.outcome = .ok ada ∧ (ended.2.1.cache.stored? "k").isSome = false := by
  decide +kernel

/--
A read of the other shape under the key takes the place of the account there. It is live, nothing
was evicted or invalidated, and yet the next read of it calls the store.
-/
theorem fetch_other_shape_loads :
    let first := readAda.runOn afternoon 0 stocked
    let second := (standard.readAll "k").runOn afternoon first.2.2 first.2.1
    let third := readAda.runOn afternoon second.2.2 second.2.1
    let now := (afternoon second.2.2).instant
    first.1.outcome = .ok ada ∧ first.1.loaded = true ∧ second.1 = .ok [ada] ∧
      first.2.1.cache.live? now "k" = some (.one ada) ∧
      (second.2.1.cache.live? now "k").isSome = true ∧
      second.2.1.cache.stats.evictions = 0 ∧ second.2.1.index.epoch = first.2.1.index.epoch ∧
      third.1.outcome = .ok ada ∧ third.1.loaded = true ∧
      third.2.1.store.calls.readByKey = first.2.1.store.calls.readByKey + 1 := by
  decide +kernel

end Repository

end CachedStore
