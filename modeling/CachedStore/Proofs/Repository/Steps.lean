import CachedStore.Proofs.Repository.Snapshot

/-!
The steps that operations are made of, each from one consistent snapshot to another.
-/

namespace CachedStore

theorem Repository.state_of_build {ρ : Type} [Record ρ] {repository : Repository}
    {cache : ReadCache (Cached ρ)} {store : MemoryStore ρ} {state : RepositoryState ρ}
    (built : repository.build (some cache) store = .ok state) : state = ⟨cache, .empty, store⟩ := by
  simp only [build] at built
  split at built
  · cases built
  · exact (Except.ok.inj built).symm

namespace Snapshot

variable {ρ : Type} [Record ρ] {meaning : Meaning ρ}

theorem Carries.refl (snapshot : Snapshot ρ) : Carries meaning snapshot snapshot :=
  fun _ _ _ explained => explained

theorem Later.refl (snapshot : Snapshot ρ) : Later meaning snapshot snapshot :=
  ⟨Instant.le_refl _, Nat.le_refl _, rfl, Carries.refl snapshot⟩

theorem Later.trans {first second third : Snapshot ρ} (before : Later meaning first second)
    (after : Later meaning second third) : Later meaning first third where
  now := Instant.le_trans before.now after.now
  count := Nat.le_trans before.count after.count
  own := before.own.trans after.own
  carries := fun same key cached explained => by
    have middle := before.count
    have last := after.count
    have first := before.carries (by omega) key cached explained
    exact after.carries (by omega) key cached first

theorem Consistent.of_built {repository : Repository} {capacity : UInt64}
    {shards : Option UInt64} {cache : ReadCache (Cached ρ)} {store : MemoryStore ρ}
    {snapshot : Snapshot ρ} (created : ReadCache.create capacity shards = .ok cache)
    (built : repository.build (some cache) store = .ok snapshot.state)
    (sound : meaning.Sound store.rows) (count : snapshot.count = 0) :
    snapshot.Consistent meaning := by
  have clean := ReadCache.create_sound created
  have state := Repository.state_of_build built
  have cold : ∀ key cached, snapshot.state.cache.live? snapshot.now key ≠ some cached := by
    intro key cached alive
    rw [state, ReadCache.live?, clean.2] at alive
    cases alive
  refine ⟨?_, fun key cached alive => absurd alive (cold key cached), ?_, ?_,
    fun key cached alive => absurd alive (cold key cached)⟩
  · rw [state]
    exact clean.1
  · rw [state, count]
    rfl
  · rw [state]
    exact sound

def next (snapshot : Snapshot ρ) (moment : Moment) (state : RepositoryState ρ)
    (own : Option Debt) : Snapshot ρ where
  state := state
  now := moment.instant
  count := snapshot.count + if state.index.epoch = snapshot.state.index.epoch then 0 else 1
  previous := snapshot.count
  others := snapshot.others
  own := own

end Snapshot

theorem Repository.AtRest.of_built {ρ : Type} [Record ρ] {meaning : Meaning ρ}
    {repository : Repository} {capacity : UInt64} {shards : Option UInt64}
    {cache : ReadCache (Cached ρ)} {store : MemoryStore ρ} {state : RepositoryState ρ}
    (created : ReadCache.create capacity shards = .ok cache)
    (built : repository.build (some cache) store = .ok state) (sound : meaning.Sound store.rows)
    (now : Instant) : AtRest meaning now state := by
  let snapshot : Snapshot ρ := ⟨state, now, 0, 0, ∅, none⟩
  have consistent : snapshot.Consistent meaning := .of_built created built sound rfl
  exact ⟨⟨snapshot, consistent⟩, rfl, Instant.le_refl _, rfl, rfl⟩

namespace World

open Snapshot

variable {ρ : Type} [Record ρ] {meaning : Meaning ρ}

theorem calm_step (world : World meaning) (moment : Moment) (state : RepositoryState ρ)
    (order : world.1.now ≤ moment.instant) (sound : state.cache.Sound)
    (epoch : state.index.epoch = world.1.state.index.epoch)
    (rows : meaning.Sound state.store.rows)
    (fits : ∀ key cached, meaning.Fits world.1.state.store.rows key cached →
      meaning.Fits state.store.rows key cached)
    (held : ∀ key cached, state.cache.live? moment.instant key = some cached →
      state.index.Tracks key cached.recordId? ∧ world.1.Explains meaning key cached) :
    ∃ after : World meaning, Step meaning world.1 moment after.1 ∧
      Later meaning world.1 after.1 ∧ after.1.state = state ∧ after.1.count = world.1.count := by
  obtain ⟨snapshot, consistent⟩ := world
  have count : (snapshot.next moment state snapshot.own).count = snapshot.count := by
    simp [next, epoch]
  have carries : Carries meaning snapshot (snapshot.next moment state snapshot.own) := by
    intro _ key cached explained
    exact explained.imp (fits key cached) id
  have after : (snapshot.next moment state snapshot.own).Consistent meaning := {
    cache := sound
    tracked := fun key cached alive => (held key cached alive).1
    epoch := by
      rw [count]
      exact epoch.trans consistent.epoch
    rows := rows
    explained := fun key cached alive => carries count.symm key cached (held key cached alive).2 }
  refine ⟨⟨_, after⟩, ⟨rfl, rfl, rfl, rfl, ?_, carries⟩, ⟨order, ?_, rfl, carries⟩, rfl, count⟩
  · intro owing
    exact ⟨epoch, Or.inr owing⟩
  · rw [count]

theorem held_before (world : World meaning) {now : Instant} {cache : ReadCache (Cached ρ)}
    {key : Key} {cached : Cached ρ} (order : world.1.now ≤ now)
    (kept : ∀ entry, cache.stored? key = some entry →
      world.1.state.cache.stored? key = some entry)
    (alive : cache.live? now key = some cached) :
    world.1.state.index.Tracks key cached.recordId? ∧ world.1.Explains meaning key cached := by
  obtain ⟨entry, stored, current⟩ := Option.bind_eq_some_iff.mp alive
  have before : world.1.state.cache.live? now key = some cached :=
    Option.bind_eq_some_iff.mpr ⟨entry, kept entry stored, current⟩
  have earlier := ReadCache.live?_earlier order before
  exact ⟨world.2.tracked key cached earlier, world.2.explained key cached earlier⟩

theorem quiet_step (world : World meaning) (moment : Moment) (state : RepositoryState ρ)
    (order : world.1.now ≤ moment.instant) (sound : state.cache.Sound)
    (kept : ∀ key entry, state.cache.stored? key = some entry →
      world.1.state.cache.stored? key = some entry)
    (index : state.index = world.1.state.index)
    (rows : state.store.rows = world.1.state.store.rows) :
    ∃ after : World meaning, Step meaning world.1 moment after.1 ∧
      Later meaning world.1 after.1 ∧ after.1.state = state ∧ after.1.count = world.1.count := by
  refine world.calm_step moment state order sound (congrArg KeyIndex.epoch index) ?_ ?_ ?_
  · exact rows.symm ▸ world.2.rows
  · intro key cached fits
    exact rows.symm ▸ fits
  · intro key cached alive
    rw [index]
    exact world.held_before order (kept key) alive

theorem idle_step (world : World meaning) {moment : Moment}
    (order : world.1.now ≤ moment.instant) :
    ∃ after : World meaning, Step meaning world.1 moment after.1 ∧
      Later meaning world.1 after.1 ∧ after.1.state = world.1.state := by
  obtain ⟨after, step, later, state, _⟩ := world.quiet_step moment world.1.state order
    world.2.cache (fun _ _ stored => stored) rfl rfl
  exact ⟨after, step, later, state⟩

def rules (meaning : Meaning ρ) (admits : Nat → Prop) :
    Rules (RepositoryState ρ) (World meaning) where
  state world := world.1.state
  admits world moment := world.1.now ≤ moment.instant ∧ admits world.1.count
  later before after := Later meaning before.1 after.1
  step before moment after := Step meaning before.1 moment after.1
  limits := True
  refl world := Later.refl world.1
  trans := Later.trans
  idle := fun {world} {_} admitted => world.idle_step admitted.1

theorem lookup_step (world : World meaning) {moment : Moment} {δ : Type} (shape : Shape ρ δ)
    (key : Key) (order : world.1.now ≤ moment.instant) :
    ∃ after : World meaning, Step meaning world.1 moment after.1 ∧
      Later meaning world.1 after.1 ∧ after.1.count = world.1.count ∧
      after.1.state = (Repository.lookup shape key moment world.1.state).2 ∧
      (Repository.lookup shape key moment world.1.state).1 =
        ((world.1.state.cache.live? moment.instant key).bind shape.unwrap,
          UInt64.ofNat world.1.count) := by
  obtain ⟨snapshot, consistent⟩ := world
  have sound := consistent.cache
  obtain ⟨after, step, later, state, count⟩ := quiet_step ⟨snapshot, consistent⟩
    moment (Repository.lookup shape key moment snapshot.state).2 order
    (sound.get moment.instant key) (fun other entry found => sound.stored?_of_get found) rfl rfl
  refine ⟨after, step, later, count, state, ?_⟩
  simp only [Repository.lookup, sound.get_fst, consistent.epoch]

theorem write_step (world : World meaning) (moment : Moment) (store : MemoryStore ρ) (debt : Debt)
    (order : world.1.now ≤ moment.instant) (free : world.1.own = none)
    (sound : meaning.Sound store.rows)
    (stale : ∀ key cached, meaning.Fits world.1.state.store.rows key cached →
      meaning.Fits store.rows key cached ∨ debt.Affects cached) :
    ∃ after : World meaning, Step meaning world.1 moment after.1 ∧
      after.1.state = { world.1.state with store := store } ∧
      (after.1.own = none ∨ after.1.own = some debt) := by
  by_cases same : store.rows = world.1.state.store.rows
  · obtain ⟨after, step, later, state, _⟩ := world.quiet_step
      moment { world.1.state with store := store } order world.2.cache
      (fun _ _ stored => stored) rfl same
    exact ⟨after, step, state, Or.inl (later.own.symm.trans free)⟩
  · obtain ⟨snapshot, consistent⟩ := world
    let changed := snapshot.next moment { snapshot.state with store := store } (some debt)
    have count : changed.count = snapshot.count := by simp [changed, next]
    have carries : Carries meaning snapshot changed := by
      intro _ key cached explained
      rcases explained with fits | ⟨other, owed, affects⟩
      · rcases stale key cached fits with still | affects
        · exact Or.inl still
        · exact Or.inr ⟨debt, Or.inr rfl, affects⟩
      · rcases owed with owed | own
        · exact Or.inr ⟨other, Or.inl owed, affects⟩
        · exact absurd (own.symm.trans free) (by simp)
    have live : ∀ key cached, changed.state.cache.live? changed.now key = some cached →
        snapshot.state.cache.live? snapshot.now key = some cached :=
      fun key cached alive => ReadCache.live?_earlier order alive
    have after : changed.Consistent meaning := {
      cache := consistent.cache
      tracked := fun key cached alive => consistent.tracked key cached (live key cached alive)
      epoch := by
        rw [count]
        exact consistent.epoch
      rows := sound
      explained := fun key cached alive =>
        carries count.symm key cached (consistent.explained key cached (live key cached alive)) }
    exact ⟨⟨changed, after⟩, ⟨rfl, rfl, rfl, rfl, fun _ => ⟨rfl, Or.inl same⟩, carries⟩, rfl,
      Or.inr rfl⟩

theorem drop_step (world : World meaning) (moment : Moment) (state : RepositoryState ρ)
    {debt : Debt} (order : world.1.now ≤ moment.instant)
    (owed : world.1.own = none ∨ world.1.own = some debt) (sound : state.cache.Sound)
    (epoch : state.index.epoch = world.1.state.index.epoch + 1)
    (rows : state.store.rows = world.1.state.store.rows)
    (held : ∀ key cached, state.cache.live? moment.instant key = some cached →
      state.index.Tracks key cached.recordId? ∧ world.1.Explains meaning key cached ∧
        ¬ debt.Affects cached) :
    ∃ after : World meaning, Step meaning world.1 moment after.1 ∧ after.1.state = state ∧
      after.1.own = none ∧ after.1.count = world.1.count + 1 := by
  obtain ⟨snapshot, consistent⟩ := world
  let cleared := snapshot.next moment state none
  have moved : state.index.epoch ≠ snapshot.state.index.epoch := by
    rw [epoch]
    exact KeyIndex.epoch_moves _
  have count : cleared.count = snapshot.count + 1 := by simp [cleared, next, moved]
  have carries : Carries meaning snapshot cleared := by
    intro same
    omega
  have explained : ∀ key cached, cleared.state.cache.live? cleared.now key = some cached →
      cleared.Explains meaning key cached := by
    intro key cached alive
    obtain ⟨_, explained, unaffected⟩ := held key cached alive
    rcases explained with fits | ⟨other, owes, affects⟩
    · refine Or.inl ?_
      have same : cleared.state.store.rows = snapshot.state.store.rows := rows
      exact same.symm ▸ fits
    · rcases owes with others | own
      · exact Or.inr ⟨other, Or.inl others, affects⟩
      · have equal : other = debt := by
          rcases owed with none | some
          · exact absurd (none.symm.trans own) (by simp)
          · exact Option.some.inj (own.symm.trans some)
        exact absurd (equal ▸ affects) unaffected
  have after : cleared.Consistent meaning := {
    cache := sound
    tracked := fun key cached alive => (held key cached alive).1
    epoch := by
      rw [count, UInt64.ofNat_add]
      exact epoch.trans (congrArg (· + 1) consistent.epoch)
    rows := by
      have same : cleared.state.store.rows = snapshot.state.store.rows := rows
      exact same.symm ▸ consistent.rows
    explained := explained }
  exact ⟨⟨cleared, after⟩, ⟨rfl, rfl, rfl, rfl, fun owing => absurd rfl owing, carries⟩, rfl, rfl,
    count⟩

theorem invalidateRecord_step (world : World meaning) {moment : Moment} {repository : Repository}
    (tracking : repository.invalidation = .byIdentity) (id : Option RecordId)
    (order : world.1.now ≤ moment.instant)
    (owed : world.1.own = none ∨ world.1.own = some (.record id)) :
    ∃ after : World meaning, Step meaning world.1 moment after.1 ∧
      after.1.state = (repository.invalidateRecord id moment world.1.state).2 ∧
      after.1.own = none ∧ after.1.count = world.1.count + 1 ∧
      ∀ key cached, after.1.state.cache.live? moment.instant key = some cached →
        cached.recordId? ≠ none ∧ cached.recordId? ≠ id := by
  have consistent := world.2
  let taken := world.1.state.index.take id
  have state : (repository.invalidateRecord id moment world.1.state).2 =
      { world.1.state with
        cache := world.1.state.cache.deleteAll taken.1, index := taken.2 } := by
    simp [Repository.invalidateRecord, tracking, taken]
  have remains : ∀ key entry, (world.1.state.cache.deleteAll taken.1).stored? key = some entry →
      key ∉ taken.1 ∧ world.1.state.cache.stored? key = some entry := by
    intro key entry stored
    rw [consistent.cache.stored?_deleteAll] at stored
    split_ifs at stored with member
    exact ⟨member, stored⟩
  have apart : ∀ key cached,
      (world.1.state.cache.deleteAll taken.1).live? moment.instant key = some cached →
        (world.1.state.index.Tracks key cached.recordId? ∧ world.1.Explains meaning key cached) ∧
          cached.recordId? ≠ none ∧ cached.recordId? ≠ id := by
    intro key cached alive
    have held := world.held_before order (fun entry stored => (remains key entry stored).2) alive
    obtain ⟨entry, stored, _⟩ := Option.bind_eq_some_iff.mp alive
    have untaken := (remains key entry stored).1
    refine ⟨held, fun none => ?_, fun own => ?_⟩
    · exact untaken (KeyIndex.take_covers held.1 (Or.inl none))
    · exact untaken (KeyIndex.take_covers held.1 (Or.inr own))
  obtain ⟨after, step, reached, free, count⟩ := world.drop_step
    moment { world.1.state with
      cache := world.1.state.cache.deleteAll taken.1, index := taken.2 }
    order owed (consistent.cache.deleteAll taken.1) (KeyIndex.epoch_take _ id) rfl
    (fun key cached alive => by
      obtain ⟨⟨tracked, explained⟩, some, other⟩ := apart key cached alive
      refine ⟨?_, explained, fun affects => affects.elim some other⟩
      cases owner : cached.recordId? with
      | none => exact absurd owner some
      | some record =>
          rw [owner] at tracked other
          exact KeyIndex.tracks_take tracked other.symm)
  refine ⟨after, step, reached.trans state.symm, free, count, fun key cached alive => ?_⟩
  rw [reached] at alive
  exact (apart key cached alive).2

theorem invalidateAll_step (world : World meaning) {moment : Moment}
    (order : world.1.now ≤ moment.instant)
    (owed : world.1.own = none ∨ world.1.own = some .all) :
    ∃ after : World meaning, Step meaning world.1 moment after.1 ∧
      after.1.state = (Repository.invalidateAll moment world.1.state).2 ∧
      after.1.own = none ∧ after.1.count = world.1.count + 1 := by
  have empty : ∀ key, world.1.state.cache.clear.stored? key = none :=
    fun key => ReadCache.stored?_clear _ key
  obtain ⟨after, step, reached, free, count⟩ := world.drop_step
    moment (Repository.invalidateAll moment world.1.state).2 order owed
    world.2.cache.clear rfl rfl
    (fun key cached alive => by simp [Repository.invalidateAll, ReadCache.live?, empty] at alive)
  exact ⟨after, step, reached, free, count⟩

theorem epoch_overlapped {since count : Nat} (before : since < count)
    (near : count < since + 2 ^ 64) : UInt64.ofNat count ≠ UInt64.ofNat since := by
  intro same
  have words := congrArg UInt64.toNat same
  simp only [UInt64.toNat_ofNat'] at words
  omega

theorem keep_current_step (world : World meaning) {moment : Moment} {repository : Repository}
    (tracking : repository.invalidation = .byIdentity) (key : Key) (cached : Cached ρ)
    (lifetime : Duration) (order : world.1.now ≤ moment.instant)
    (explained : world.1.Explains meaning key cached) :
    ∃ after : World meaning, Step meaning world.1 moment after.1 ∧
      Later meaning world.1 after.1 ∧
      after.1.state = (repository.keep key cached lifetime (UInt64.ofNat world.1.count) moment
        world.1.state).2 ∧
      after.1.count = world.1.count := by
  have consistent := world.2
  have sound := consistent.cache.insert moment.instant key cached (some lifetime)
  have remembered := KeyIndex.remember_current world.1.state.index key cached.recordId?
  rw [consistent.epoch] at remembered
  generalize outcome : world.1.state.index.remember (UInt64.ofNat world.1.count) key
    cached.recordId? = result at remembered
  obtain ⟨fresh, index⟩ := result
  obtain ⟨rfl, same, own, others⟩ := remembered
  let inserted := (world.1.state.cache.insert moment.instant key cached (some lifetime)).2
  let pruned := (index.pruneOver (max Repository.pruneFloor (2 * inserted.length))
    (inserted.contains moment.instant)).2
  have state : (repository.keep key cached lifetime (UInt64.ofNat world.1.count) moment
      world.1.state).2 = { world.1.state with cache := inserted, index := pruned } := by
    simp [Repository.keep, tracking, Repository.remember, outcome, inserted, pruned]
  have held : ∀ other value, inserted.live? moment.instant other = some value →
      pruned.Tracks other value.recordId? ∧ world.1.Explains meaning other value := by
    intro other value alive
    -- Pruning asks the cache itself which keys are live, so that it keeps the track of this one.
    have stays : inserted.contains moment.instant other = true := by
      rw [sound.contains, alive]
      rfl
    by_cases equal : other = key
    · subst equal
      obtain rfl : value = cached := consistent.cache.live?_insert alive
      exact ⟨KeyIndex.tracks_pruneOver own _ stays, explained⟩
    · have before := world.held_before order
        (fun entry found => consistent.cache.stored?_of_insert equal found) alive
      exact ⟨KeyIndex.tracks_pruneOver (others other _ before.1) _ stays, before.2⟩
  obtain ⟨after, step, later, reached, count⟩ := world.calm_step
    moment { world.1.state with cache := inserted, index := pruned } order sound
    ((KeyIndex.epoch_pruneOver _ _ _).trans (same.trans consistent.epoch.symm)) consistent.rows
    (fun _ _ fits => fits) held
  exact ⟨after, step, later, reached.trans state.symm, count⟩

theorem keep_overlapped_step (world : World meaning) {moment : Moment} {repository : Repository}
    (tracking : repository.invalidation = .byIdentity) (key : Key) (cached : Cached ρ)
    (lifetime : Duration) {since : Nat} (order : world.1.now ≤ moment.instant)
    (before : since < world.1.count) (near : world.1.count < since + 2 ^ 64) :
    ∃ after : World meaning, Step meaning world.1 moment after.1 ∧
      Later meaning world.1 after.1 ∧
      after.1.state =
        (repository.keep key cached lifetime (UInt64.ofNat since) moment world.1.state).2 ∧
      after.1.count = world.1.count ∧ after.1.state.cache.stored? key = none := by
  have consistent := world.2
  have sound := consistent.cache.insert moment.instant key cached (some lifetime)
  have overlapped : world.1.state.index.epoch ≠ UInt64.ofNat since := by
    rw [consistent.epoch]
    exact epoch_overlapped before near
  have state : (repository.keep key cached lifetime (UInt64.ofNat since) moment world.1.state).2 =
      { world.1.state with
        cache := (world.1.state.cache.insert moment.instant key cached (some lifetime)).2.delete
          key } := by
    simp [Repository.keep, tracking, Repository.remember, KeyIndex.remember_overlapped overlapped]
  have kept : ∀ other entry,
      ((world.1.state.cache.insert moment.instant key cached (some lifetime)).2.delete
        key).stored? other = some entry → world.1.state.cache.stored? other = some entry := by
    intro other entry stored
    rw [sound.stored?_delete] at stored
    split_ifs at stored with same
    exact consistent.cache.stored?_of_insert same stored
  obtain ⟨after, step, later, reached, count⟩ := world.quiet_step
    moment (repository.keep key cached lifetime (UInt64.ofNat since) moment world.1.state).2
    order (by rw [state]; exact sound.delete key) (by rw [state]; exact kept) (by rw [state])
    (by rw [state])
  refine ⟨after, step, later, reached, count, ?_⟩
  rw [reached, state, sound.stored?_delete, if_pos rfl]

theorem keep_step (world : World meaning) {moment : Moment} {repository : Repository}
    (tracking : repository.invalidation = .byIdentity) (key : Key) (cached : Cached ρ)
    (lifetime : Duration) {since : Nat} (order : world.1.now ≤ moment.instant)
    (before : since ≤ world.1.count) (near : world.1.count < since + 2 ^ 64)
    (explained : since = world.1.count → world.1.Explains meaning key cached) :
    ∃ after : World meaning, Step meaning world.1 moment after.1 ∧
      Later meaning world.1 after.1 ∧
      after.1.state =
        (repository.keep key cached lifetime (UInt64.ofNat since) moment world.1.state).2 ∧
      after.1.count = world.1.count ∧
      (since < world.1.count → after.1.state.cache.stored? key = none) := by
  rcases Nat.eq_or_lt_of_le before with current | overlapped
  · subst current
    obtain ⟨after, step, later, state, count⟩ :=
      world.keep_current_step tracking key cached lifetime order (explained rfl)
    exact ⟨after, step, later, state, count, fun earlier => absurd earlier (Nat.lt_irrefl _)⟩
  · obtain ⟨after, step, later, state, count, dropped⟩ :=
      world.keep_overlapped_step tracking key cached lifetime order overlapped near
    exact ⟨after, step, later, state, count, fun _ => dropped⟩

end World

end CachedStore
