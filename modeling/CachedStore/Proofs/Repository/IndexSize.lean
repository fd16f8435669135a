import CachedStore.Proofs.Repository.Aftermath
import CachedStore.Proofs.Repository.Loading
import CachedStore.Proofs.Repository.Sequence

/-!
How large the index gets. A key is tracked once for each record that was read under it, so that the
cache bounds the number of keys in the index, but bounds its size only as far as keys are not used
for more and more records.
-/

namespace CachedStore

namespace KeyIndex

variable {index : KeyIndex} {key : Key} {owner : Option RecordId} {limit : Nat}
  {live : Key → Bool}

/-- Every tracked key, once for each record or list that it is tracked for. -/
def allKeys (index : KeyIndex) : List Key := index.takeAll.1

theorem length_allKeys (index : KeyIndex) : index.allKeys.length = index.tracked := by
  rw [allKeys, ← keys_pairList, List.length_map, length_pairList]

theorem mem_allKeys : key ∈ index.allKeys ↔ ∃ owner, index.Tracks key owner := by
  simp only [allKeys, ← keys_pairList, List.mem_map, Prod.exists, mem_pairList, exists_and_right,
    exists_eq_right]

theorem allKeys_pruneOver (index : KeyIndex) (limit : Nat) (live : Key → Bool) :
    (index.pruneOver limit live).2.tracked ≤ limit ∨
      ∀ key ∈ (index.pruneOver limit live).2.allKeys, live key = true := by
  by_cases few : index.tracked ≤ limit
  · refine Or.inl ?_
    rw [pruneOver, if_pos few]
    exact few
  · refine Or.inr fun key member => ?_
    obtain ⟨owner, tracked⟩ := mem_allKeys.mp member
    exact ((tracks_pruneOver_iff (Nat.lt_of_not_le few)).mp tracked).2

end KeyIndex

theorem length_le_of_count_le {α : Type} [BEq α] [LawfulBEq α] {most : Nat}
    {held listed : List α} (few : ∀ item, listed.count item ≤ most)
    (within : ∀ item ∈ listed, item ∈ held) : listed.length ≤ most * held.length := by
  induction held generalizing listed with
  | nil =>
      have none : listed = [] := List.eq_nil_iff_forall_not_mem.mpr fun item member =>
        List.not_mem_nil (within item member)
      simp [none]
  | cons first rest ih =>
      have others : (listed.filter (· != first)).length ≤ most * rest.length := by
        refine ih (fun item => ?_) fun item member => ?_
        · exact (List.filter_sublist.count_le item).trans (few item)
        · obtain ⟨belongs, different⟩ := List.mem_filter.mp member
          exact (List.mem_cons.mp (within item belongs)).resolve_left (by simpa using different)
      have parts : listed.length = listed.count first + (listed.filter (· != first)).length := by
        rw [List.length_eq_countP_add_countP (· == first), List.count,
          ← List.countP_eq_length_filter]
        congr 2
        funext item
        simp [bne]
      have copies := few first
      rw [List.length_cons, Nat.mul_succ]
      omega

namespace Repository

variable {ρ : Type} [Record ρ] {δ : Type} {repository : Repository} {clock : Nat → Moment}
  {step : Nat} {state : RepositoryState ρ}

/-- The index has at most twice as many entries as the cache, or only keys of the cache. -/
def IndexFits (state : RepositoryState ρ) : Prop :=
  state.index.tracked ≤ max pruneFloor (2 * state.cache.length) ∨
    ∀ key ∈ state.index.allKeys, key ∈ state.cache.allKeys

theorem keep_indexFits (tracking : repository.invalidation = .byIdentity)
    (sound : state.cache.Sound) (key : Key) (cached : Cached ρ) (lifetime : Duration)
    (moment : Moment) :
    let after := (repository.keep key cached lifetime state.index.epoch moment state).2
    after.cache.Sound ∧ (after.cache.stored? key).isSome = true ∧ IndexFits after := by
  obtain ⟨current, _⟩ := state.index.remember_current key cached.recordId?
  have inserted := sound.insert moment.instant key cached (some lifetime)
  have stored := sound.stored?_insert moment.instant key cached (some lifetime)
  simp only [keep, tracking, remember]
  generalize state.index.remember state.index.epoch key cached.recordId? = outcome at current ⊢
  obtain ⟨_ | _, index⟩ := outcome
  · cases current
  · refine ⟨inserted, by simp [stored], ?_⟩
    refine (index.allKeys_pruneOver _ _).imp id fun alive other member => ?_
    have present := alive other member
    rw [inserted.contains, ReadCache.live?] at present
    cases found :
        (state.cache.insert moment.instant key cached (some lifetime)).2.stored? other with
    | none => simp [found] at present
    | some entry => exact inserted.mem_allKeys found

omit [Record ρ] in
theorem IndexFits.bounds (fits : IndexFits state) (sound : state.cache.Sound) :
    (∀ keys : List Key, keys.Nodup → keys ⊆ state.index.allKeys →
      keys.length ≤ max pruneFloor (2 * state.cache.length)) ∧
      ∀ most, (∀ key, state.index.allKeys.count key ≤ most) →
        state.index.tracked ≤ max pruneFloor (max 2 most * state.cache.length) := by
  rcases fits with few | present
  · constructor
    · intro keys distinct within
      have bound := distinct.length_le_of_subset within
      rw [state.index.length_allKeys] at bound
      omega
    · intro most _
      refine Nat.le_trans few (Nat.max_le.mpr ⟨Nat.le_max_left _ _, ?_⟩)
      have twice : 2 * state.cache.length ≤ max 2 most * state.cache.length :=
        Nat.mul_le_mul_right _ (Nat.le_max_left 2 most)
      exact Nat.le_trans twice (Nat.le_max_right _ _)
  · constructor
    · intro keys distinct within
      have bound := distinct.length_le_of_subset fun key member => present key (within member)
      rw [sound.length_allKeys] at bound
      omega
    · intro most shared
      have bound := length_le_of_count_le shared present
      rw [state.index.length_allKeys, sound.length_allKeys] at bound
      have more : most * state.cache.length ≤ max 2 most * state.cache.length :=
        Nat.mul_le_mul_right _ (Nat.le_max_right 2 most)
      exact Nat.le_trans bound (Nat.le_trans more (Nat.le_max_right _ _))

section Histories

variable [LawfulRecord ρ] {capacity : UInt64} {shards : Option UInt64}
  {cache : ReadCache (Cached ρ)} {store : MemoryStore ρ} {start before after : RepositoryState ρ}
  {deeds : List (Deed ρ)} {next : Nat} {shape : Shape ρ δ} {key : Key} {lifetime : Duration}
  {load : Activity (MemoryStore ρ) (Except Failure δ)} {value : δ}

theorem sound_runDeeds (tracking : repository.invalidation = .byIdentity)
    (created : ReadCache.create capacity shards = .ok cache)
    (built : repository.build (some cache) store = .ok start)
    (order : ∀ step, (clock step).instant ≤ (clock (step + 1)).instant)
    (ran : repository.runDeeds clock deeds 0 start = (before, step)) : before.cache.Sound := by
  have first : AtRest (Meaning.any ρ) (clock 0).instant start :=
    .of_built created built trivial _
  have allowed : ∀ deed ∈ deeds, deed.Allowed (Meaning.any ρ) := by
    intro deed _
    cases deed with
    | operate operation => exact operation.any_allowed
    | _ => trivial
  have last := first.runDeeds Meaning.any_lawful tracking order allowed
  rw [ran] at last
  obtain ⟨world, rfl, _⟩ := last
  exact world.2.cache

/--
After any history, a read that loads its value keeps it in the cache. Then no more keys are in the
index than twice as many as in the cache, or the floor of pruning if that is more; if no key is
tracked for more than two records, that bounds the size of the index, too.
-/
theorem fetch_bounds_index (tracking : repository.invalidation = .byIdentity)
    (created : ReadCache.create capacity shards = .ok cache)
    (built : repository.build (some cache) store = .ok start)
    (order : ∀ step, (clock step).instant ≤ (clock (step + 1)).instant)
    (ran : repository.runDeeds clock deeds 0 start = (before, step))
    (loaded : (repository.fetch shape key lifetime (onStore load)).runOn clock step before =
      (⟨.ok value, true⟩, after, next)) :
    (after.cache.stored? key).isSome = true ∧
      (∀ keys : List Key, keys.Nodup → keys ⊆ after.index.allKeys →
        keys.length ≤ max pruneFloor (2 * after.cache.length)) ∧
      ∀ most, (∀ key, after.index.allKeys.count key ≤ most) →
        after.index.tracked ≤ max pruneFloor (max 2 most * after.cache.length) := by
  have sound := sound_runDeeds tracking created built order ran
  have ends := fetch_ends repository clock shape key lifetime (onStore load) step before
  rw [loaded] at ends
  cases ends with
  | @kept _ middle later missed reached =>
      obtain ⟨same, unchanged⟩ := runOn_deadline_apart repository clock (step + 1)
        (lookup shape key (clock step) before).2 "load" load
      simp only [reached] at same unchanged
      have looked : middle.cache.Sound := same ▸ sound.get (clock step).instant key
      have epoch : middle.index.epoch = before.index.epoch := by
        rw [unchanged]
        rfl
      obtain ⟨kept, stored, fits⟩ :=
        keep_indexFits tracking looked key (shape.wrap value) lifetime (clock later)
      rw [epoch] at kept stored fits
      exact ⟨stored, fits.bounds kept⟩

end Histories

def numbered (number : Nat) : Account := ⟨some ⟨toString number⟩, "x", 0, .none⟩

def loadNumbered (number : Nat) : Activity (MemoryStore Account) (Except Failure Account) :=
  .done (.ok (numbered number))

def rereads (count : Nat) : List (Deed Account) :=
  (List.range count).flatMap fun number =>
    [.operate (.fetchOne "k" ⟨600⟩ (loadNumbered number)), .operate (.invalidate "k")]

def early (step : Nat) : Moment := ⟨⟨step⟩, ⟨2024, 1, 1, 0, 0, 0, 0⟩, ⟨"x"⟩⟩

def vacant : RepositoryState Account := ⟨.single ⟨8, .empty, .empty, .zero⟩, .empty, .create none⟩

def reread (count : Nat) : Fetched Account × RepositoryState Account × Nat :=
  let (before, step) := standard.runDeeds early (rereads count) 0 vacant
  (standard.fetch .one "k" ⟨600⟩ (onStore (loadNumbered count))).runOn early step before

/-- A history of a fresh cache of eight entries, and one more read that loads its account. -/
def Rereads (count : Nat) (after : RepositoryState Account) : Prop :=
  ∃ (cache : ReadCache (Cached Account)) (start before : RepositoryState Account)
    (step next : Nat),
    ReadCache.create 8 none = .ok cache ∧
    standard.build (some cache) (.create none) = .ok start ∧
    standard.runDeeds early (rereads count) 0 start = (before, step) ∧
    (standard.fetch .one "k" ⟨600⟩ (onStore (loadNumbered count))).runOn early step before =
      (⟨.ok (numbered count), true⟩, after, next)

theorem rereads_reread {count : Nat} (outcome : (reread count).1.outcome = .ok (numbered count))
    (loaded : (reread count).1.loaded = true) : Rereads count (reread count).2.1 := by
  refine ⟨_, vacant, _, _, (reread count).2.2, rfl, rfl, Prod.mk.eta.symm, ?_⟩
  rw [← outcome, ← loaded]
  rfl

theorem fetch_bounds_index_twice :
    ∃ after, Rereads 1 after ∧
      after.index.tracked ≤ max pruneFloor (2 * after.cache.length) := by
  have rereads : Rereads 1 (reread 1).2.1 :=
    rereads_reread (by decide +kernel) (by decide +kernel)
  obtain ⟨cache, start, before, step, next, created, built, ran, loaded⟩ := id rereads
  obtain ⟨_, _, bounded⟩ :=
    fetch_bounds_index rfl created built (fun step => Nat.le_succ step) ran loaded
  refine ⟨_, rereads, bounded 2 fun key => ?_⟩
  have twice : (reread 1).2.1.index.allKeys.length = 2 := by decide +kernel
  exact twice ▸ List.count_le_length

/-- A key that is used for ever more accounts stays in the index for each of them. -/
theorem fetch_outgrows_cache :
    ∃ after, Rereads 64 after ∧
      ¬after.index.tracked ≤ max pruneFloor (2 * after.cache.length) := by
  obtain ⟨outcome, loaded, outgrown⟩ : (reread 64).1.outcome = .ok (numbered 64) ∧
      (reread 64).1.loaded = true ∧
      ¬(reread 64).2.1.index.tracked ≤ max pruneFloor (2 * (reread 64).2.1.cache.length) := by
    decide +kernel
  exact ⟨_, rereads_reread outcome loaded, outgrown⟩

end Repository

end CachedStore
