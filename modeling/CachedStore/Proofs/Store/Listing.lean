import CachedStore.Proofs.Record.Selection
import CachedStore.Proofs.Store.FirstMatch
import CachedStore.Proofs.Store.Requests

/-!
What a listing gives: the live rows that match, in the order of the query and otherwise of their
identities, up to the limit, and each of them as a record of the chosen columns.
-/

namespace CachedStore

namespace Query

variable (query : Query)

def chooses (column : String) : Bool :=
  match query.columns with
  | none => true
  | some columns => columns.contains column

/-- Which of two entries stands before the other. Those that compare equal go by identity. -/
def Precedes (first second : RecordId × Row) : Prop :=
  match query.order with
  | none => compare first.1 second.1 = .lt
  | some order =>
    order.compareRows first.2 second.2 = .lt ∨
      order.compareRows first.2 second.2 = .eq ∧ compare first.1 second.1 = .lt

def cut {α : Type} (items : List α) : List α :=
  query.effectiveLimit.elim items fun limit => items.take limit

theorem forall₂_cut {α β : Type} {gives : α → β → Prop} {items : List α} {values : List β}
    (all : List.Forall₂ gives items values) :
    List.Forall₂ gives (query.cut items) (query.cut values) := by
  unfold cut
  cases query.effectiveLimit with
  | none => exact all
  | some limit => exact List.forall₂_take limit all

theorem cut_shorter {α : Type} {shorter : Nat} (positive : 0 < shorter)
    (within : ∀ limit, query.effectiveLimit = some limit → shorter ≤ limit) (items : List α) :
    { query with limit := some shorter }.cut items <+: query.cut items := by
  have limited : { query with limit := some shorter }.effectiveLimit = some shorter := by
    simp [effectiveLimit, positive]
  unfold cut
  rw [limited]
  cases given : query.effectiveLimit with
  | none => exact List.take_prefix shorter items
  | some limit => exact List.take_prefix_take_left (within limit given)

/-- The record tells the chosen columns of the row, and otherwise those of the blank record. -/
def Projects {ρ : Type} [Record ρ] (row : Row) (record : ρ) : Prop :=
  ∃ shown base, Record.toRow record = .ok shown ∧ Record.toRow (Record.blank : ρ) = .ok base ∧
    ∀ column, shown.get? column =
      if query.chooses column then row.get? column else base.get? column

end Query

/-! The chosen columns -/

theorem Row.get?_ofMembers_of_mem {members : List (String × Json)} {name : String} {value : Json}
    (member : (name, value) ∈ members) (once : ∀ other, (name, other) ∈ members → other = value) :
    (ofMembers members).get? name = some value := by
  suffices general : ∀ base : Row, (name, value) ∈ members ∨ base.get? name = some value →
      (members.foldl (fun row member => row.insert member.1 member.2) base).get? name =
        some value from
    general empty (Or.inl member)
  clear member
  induction members with
  | nil => intro base given; exact given.resolve_left List.not_mem_nil
  | cons first rest ih =>
      intro base given
      refine ih (fun other member => once other (List.mem_cons_of_mem _ member)) _ ?_
      rw [get?_insert]
      by_cases same : name = first.1
      · rw [if_pos same]
        have shown : first.2 = value := once first.2 (same ▸ List.mem_cons_self)
        exact Or.inr (congrArg some shown)
      · rw [if_neg same]
        refine given.imp (fun member => ?_) id
        exact (List.mem_cons.mp member).resolve_left fun equal => same (congrArg Prod.fst equal)

theorem Query.get?_project (query : Query) (row : Row) (column : String) :
    (query.project row).get? column = if query.chooses column then row.get? column else none := by
  unfold project chooses
  cases query.columns with
  | none => rfl
  | some columns =>
      have shown : ∀ {value : Json}, (column, value) ∈ columns.filterMap (fun column =>
          (row.get? column).map fun value => (column, value)) ↔
          column ∈ columns ∧ row.get? column = some value := by
        intro value
        simp only [List.mem_filterMap, Option.map_eq_some_iff, Prod.mk.injEq]
        constructor
        · rintro ⟨_, listed, _, held, rfl, rfl⟩
          exact ⟨listed, held⟩
        · exact fun ⟨listed, held⟩ => ⟨column, listed, value, held, rfl, rfl⟩
      cases held : row.get? column with
      | none =>
          rw [ite_self]
          by_contra present
          obtain ⟨value, found⟩ := Option.ne_none_iff_exists'.mp present
          have listed := shown.mp (Row.get?_ofMembers found)
          simp [held] at listed
      | some value =>
          by_cases listed : column ∈ columns
          · rw [if_pos (List.contains_iff_mem.mpr listed)]
            refine Row.get?_ofMembers_of_mem (shown.mpr ⟨listed, held⟩) fun other member => ?_
            exact Option.some.inj ((shown.mp member).2.symm.trans held)
          · rw [if_neg (by simpa using listed)]
            by_contra present
            obtain ⟨value, found⟩ := Option.ne_none_iff_exists'.mp present
            exact listed (shown.mp (Row.get?_ofMembers found)).1

namespace Rows

variable {ρ : Type} [Record ρ] {rows : Rows} {query : Query}

/-- What a query lists: the live entries that match, in its order, each once. -/
structure Selects (ρ : Type) [Record ρ] (rows : Rows) (query : Query)
    (listed : List (RecordId × Row)) : Prop where
  mem : ∀ id row, (id, row) ∈ listed ↔
    rows[id]? = some row ∧ query.filter.accepts row = true ∧ isLive ρ row = .ok true
  ordered : listed.Pairwise query.Precedes

def isAlive (ρ : Type) [Record ρ] (row : Row) : Bool := (isLive ρ row).toOption.getD false

def liveEntries (ρ : Type) [Record ρ] (rows : Rows) (filter : Filter) : List (RecordId × Row) :=
  (rows.matchEntries filter).filter fun entry => isAlive ρ entry.2

def listing (ρ : Type) [Record ρ] (rows : Rows) (query : Query) : List (RecordId × Row) :=
  query.order.elim (liveEntries ρ rows query.filter) fun order =>
    (liveEntries ρ rows query.filter).mergeSort fun a b => order.compareRows a.2 b.2 != .gt

/-! The order of the listing -/

theorem isAlive_iff {row : Row} : isAlive ρ row = true ↔ isLive ρ row = .ok true := by
  unfold isAlive
  rcases isLive ρ row with failure | live
  · simp [Except.toOption]
  · simp [Except.toOption]

theorem mem_liveEntries {filter : Filter} {id : RecordId} {row : Row} :
    (id, row) ∈ liveEntries ρ rows filter ↔
      rows[id]? = some row ∧ filter.accepts row = true ∧ isLive ρ row = .ok true := by
  rw [liveEntries, List.mem_filter, mem_matchEntries, isAlive_iff, and_assoc]

theorem mem_listing {entry : RecordId × Row} :
    entry ∈ listing ρ rows query ↔ entry ∈ liveEntries ρ rows query.filter := by
  unfold listing
  cases query.order with
  | none => rfl
  | some order => exact List.mem_mergeSort

theorem selects_listing
    (among : ∀ order : SortOrder, OrdersAmong (fun a b => order.compareRows a b != .gt)
      ((liveEntries ρ rows query.filter).map (·.2))) :
    Selects ρ rows query (listing ρ rows query) where
  mem id row := mem_listing.trans mem_liveEntries
  ordered := by
    have placed := (sorted_matchEntries rows query.filter).filter fun entry => isAlive ρ entry.2
    unfold listing
    cases given : query.order with
    | none =>
        refine placed.imp fun {first second} before => ?_
        rw [Query.Precedes, given]
        exact before
    | some order =>
        refine ((among order).of_map.pairwise_mergeSort placed).imp fun {first second} sorted => ?_
        obtain ⟨ordered, ties⟩ := sorted
        rw [Query.Precedes, given]
        cases compared : order.compareRows first.2 second.2 with
        | lt => exact Or.inl compared
        | eq =>
            refine Or.inr ⟨compared, ties ?_⟩
            rw [order.compareRows_swap, compared]
            rfl
        | gt => simp [compared] at ordered

/-! What is selected -/

theorem liveRows_eq {listed : List Row} (readable : ∀ row ∈ listed, row.Readable ρ) :
    liveRows ρ listed = .ok (listed.filter (isAlive ρ)) := by
  induction listed with
  | nil => rfl
  | cons row rest ih =>
      obtain ⟨live, decoded⟩ := isLive_ok (readable row List.mem_cons_self)
      have others := ih fun other member => readable other (List.mem_cons_of_mem _ member)
      have alive : isAlive ρ row = live := by
        rw [isAlive, decoded]
        rfl
      rw [liveRows, decoded, others, List.filter_cons, alive]
      rfl

theorem liveRows_eq_ok {listed live : List Row} (given : liveRows ρ listed = .ok live) :
    live = listed.filter (isAlive ρ) := by
  induction listed generalizing live with
  | nil => exact (Except.ok.inj given).symm
  | cons row rest ih =>
      obtain ⟨alive, decoded, given⟩ := bind_eq_ok.mp given
      obtain ⟨others, listed, given⟩ := bind_eq_ok.mp given
      obtain rfl := Except.ok.inj given
      have shown : isAlive ρ row = alive := by
        rw [isAlive, decoded]
        rfl
      rw [List.filter_cons, shown, ih listed]

theorem select_eq_map : select ρ rows query = (liveRows ρ (rows.matching query.filter)).map
    fun _ => query.cut ((listing ρ rows query).map (·.2)) := by
  cases given : liveRows ρ (rows.matching query.filter) with
  | error failure =>
      rw [select, given]
      rfl
  | ok live =>
      have entries : live = (liveEntries ρ rows query.filter).map (·.2) := by
        rw [liveRows_eq_ok given, matching_eq, List.filter_map]
        rfl
      rw [select, given, entries]
      refine congrArg Except.ok (congrArg query.cut ?_)
      unfold listing
      cases query.order with
      | none => rfl
      | some order =>
          exact (List.map_mergeSort (s := fun a b => order.compareRows a b != .gt)
            fun _ _ _ _ => rfl).symm

theorem select_eq (readable : ∀ row ∈ contents rows, row.Readable ρ) :
    select ρ rows query = .ok (query.cut ((listing ρ rows query).map (·.2))) := by
  have within : rows.matching query.filter ⊆ contents rows := List.filter_subset_self _
  rw [select_eq_map, liveRows_eq fun row member => readable row (within member)]
  rfl

section Records

variable [SelectableRecord ρ]

structure Part (rows : Rows) (query : Query) (entry : RecordId × Row) (record : ρ) : Prop where
  held : ∃ whole : ρ, rows.Holds entry.1 whole ∧
    record = SelectableRecord.only query.chooses whole
  shows : query.Projects entry.2 record

theorem Faithful.populate_project (faithful : rows.Faithful ρ) (named : rows.Named)
    {entry : RecordId × Row} (stored : rows[entry.1]? = some entry.2) :
    ∃ record : ρ, populate (Record.blank : ρ) (query.project entry.2) = .ok record ∧
      rows.Part query entry record := by
  obtain ⟨held, holds⟩ := faithful entry.1 entry.2 stored
  obtain ⟨row, found, shown⟩ := holds.stored
  obtain rfl := Option.some.inj (stored.symm.trans found)
  obtain ⟨base, blank⟩ := FaithfulRecord.toRow_ok (Record.blank : ρ)
  obtain ⟨part, taken⟩ := FaithfulRecord.toRow_ok (SelectableRecord.only query.chooses held)
  have columns := fun column =>
    SelectableRecord.get?_only query.chooses column shown blank taken
  have same : ∀ column, (base.overlay (query.project entry.2)).get? column =
      part.get? column := by
    intro column
    rw [columns, Row.get?_overlay (query.sorted_project (named.sorted stored)),
      query.get?_project]
    by_cases chosen : query.chooses column = true
    · rw [if_pos chosen, if_pos chosen]
      cases present : entry.2.get? column with
      | none => rw [SelectableRecord.covers_blank shown blank present, Option.or_none]
      | some value => rw [Option.some_or]
    · rw [if_neg chosen, if_neg chosen, Option.none_or]
  refine ⟨SelectableRecord.only query.chooses held, ?_, ⟨held, holds, rfl⟩,
    part, base, taken, blank, columns⟩
  rw [populate, blank]
  refine (SelectableRecord.ofRow_congr same).trans ?_
  exact FaithfulRecord.ofRow_toRow (SelectableRecord.valid_only _ holds.valid) taken

theorem Faithful.comparable (faithful : rows.Faithful ρ) (filter : Filter) (column : String) :
    Comparable fun value => ∃ row ∈ (liveEntries ρ rows filter).map (·.2),
      row.get column = value := by
  refine (SelectableRecord.comparable (ρ := ρ) column).mono ?_
  rintro _ ⟨_, listed, rfl⟩
  obtain ⟨⟨id, row⟩, member, rfl⟩ := List.mem_map.mp listed
  obtain ⟨record, _, shown⟩ := faithful.decodes (mem_liveEntries.mp member).1
  exact ⟨record, row, shown, rfl⟩

theorem Faithful.find_eq (faithful : rows.Faithful ρ) (query : Query) (target : List ρ)
    {records : List ρ}
    (populated : (listing ρ rows query).mapM (fun entry =>
      populate (Record.blank : ρ) (query.project entry.2)) = .ok records) :
    rows.find target query = .ok (target ++ query.cut records) := by
  have each : List.Forall₂ (fun row record =>
      populate (Record.blank : ρ) (query.project row) = .ok record)
      ((listing ρ rows query).map (·.2)) records :=
    List.forall₂_map_left_iff.mpr (mapM_eq_ok_iff.mp populated)
  rw [Rows.find, select_eq fun row member => faithful.readable member]
  change (do
    let found ← (query.cut ((listing ρ rows query).map Prod.snd)).mapM fun row =>
      populate (Record.blank : ρ) (query.project row)
    return target ++ found) = _
  rw [mapM_eq_ok_iff.mpr (query.forall₂_cut each)]
  rfl

theorem Faithful.find_cut (faithful : rows.Faithful ρ) (named : rows.Named) (query : Query) :
    ∃ (listed : List (RecordId × Row)) (records : List ρ), Selects ρ rows query listed ∧
      List.Forall₂ (rows.Part query) listed records ∧
      ∀ (limit : Option Nat) (target : List ρ),
        rows.find target { query with limit := limit } =
          .ok (target ++ { query with limit := limit }.cut records) := by
  have reads : ∀ entry ∈ listing ρ rows query, ∃ record : ρ,
      populate (Record.blank : ρ) (query.project entry.2) = .ok record ∧
        rows.Part query entry record := fun entry member =>
    faithful.populate_project named (mem_liveEntries.mp (mem_listing.mp member)).1
  obtain ⟨records, populated, parts⟩ := mapM_ok_forall₂ reads
  have among := fun order : SortOrder =>
    SortOrder.ordersAmong (faithful.comparable query.filter order.column)
  refine ⟨_, records, selects_listing among, parts, ?_⟩
  exact fun limit target => faithful.find_eq { query with limit := limit } target populated

end Records

end Rows

namespace MemoryStore

variable {ρ : Type} [Record ρ] [SelectableRecord ρ] {clock : Nat → Moment}

/--
After any requests on an empty store, a listing adds to its destination the live records that match,
in the order of the query and otherwise of their identities, up to its limit, and each with the
chosen columns only. With a smaller limit it gives the first of these.
-/
theorem find_lists {latency : Option Duration} {requests : List (StoreRequest ρ)}
    {store : MemoryStore ρ} {step : Nat} (valid : ∀ request ∈ requests, request.IsValid)
    (served : serve clock requests 0 (create latency) = (store, step)) (calm : store.faults = [])
    (query : Query) (target : List ρ) :
    ∃ (listed : List (RecordId × Row)) (records : List ρ),
      Rows.Selects ρ store.rows query listed ∧
      List.Forall₂ (store.rows.Part query) listed records ∧
      ((find target query).runOn clock step store).1 = .ok (target ++ query.cut records) ∧
      ∀ shorter, 0 < shorter → (∀ limit, query.effectiveLimit = some limit → shorter ≤ limit) →
        ∃ few : List ρ, few <+: query.cut records ∧
          ((find target { query with limit := some shorter }).runOn clock step store).1 =
            .ok (target ++ few) := by
  have kept := StoreRequest.wellFormed_served valid served
  obtain ⟨listed, records, selects, parts, finds⟩ := kept.faithful.find_cut kept.named query
  refine ⟨listed, records, selects, parts, ?_, ?_⟩
  · exact (runOn_readCall calm _ _).trans (finds query.limit target)
  · intro shorter positive within
    refine ⟨_, query.cut_shorter positive within records, ?_⟩
    exact (runOn_readCall calm _ _).trans (finds (some shorter) target)

def holding (id name : String) (balance : Int64) (deletedAt : Option Timestamp) : Account :=
  ⟨some ⟨id⟩, name, balance, ⟨none, none, deletedAt⟩⟩

def openings : List (StoreRequest Account) :=
  [.create (holding "d" "dan" 30 none), .create (holding "a" "ada" 10 none),
    .create (holding "c" "cyd" 90 (some ⟨2024, 1, 1, 0, 0, 0, 0⟩)),
    .create (holding "b" "bob" 30 none)]

theorem valid_openings : ∀ request ∈ openings, request.IsValid := by
  have never : Metadata.none.IsValid := Metadata.isValid_none
  intro request member
  simp only [openings, List.mem_cons, List.not_mem_nil, or_false] at member
  rcases member with rfl | rfl | rfl | rfl
  · exact never
  · exact never
  · exact never.deleted (by decide)
  · exact never

def highest : Query := ⟨.all, some ⟨"balance", true⟩, some 2, some ["name"]⟩

def heldBy (id name : String) (balance : Int64) : Row := (holding id name balance none).toRow

theorem select_highest :
    Rows.select Account (serve ticks openings 0 (create none)).1.rows highest =
      .ok [heldBy "b" "bob" 30, heldBy "d" "dan" 30] := by
  let ada := heldBy "a" "ada" 10
  let bob := heldBy "b" "bob" 30
  let dan := heldBy "d" "dan" 30
  have live : Rows.liveRows Account
      ((serve ticks openings 0 (create none)).1.rows.matching highest.filter) =
      .ok [ada, bob, dan] := rfl
  have below : (SortOrder.compareRows ⟨"balance", true⟩ ada bob != .gt) = false := by decide +kernel
  have under : (SortOrder.compareRows ⟨"balance", true⟩ ada dan != .gt) = false := by decide +kernel
  have level : (SortOrder.compareRows ⟨"balance", true⟩ bob dan != .gt) = true := by decide +kernel
  have sorted : SortOrder.sort ⟨"balance", true⟩ [ada, bob, dan] = [bob, dan, ada] := by
    simp [SortOrder.sort, List.mergeSort, List.MergeSort.Internal.splitInTwo, below, under, level]
  rw [Rows.select, live]
  exact congrArg (fun rows => Except.ok (rows.take 2)) sorted

theorem find_lists_highest :
    ∃ (store : MemoryStore Account) (step : Nat) (listed : List (RecordId × Row)),
      serve ticks openings 0 (create none) = (store, step) ∧ store.faults = [] ∧
      Rows.Selects Account store.rows highest listed ∧
      ((find [.named "zoe"] highest).runOn ticks step store).1 =
        .ok [.named "zoe", .named "bob", .named "dan"] ∧
      ∃ few : List Account, few <+: [.named "bob", .named "dan"] ∧
        ((find [.named "zoe"] { highest with limit := some 1 }).runOn ticks step store).1 =
          .ok (.named "zoe" :: few) := by
  let served := serve ticks openings 0 (create none)
  have ran : serve ticks openings 0 (create none) = (served.1, served.2) := Prod.mk.eta.symm
  have calm : served.1.faults = [] := by decide +kernel
  have found : ((find [.named "zoe"] highest).runOn ticks served.2 served.1).1 =
      .ok [Account.named "zoe", .named "bob", .named "dan"] := by
    rw [find, runOn_readCall calm, Rows.find, select_highest]
    rfl
  obtain ⟨listed, records, selects, _, finds, shorter⟩ :=
    find_lists valid_openings ran calm highest [.named "zoe"]
  have given : highest.cut records = [.named "bob", .named "dan"] :=
    List.tail_eq_of_cons_eq (Except.ok.inj (finds.symm.trans found))
  obtain ⟨few, first, fewer⟩ := shorter 1 (by decide) fun limit same => by
    obtain rfl : 2 = limit := Option.some.inj same
    decide
  exact ⟨served.1, served.2, listed, ran, calm, selects, found, few, given ▸ first, fewer⟩

end MemoryStore

end CachedStore
