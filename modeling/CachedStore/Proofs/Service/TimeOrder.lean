import CachedStore.Proofs.Service.ReadYourWrites
import CachedStore.Proofs.Store.WholeListing
import CachedStore.Proofs.Time.TextOrder

/-!
Documents in the order of their times. Rows show a time as a text, and texts are compared as such,
so that of two times within one second the later one may come first: the one whose fraction begins
with all digits of the other. All other times of four-digit years are in their order.
-/

namespace CachedStore

inductive TimeColumn where
  | createdAt
  | updatedAt
deriving DecidableEq, Repr

namespace TimeColumn

def name : TimeColumn → String
  | createdAt => "created_at"
  | updatedAt => "updated_at"

def time? : TimeColumn → Metadata → Option Timestamp
  | createdAt => Metadata.createdAt
  | updatedAt => Metadata.updatedAt

def order (column : TimeColumn) (descending : Bool) : SortOrder := ⟨column.name, descending⟩

variable (column : TimeColumn) {first second : Document} {time a b : Timestamp}

theorem fault?_of_column {request : ListRequest} (ordered : request.column = some column.name) :
    request.fault? = none := by
  have offered : column.name ∈ orderColumns := by cases column <;> decide
  simp [ListRequest.fault?, ordered, offered]

theorem get_toRow (given : column.time? first.metadata = some time) :
    first.toRow.get column.name = .string time.text := by
  rw [Document.toRow, Row.get, Row.get?_whole Document.whole.free]
  cases column with
  | createdAt =>
      have given : first.metadata.createdAt = some time := given
      simp [name, given, Metadata.timeJson]
  | updatedAt =>
      have given : first.metadata.updatedAt = some time := given
      simp [name, given, Metadata.timeJson]

theorem valid_of_time? (valid : first.metadata.IsValid)
    (given : column.time? first.metadata = some time) : time.IsValid := by
  cases column with
  | createdAt => exact valid.1 time given
  | updatedAt => exact valid.2.1 time given

theorem compareRows_eq (descending : Bool) (valid : first.metadata.IsValid)
    (validOther : second.metadata.IsValid) (given : column.time? first.metadata = some a)
    (givenOther : column.time? second.metadata = some b) (plain : a.HasPlainYear)
    (plainOther : b.HasPlainYear) :
    (column.order descending).compareRows first.toRow second.toRow =
      directed descending
        (if a.Misread b then (a.compareInstants b).swap else a.compareInstants b) := by
  have texts : compareValues (first.toRow.get column.name) (second.toRow.get column.name) =
      compare a.text b.text := by
    rw [column.get_toRow given, column.get_toRow givenOther]
    rfl
  rw [Timestamp.compare_text_eq (column.valid_of_time? valid given)
    (column.valid_of_time? validOther givenOther) plain plainOther] at texts
  rw [SortOrder.compareRows_eq]
  exact congrArg (directed descending) texts

/-- The first document does not come after the second one, unless their times are misread. -/
def InOrder (descending : Bool) (first second : Document) : Prop :=
  ∀ a b, column.time? first.metadata = some a → column.time? second.metadata = some b →
    a.HasPlainYear → b.HasPlainYear → ¬a.Misread b →
    (directed descending (a.compareInstants b)).isLE = true

theorem inOrder_of_precedes {rows : Rows} {query : Query} {entry other : RecordId × Row}
    {descending : Bool} (ordered : query.order = some (column.order descending))
    (stands : rows.HasEntry first entry) (standsOther : rows.HasEntry second other)
    (precedes : query.Precedes entry other) : column.InOrder descending first second := by
  intro a b given givenOther plain plainOther read
  have shown : first.toRow = entry.2 := Except.ok.inj stands.shown
  have shownOther : second.toRow = other.2 := Except.ok.inj standsOther.shown
  have compared := column.compareRows_eq descending stands.holds.valid standsOther.holds.valid given
    givenOther plain plainOther
  rw [if_neg read, shown, shownOther] at compared
  exact compared ▸ Query.isLE_of_precedes ordered precedes

theorem find_listing {rows : Rows} (faithful : rows.Faithful Document) (named : rows.Named)
    {request : ListRequest} (ordered : request.column = some column.name) :
    ∃ all : List Document,
      (∀ document, document ∈ all ↔
        (∃ id, rows.Holds id document) ∧ Record.isDeleted document = false) ∧
      all.Nodup ∧ all.Pairwise (column.InOrder request.descending) ∧
      rows.find [] request.query = .ok (request.query.cut all) := by
  obtain ⟨all, lists, finds⟩ := faithful.find_whole named request.query rfl
  have sorted : request.query.order = some (column.order request.descending) := by
    simp [ListRequest.query, ListRequest.order, ordered, order]
  refine ⟨all, fun document => ?_, lists.nodup, ?_, finds request.limit []⟩
  · rw [lists.mem]
    constructor
    · rintro ⟨entry, stands, _, live⟩
      exact ⟨⟨entry.1, stands.holds⟩, live⟩
    · rintro ⟨⟨id, holds⟩, live⟩
      exact ⟨(id, document.toRow), ⟨holds, rfl⟩, rfl, live⟩
  · refine lists.ordered.imp ?_
    rintro first second ⟨entry, other, stands, standsOther, precedes⟩
    exact column.inOrder_of_precedes sorted stands standsOther precedes

end TimeColumn

namespace Service

open Repository

variable {repository : Repository} {instants : Nat → Instant} {step : Nat} {state : State}

theorem Tended.listDocuments (tended : Tended repository instants step state)
    {request : ListRequest} {documents : List Document} (time : Timestamp) (freshId : RecordId)
    (accepted : request.fault? = none)
    (found : state.store.rows.find [] request.query = .ok documents) :
    ((⟨.listDocuments request, time, freshId⟩ : Errand).run repository instants step state).1 =
      .json 200 (Reply.listing documents) := by
  have between := tended.between
  have clockwise : Clockwise (Errand.clock ⟨.listDocuments request, time, freshId⟩ instants) time
    freshId := ⟨between.order, fun _ => rfl, fun _ => rfl⟩
  obtain ⟨_, _, ran, _, _⟩ := implements_listDocuments between.tracking between.stored request
    _ _ _ _ _ clockwise between.ready
  have ran : Errand.run repository instants ⟨.listDocuments request, time, freshId⟩ _ _ = _ := ran
  rw [ran]
  simp only [Plain.listDocuments, Plain.orRefuse, accepted, Plain.map, Plain.bind, Plain.read,
    found]
  rfl

/--
The rows of two documents compare by a time of four-digit years just as the instants do, except that
the order is reversed if the two times are misread. After any calls of the handlers, a listing by a
time answers the live documents, up to the limit, each once and in the order of their times, except
for those that are misread.
-/
theorem listDocuments_by_time {settings : Settings} {store : MemoryStore Document} {state : State}
    {instants : Nat → Instant} (invalidates : settings.invalidateOnWrite = true)
    (started : settings.start store = .ok state) (calm : store.faults = [])
    (timely : ∀ latency, store.latency = some latency →
      latency.pauseTicks ≤ settings.queryLimit.ticks)
    (named : store.rows.Named) (faithful : store.rows.Faithful Document)
    (order : ∀ step, instants step ≤ instants (step + 1)) {history : List Errand}
    (proper : ∀ errand ∈ history, errand.time.IsValid) {before : State} {step : Nat}
    (ran : runErrands settings.repository instants history 0 state = (before, step))
    (column : TimeColumn) :
    (∀ (rows : Rows) (id other : RecordId) (first second : Document) (a b : Timestamp)
      (descending : Bool), rows.Holds id first → rows.Holds other second →
      column.time? first.metadata = some a → column.time? second.metadata = some b →
      a.HasPlainYear → b.HasPlainYear →
      (column.order descending).compareRows first.toRow second.toRow =
        directed descending
          (if a.Misread b then (a.compareInstants b).swap else a.compareInstants b)) ∧
    ∀ request : ListRequest, request.column = some column.name →
      ∃ all : List Document,
        (∀ document, document ∈ all ↔ (∃ id, before.store.rows.Holds id document) ∧
          Record.isDeleted document = false) ∧
        all.Nodup ∧ all.Pairwise (column.InOrder request.descending) ∧
        ∀ time freshId, ((⟨.listDocuments request, time, freshId⟩ : Errand).run
          settings.repository instants step before).1 =
            .json 200 (Reply.listing (request.query.cut all)) := by
  constructor
  · intro rows id other first second a b descending holds holdsOther given givenOther plain
      plainOther
    exact column.compareRows_eq descending holds.valid holdsOther.valid given givenOther plain
      plainOther
  · intro request ordered
    have start := tended_of_start invalidates started calm timely named faithful order
    have tended := start.runErrands proper
    rw [ran] at tended
    obtain ⟨all, mem, nodup, sorted, found⟩ :=
      column.find_listing tended.faithful tended.named ordered
    refine ⟨all, mem, nodup, sorted, fun time freshId => ?_⟩
    exact tended.listDocuments time freshId (column.fault?_of_column ordered) found

def createAt (id name : String) (time : Timestamp) : Errand :=
  ⟨.createDocument .strict ⟨none, name, "1"⟩, time, ⟨id⟩⟩

def createdAt (id name : String) (time : Timestamp) : Document :=
  ⟨some ⟨id⟩, name, "1", ⟨some time, none, none⟩⟩

theorem valid_createdAt (id name : String) {time : Timestamp} (proper : time.IsValid) :
    (createdAt id name time).metadata.IsValid :=
  Metadata.isValid_none.created proper

def halfSecond (day : Nat) : Timestamp := ⟨2024, 1, day, 0, 0, 0, 500000000⟩

def midnight (day : Nat) : Timestamp := ⟨2024, 1, day, 0, 0, 0, 0⟩

theorem listDocuments_by_time_days :
    ∃ (state before : State) (step : Nat),
      Settings.standard.start (.create none) = .ok state ∧
      runErrands Settings.standard.repository Instant.mk
        [createAt "a" "x" (halfSecond 1), createAt "b" "y" (midnight 2)] 0 state =
          (before, step) ∧
      (TimeColumn.createdAt.order false).compareRows (createdAt "a" "x" (halfSecond 1)).toRow
        (createdAt "b" "y" (midnight 2)).toRow = .lt ∧
      ∃ all : List Document,
        (∀ document, document ∈ all ↔ (∃ id, before.store.rows.Holds id document) ∧
          Record.isDeleted document = false) ∧
        all.Nodup ∧ all.Pairwise (TimeColumn.createdAt.InOrder true) ∧
        ∀ time freshId, (Errand.run Settings.standard.repository Instant.mk
          ⟨.listDocuments ⟨some "created_at", true, some 1⟩, time, freshId⟩ step before).1 =
            .json 200 (Reply.listing (all.take 1)) := by
  obtain ⟨state, started⟩ : ∃ state, Settings.standard.start (.create none) = .ok state :=
    ⟨_, rfl⟩
  obtain ⟨⟨before, step⟩, ran⟩ : ∃ visited, runErrands Settings.standard.repository Instant.mk
      [createAt "a" "x" (halfSecond 1), createAt "b" "y" (midnight 2)] 0 state = visited :=
    ⟨_, rfl⟩
  have order : ∀ step, Instant.mk step ≤ ⟨step + 1⟩ := fun step => Nat.le_succ step
  obtain ⟨compared, listed⟩ := listDocuments_by_time rfl started rfl
    (fun _ impossible => by cases impossible) Rows.named_empty Rows.faithful_empty order (by decide)
    ran TimeColumn.createdAt
  have first : before.store.rows.Holds ⟨"a"⟩ (createdAt "a" "x" (halfSecond 1)) := by
    cases started
    cases ran
    exact ⟨valid_createdAt _ _ (by decide), rfl, _, rfl, rfl⟩
  have second : before.store.rows.Holds ⟨"b"⟩ (createdAt "b" "y" (midnight 2)) := by
    cases started
    cases ran
    exact ⟨valid_createdAt _ _ (by decide), rfl, _, rfl, rfl⟩
  refine ⟨state, before, step, started, ran, ?_, listed ⟨some "created_at", true, some 1⟩ rfl⟩
  exact (compared _ _ _ _ _ _ _ false first second rfl rfl (by decide) (by decide)).trans
    (by decide +kernel)

/--
Of two documents created within one second, the first one has a row that comes after that of the
other, and stands behind it in a listing by their times.
-/
theorem listDocuments_reverses_times :
    ∃ (state before : State) (step : Nat),
      Settings.standard.start (.create none) = .ok state ∧
      runErrands Settings.standard.repository Instant.mk
        [createAt "a" "x" (midnight 1), createAt "b" "y" (halfSecond 1)] 0 state =
          (before, step) ∧
      before.store.rows.Holds ⟨"a"⟩ (createdAt "a" "x" (midnight 1)) ∧
      before.store.rows.Holds ⟨"b"⟩ (createdAt "b" "y" (halfSecond 1)) ∧
      (midnight 1).compareInstants (halfSecond 1) = .lt ∧
      (TimeColumn.createdAt.order false).compareRows (createdAt "a" "x" (midnight 1)).toRow
        (createdAt "b" "y" (halfSecond 1)).toRow = .gt ∧
      ∀ time freshId, (Errand.run Settings.standard.repository Instant.mk
        ⟨.listDocuments ⟨some "created_at", false, none⟩, time, freshId⟩ step before).1 =
          .json 200 (Reply.listing
            [createdAt "b" "y" (halfSecond 1), createdAt "a" "x" (midnight 1)]) := by
  obtain ⟨state, started⟩ : ∃ state, Settings.standard.start (.create none) = .ok state :=
    ⟨_, rfl⟩
  obtain ⟨⟨before, step⟩, ran⟩ : ∃ visited, runErrands Settings.standard.repository Instant.mk
      [createAt "a" "x" (midnight 1), createAt "b" "y" (halfSecond 1)] 0 state = visited :=
    ⟨_, rfl⟩
  let request : ListRequest := ⟨some "created_at", false, none⟩
  let earlier := createdAt "a" "x" (midnight 1)
  let later := createdAt "b" "y" (halfSecond 1)
  have holds : before.store.rows.Holds ⟨"a"⟩ earlier := by
    cases started
    cases ran
    exact ⟨valid_createdAt _ _ (by decide), rfl, _, rfl, rfl⟩
  have holdsOther : before.store.rows.Holds ⟨"b"⟩ later := by
    cases started
    cases ran
    exact ⟨valid_createdAt _ _ (by decide), rfl, _, rfl, rfl⟩
  have reversed : (TimeColumn.createdAt.order false).compareRows earlier.toRow later.toRow =
      .gt := by decide +kernel
  have found : before.store.rows.find [] request.query = .ok [later, earlier] := by
    have live : Rows.liveRows Document (before.store.rows.matching request.query.filter) =
        .ok [earlier.toRow, later.toRow] := by
      cases started
      cases ran
      rfl
    have ordered : request.query.order = some (TimeColumn.createdAt.order false) := rfl
    have stands : before.store.rows.HasEntry earlier (⟨"a"⟩, earlier.toRow) := ⟨holds, rfl⟩
    have standsOther : before.store.rows.HasEntry later (⟨"b"⟩, later.toRow) := ⟨holdsOther, rfl⟩
    rw [Rows.find_pair ordered rfl stands standsOther live, if_pos reversed]
    rfl
  have order : ∀ step, Instant.mk step ≤ ⟨step + 1⟩ := fun step => Nat.le_succ step
  have start := tended_of_start rfl started rfl (fun _ impossible => by cases impossible)
    Rows.named_empty Rows.faithful_empty order
  have timed : ∀ errand ∈ [createAt "a" "x" (midnight 1), createAt "b" "y" (halfSecond 1)],
      errand.time.IsValid := by decide
  have tended := start.runErrands timed
  rw [ran] at tended
  refine ⟨state, before, step, started, ran, holds, holdsOther, by decide +kernel, reversed, ?_⟩
  exact fun time freshId => tended.listDocuments time freshId rfl found

end Service

end CachedStore
