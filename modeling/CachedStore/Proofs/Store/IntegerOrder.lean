import Mathlib.Algebra.Group.Defs
import CachedStore.Proofs.Number.Rounding
import CachedStore.Proofs.Store.WholeListing

/-!
Listings by a column of integers. Integers are compared as the doubles next to them, so that two of
them that are both at least `2 ^ 53` may compare equal although they differ. All others are in their
order, and what a limit leaves out is no more extreme than what is listed.
-/

namespace CachedStore

open Double (Blurred)

def IsWord (value : Int) : Prop := -2 ^ 63 ≤ value ∧ value < 2 ^ 64

instance (value : Int) : Decidable (IsWord value) := inferInstanceAs (Decidable (_ ∧ _))

theorem isWord_toInt (value : Int64) : IsWord value.toInt := by
  have low := value.le_toInt
  have high := value.toInt_lt
  constructor <;> omega

theorem natAbs_lt_of_isWord {value : Int} (word : IsWord value) : value.natAbs < 2 ^ 64 := by
  obtain ⟨low, high⟩ := word
  omega

theorem SortOrder.compareRows_integers (order : SortOrder) {first second : Row} {a b : Int}
    (shown : first.get order.column = .ofInt a) (shownOther : second.get order.column = .ofInt b)
    (word : IsWord a) (wordOther : IsWord b) :
    order.compareRows first second =
      directed order.descending (if Blurred a b then .eq else compare a b) := by
  rw [compareRows_eq, shown, shownOther, ← Double.compare_position_ofInt (natAbs_lt_of_isWord word)
    (natAbs_lt_of_isWord wordOther)]
  rfl

structure IntegerColumn (ρ : Type) [Record ρ] (column : String) (value : ρ → Int) : Prop where
  shown : ∀ {record : ρ} {row : Row}, Record.toRow record = .ok row →
    row.get column = .ofInt (value record)
  word : ∀ record : ρ, IsWord (value record)

theorem Account.integerColumn :
    IntegerColumn Account "balance" fun account => account.balance.toInt where
  shown {account row} shown := by
    obtain rfl := Except.ok.inj shown
    change account.toRow.get "balance" = _
    rw [Account.toRow, Row.get, Row.get?_own_whole whole.free, Option.getD_some]
  word account := isWord_toInt account.balance

/-- The first integer does not come after the second one, unless the two are blurred. -/
def InIntegerOrder (descending : Bool) (a b : Int) : Prop :=
  Blurred a b ∨ (directed descending (compare a b)).isLE = true

theorem IntegerColumn.pairwise {ρ : Type} [Record ρ] [SelectableRecord ρ] {rows : Rows}
    {query : Query} {column : String} {value : ρ → Int} {descending : Bool}
    (integers : IntegerColumn ρ column value)
    (ordered : query.order = some ⟨column, descending⟩) {all : List ρ}
    (lists : rows.Lists query all) :
    all.Pairwise fun first second => InIntegerOrder descending (value first) (value second) := by
  refine lists.ordered.imp ?_
  rintro first second ⟨entry, other, stands, standsOther, precedes⟩
  have compared := SortOrder.compareRows_integers ⟨column, descending⟩
    (integers.shown stands.shown) (integers.shown standsOther.shown) (integers.word first)
    (integers.word second)
  by_cases blurred : Blurred (value first) (value second)
  · exact Or.inl blurred
  · rw [if_neg blurred] at compared
    exact Or.inr (compared ▸ Query.isLE_of_precedes ordered precedes)

namespace MemoryStore

variable {ρ : Type} [Record ρ] [SelectableRecord ρ] {clock : Nat → Moment}

/--
Rows with 64-bit integers in a column compare as the integers, except that they compare equal if
these are blurred, which makes them large and close to each other. After any requests on an empty
store, a listing by a column of integers gives the first of the live records that match, in the
order of the integers, and none that it leaves out is beyond one that it gives, unless the two are
blurred.
-/
theorem find_by_integer {latency : Option Duration} {requests : List (StoreRequest ρ)}
    {store : MemoryStore ρ} {step : Nat} (valid : ∀ request ∈ requests, request.IsValid)
    (served : serve clock requests 0 (create latency) = (store, step)) (calm : store.faults = [])
    {column : String} {value : ρ → Int} (integers : IntegerColumn ρ column value) :
    (∀ (order : SortOrder) (first second : Row) (a b : Int),
      first.get order.column = .ofInt a → second.get order.column = .ofInt b →
      IsWord a → IsWord b →
      order.compareRows first second =
        directed order.descending (if Blurred a b then .eq else compare a b)) ∧
    (∀ a b : Int, IsWord a → IsWord b → Blurred a b →
      2 ^ 53 ≤ min a.natAbs b.natAbs ∧ 2 ^ 52 * (a - b).natAbs ≤ min a.natAbs b.natAbs) ∧
    ∀ (query : Query) (descending : Bool), query.order = some ⟨column, descending⟩ →
      query.columns = none → ∃ all : List ρ,
        (∀ record, record ∈ all ↔ ∃ entry, store.rows.HasEntry record entry ∧
          query.filter.accepts entry.2 = true ∧ Record.isDeleted record = false) ∧
        all.Nodup ∧
        (all.Pairwise fun first second =>
          InIntegerOrder descending (value first) (value second)) ∧
        (∀ target : List ρ,
          ((find target query).runOn clock step store).1 = .ok (target ++ query.cut all)) ∧
        ∀ listed ∈ query.cut all, ∀ other ∈ all, other ∉ query.cut all →
          InIntegerOrder descending (value listed) (value other) := by
  refine ⟨?_, ?_, ?_⟩
  · intro order first second a b shown shownOther word wordOther
    exact order.compareRows_integers shown shownOther word wordOther
  · intro a b word wordOther blurred
    exact blurred.far (natAbs_lt_of_isWord word) (natAbs_lt_of_isWord wordOther)
  · intro query descending ordered whole
    have kept := StoreRequest.wellFormed_served valid served
    obtain ⟨all, lists, finds⟩ := kept.faithful.find_whole kept.named query whole
    have sorted := integers.pairwise ordered lists
    refine ⟨all, lists.mem, lists.nodup, sorted, fun target => ?_, ?_⟩
    · exact (runOn_readCall calm _ _).trans (finds query.limit target)
    · intro listed given other member omitted
      exact query.of_omitted sorted given member omitted

def richest : Query := ⟨.all, some ⟨"balance", true⟩, some 2, none⟩

theorem find_by_integer_richest :
    ∃ (store : MemoryStore Account) (step : Nat) (all : List Account),
      serve ticks openings 0 (create none) = (store, step) ∧ store.faults = [] ∧
      (SortOrder.compareRows ⟨"balance", true⟩ (heldBy "a" "ada" 10) (heldBy "b" "bob" 30)) = .gt ∧
      ((find [] richest).runOn ticks step store).1 = .ok (all.take 2) ∧
      ∀ listed ∈ all.take 2, ∀ other ∈ all, other ∉ all.take 2 →
        InIntegerOrder true listed.balance.toInt other.balance.toInt := by
  let served := serve ticks openings 0 (create none)
  have ran : serve ticks openings 0 (create none) = (served.1, served.2) := Prod.mk.eta.symm
  have calm : served.1.faults = [] := by decide +kernel
  obtain ⟨compared, _, listed⟩ := find_by_integer valid_openings ran calm Account.integerColumn
  obtain ⟨all, _, _, _, found, extreme⟩ := listed richest true rfl rfl
  have apart : ¬Blurred 10 30 := by decide +kernel
  have rows := compared ⟨"balance", true⟩ (heldBy "a" "ada" 10) (heldBy "b" "bob" 30) 10 30 rfl rfl
    (by decide) (by decide)
  rw [if_neg apart] at rows
  exact ⟨served.1, served.2, all, ran, calm, rows, found [], extreme⟩

def neighbours : List (StoreRequest Account) :=
  [.create (holding "a" "ada" 9007199254740992 none),
    .create (holding "b" "bob" 9007199254740993 none)]

/-- Rows of two different balances compare equal, and the lower one is listed as the highest. -/
theorem find_misses_highest :
    ∃ (store : MemoryStore Account) (step : Nat),
      serve ticks neighbours 0 (create none) = (store, step) ∧ store.faults = [] ∧
      store.rows.Holds ⟨"a"⟩ (holding "a" "ada" 9007199254740992 none) ∧
      store.rows.Holds ⟨"b"⟩ (holding "b" "bob" 9007199254740993 none) ∧
      (SortOrder.compareRows ⟨"balance", false⟩ (heldBy "a" "ada" 9007199254740992)
        (heldBy "b" "bob" 9007199254740993)) = .eq ∧
      ((find [] { richest with limit := some 1 }).runOn ticks step store).1 =
        .ok [holding "a" "ada" 9007199254740992 none] := by
  obtain ⟨⟨store, step⟩, ran⟩ : ∃ served, serve ticks neighbours 0 (create none) = served :=
    ⟨_, rfl⟩
  have calm : store.faults = [] := by
    cases ran
    rfl
  have holds : store.rows.Holds ⟨"a"⟩ (holding "a" "ada" 9007199254740992 none) := by
    cases ran
    exact ⟨Metadata.isValid_none, rfl, _, rfl, rfl⟩
  have holdsOther : store.rows.Holds ⟨"b"⟩ (holding "b" "bob" 9007199254740993 none) := by
    cases ran
    exact ⟨Metadata.isValid_none, rfl, _, rfl, rfl⟩
  have stands : store.rows.HasEntry (holding "a" "ada" 9007199254740992 none)
      (⟨"a"⟩, heldBy "a" "ada" 9007199254740992) := ⟨holds, rfl⟩
  have standsOther : store.rows.HasEntry (holding "b" "bob" 9007199254740993 none)
      (⟨"b"⟩, heldBy "b" "bob" 9007199254740993) := ⟨holdsOther, rfl⟩
  have live : Rows.liveRows Account (store.rows.matching .all) =
      .ok [heldBy "a" "ada" 9007199254740992, heldBy "b" "bob" 9007199254740993] := by
    cases ran
    rfl
  have level : SortOrder.compareRows ⟨"balance", false⟩ (heldBy "a" "ada" 9007199254740992)
      (heldBy "b" "bob" 9007199254740993) = .eq := by decide +kernel
  have down : ¬SortOrder.compareRows ⟨"balance", true⟩ (heldBy "a" "ada" 9007199254740992)
      (heldBy "b" "bob" 9007199254740993) = .gt := by decide +kernel
  have ordered : ({ richest with limit := some 1 } : Query).order = some ⟨"balance", true⟩ := rfl
  have found : store.rows.find [] { richest with limit := some 1 } =
      .ok [holding "a" "ada" 9007199254740992 none] := by
    rw [Rows.find_pair ordered rfl stands standsOther live, if_neg down]
    rfl
  refine ⟨store, step, ran, calm, holds, holdsOther, level, ?_⟩
  exact (runOn_readCall calm _ _).trans found

end MemoryStore

end CachedStore
