import CachedStore.Proofs.Record.WholeRow
import CachedStore.Record.Account
import CachedStore.Record.Document
import CachedStore.Record.Loose
import CachedStore.Repository.Writes

/-!
What the kinds of records promise: of every kind, that a record has the identity that it was given;
of named records, how rows show their identities and names.
-/

namespace CachedStore

class LawfulRecord (ρ : Type) [Record ρ] : Prop where
  id?_withId : ∀ {record given : ρ} {id : RecordId},
    Record.withId record id = .ok given → Record.id? given = some id
  id?_touchCreated : ∀ (record : ρ) (time : Timestamp),
    Record.id? (Record.touchCreated record time) = Record.id? record

/-- Records whose natural key is a name, which their rows show, as they show their identities. -/
class NamedRecord (ρ : Type) [Record ρ] extends LawfulRecord ρ where
  name : ρ → String
  naturalKey_eq : ∀ record : ρ,
    Record.naturalKey record = .equals "name" (.string (name record))
  toRow_sorted : ∀ {record : ρ} {row : Row}, Record.toRow record = .ok row → row.Sorted
  toRow_id : ∀ {record : ρ} {row : Row} {id : RecordId}, Record.toRow record = .ok row →
    Record.id? record = some id → row.get "id" = .string id.text
  toRow_name : ∀ {record : ρ} {row : Row}, Record.toRow record = .ok row →
    row.get "name" = .string (name record)
  populate_id : ∀ {record : ρ} {row : Row} {id : RecordId}, row.Sorted →
    row.get "id" = .string id.text → Rows.populate Record.blank row = .ok record →
    Record.id? record = some id

theorem Record.id?_of_ensureId {ρ : Type} [Record ρ] [LawfulRecord ρ] {record given : ρ}
    {fresh id : RecordId} (ensured : Record.ensureId record fresh = .ok (id, given)) :
    Record.id? given = some id := by
  unfold Record.ensureId at ensured
  cases found : Record.givenId? record with
  | some own =>
      obtain ⟨rfl, rfl⟩ : own = id ∧ record = given := by simpa [found] using ensured
      unfold Record.givenId? at found
      exact (Option.filter_eq_some_iff.mp found).1
  | none =>
      cases named : Record.withId record fresh with
      | error failure => simp [found, named, Except.map] at ensured
      | ok other =>
          obtain ⟨rfl, rfl⟩ : fresh = id ∧ other = given := by
            simpa [found, named, Except.map] using ensured
          exact LawfulRecord.id?_withId named

theorem Repository.id?_of_stampNew {ρ : Type} [Record ρ] [LawfulRecord ρ] {record stamped : ρ}
    {moment : Moment} {id : RecordId}
    (given : Repository.stampNew record moment = .ok (id, stamped)) :
    Record.id? stamped = some id := by
  unfold Repository.stampNew at given
  cases ensured : Record.ensureId record moment.freshId with
  | error failure => simp [ensured, Except.map] at given
  | ok result =>
      obtain ⟨own, record⟩ := result
      obtain ⟨rfl, rfl⟩ : own = id ∧ Record.touchCreated record moment.time = stamped := by
        simpa [ensured, Except.map] using given
      rw [LawfulRecord.id?_touchCreated]
      exact Record.id?_of_ensureId ensured

namespace LooseRecord

instance : LawfulRecord LooseRecord where
  id?_withId {record given id} named := by
    simp only [Record.withId, stamp] at named
    split at named
    · simp at named
    · obtain rfl := Except.ok.inj named
      simp [Record.id?, Row.get_insert_self, RecordId.ofJson?, Json.text?]
  id?_touchCreated _ _ := rfl

end LooseRecord

/-! Documents and accounts -/

namespace Document

theorem whole : Record.Whole Document "content" Json.text? "" .string mk where
  free := by decide
  write_ne_null _ := by simp
  read_write _ := rfl
  made document := ⟨document.id, document.name, document.content, document.metadata, rfl⟩
  blank_eq := rfl
  id?_make _ _ _ _ := rfl
  toRow_make _ _ _ _ := rfl
  ofRow_eq _ := rfl

instance : NamedRecord Document where
  id?_withId named := by
    obtain rfl := Except.ok.inj named
    rfl
  id?_touchCreated _ _ := rfl
  name := Document.name
  naturalKey_eq _ := rfl
  toRow_sorted shown := whole.sorted_of_toRow shown
  toRow_id shown given := whole.get_id_of_toRow shown given
  toRow_name shown := by
    obtain ⟨_, _, _, _, rfl, rfl⟩ := whole.of_toRow shown
    exact Row.get_name_whole whole.free
  populate_id := whole.id?_of_populate

end Document

namespace Account

theorem readBalance_ofInt (balance : Int64) :
    readBalance (.ofInt balance.toInt) = some balance := by
  have low := balance.le_toInt
  have high := balance.toInt_lt
  simp only [readBalance, Json.ofInt, Json.integer?, Option.bind_some, low, high, and_self,
    ↓reduceIte, Int64.ofInt_toInt]

theorem whole :
    Record.Whole Account "balance" readBalance 0 (fun balance => .ofInt balance.toInt) mk where
  free := by decide
  write_ne_null _ := by simp [Json.ofInt]
  read_write := readBalance_ofInt
  made account := ⟨account.id, account.name, account.balance, account.metadata, rfl⟩
  blank_eq := rfl
  id?_make _ _ _ _ := rfl
  toRow_make _ _ _ _ := rfl
  ofRow_eq _ := rfl

instance : NamedRecord Account where
  id?_withId named := by
    obtain rfl := Except.ok.inj named
    rfl
  id?_touchCreated _ _ := rfl
  name := Account.name
  naturalKey_eq _ := rfl
  toRow_sorted shown := whole.sorted_of_toRow shown
  toRow_id shown given := whole.get_id_of_toRow shown given
  toRow_name shown := by
    obtain ⟨_, _, _, _, rfl, rfl⟩ := whole.of_toRow shown
    exact Row.get_name_whole whole.free
  populate_id := whole.id?_of_populate

end Account

end CachedStore
