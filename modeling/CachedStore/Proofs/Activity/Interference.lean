import Mathlib.Tactic.SplitIfs
import CachedStore.Activity

/-!
Activities among others. Between two steps of an activity the others may change the state, as far as
a relation between worlds allows; in return every step of its own keeps to a relation as well.
-/

namespace CachedStore

namespace Activity

variable {σ α β : Type}

def isDone : Activity σ α → Bool
  | done _ => true
  | _ => false

theorem eq_done {activity : Activity σ α} (finished : activity.isDone = true) :
    ∃ result, activity = done result := by
  cases activity <;> simp_all [isDone]

theorem bind_assoc {γ : Type} (activity : Activity σ α) (first : α → Activity σ β)
    (second : β → Activity σ γ) :
    (activity.bind first).bind second = activity.bind fun result => (first result).bind second := by
  induction activity with
  | done result => rfl
  | act effect next ih =>
      simp only [bind]
      exact congrArg _ (funext fun answer => ih answer first)
  | pause ticks next ih => exact congrArg _ (ih first)
  | within ticks late inner next _ ih =>
      simp only [bind]
      exact congrArg _ (funext fun result => ih result first)

def pass (ticks : Nat) (late : β) (next : β → Activity σ α) : Activity σ β → Activity σ α
  | done result => next result
  | inner => within ticks late inner next

theorem pass_of_underway {inner : Activity σ β} {ticks : Nat} {late : β}
    {next : β → Activity σ α} (underway : inner.isDone = false) :
    inner.pass ticks late next = within ticks late inner next := by
  cases inner with
  | done result => simp [isDone] at underway
  | _ => rfl

/--
One step: an effect, or the end of a pause. What was reached under a limit goes on behind it at
once. The limits are numbered from outside, from one on; if that of the number `late` is still to be
met, its end is the step.
-/
def advance (moment : Moment) :
    {α : Type} → (late : Nat) → Activity σ α → σ → Activity σ α × σ
  | _, _, done result, state => (done result, state)
  | _, _, act effect next, state =>
    let (answer, state) := effect moment state
    (next answer, state)
  | _, _, pause _ next, state => (next, state)
  | _, late, within ticks result inner next, state =>
    if late = 1 ∧ inner.isDone = false then (next result, state)
    else
      let (inner, state) := inner.advance moment (late - 1) state
      (inner.pass ticks result next, state)

theorem advance_bind {moment : Moment} {late : Nat} {state : σ} (activity : Activity σ α)
    {next : α → Activity σ β} (underway : activity.isDone = false) :
    (activity.bind next).advance moment late state =
      ((activity.advance moment late state).1.bind next,
        (activity.advance moment late state).2) := by
  cases activity with
  | done result => simp [isDone] at underway
  | act effect rest => rfl
  | pause ticks rest => rfl
  | within ticks result inner rest =>
      simp only [bind, advance]
      split_ifs
      · rfl
      · cases (inner.advance moment (late - 1) state).1 <;> rfl

end Activity

/-- What an activity may count on, and what it must keep to. -/
structure Rules (σ W : Type) where
  state : W → σ
  admits : W → Moment → Prop
  later : W → W → Prop
  step : W → Moment → W → Prop
  /-- Whether limits may end before what they limit. -/
  limits : Prop
  refl : ∀ world, later world world
  trans : ∀ {first second third}, later first second → later second third → later first third
  idle : ∀ {world moment}, admits world moment →
    ∃ after, step world moment after ∧ later world after ∧ state after = state world

namespace Activity

variable {σ W α β : Type}

/--
Whatever the others do, every step keeps to the rules, and the activity ends with its result in a
world as `post` says. Wherever it is not done, `cut` holds, so that it may be left there.
-/
def Safe (rules : Rules σ W) :
    {α : Type} → (cut : W → Prop) → Activity σ α → (post : α → W → Prop) → W → Prop
  | _, _, done result, post, world => post result world
  | _, cut, act effect next, post, world =>
    ∀ now, rules.later world now → cut now ∧ ∀ moment, rules.admits now moment →
      ∃ after, rules.step now moment after ∧
        rules.state after = (effect moment (rules.state now)).2 ∧
        Safe rules cut (next (effect moment (rules.state now)).1) post after
  | _, cut, pause _ next, post, world =>
    ∀ now, rules.later world now → cut now ∧ Safe rules cut next post now
  | _, cut, within _ late inner next, post, world =>
    ∀ now, rules.later world now → cut now ∧
      Safe rules (fun left => cut left ∧ (rules.limits → Safe rules cut (next late) post left))
        inner (fun result met => Safe rules cut (next result) post met) now

namespace Safe

variable {rules : Rules σ W} {cut : W → Prop} {activity : Activity σ α} {post : α → W → Prop}
  {world : W}

theorem later (safe : Safe rules cut activity post world) (underway : activity.isDone = false)
    {now : W} (reached : rules.later world now) : Safe rules cut activity post now := by
  cases activity with
  | done result => simp [isDone] at underway
  | act effect next => exact fun final after => safe final (rules.trans reached after)
  | pause ticks next => exact fun final after => safe final (rules.trans reached after)
  | within ticks late inner next => exact fun final after => safe final (rules.trans reached after)

theorem cut_now (safe : Safe rules cut activity post world) (underway : activity.isDone = false) :
    cut world := by
  cases activity with
  | done result => simp [isDone] at underway
  | act effect next => exact (safe world (rules.refl world)).1
  | pause ticks next => exact (safe world (rules.refl world)).1
  | within ticks late inner next => exact (safe world (rules.refl world)).1

theorem mono {weaker : W → Prop} {wider : α → W → Prop}
    (safe : Safe rules cut activity post world) (cuts : ∀ left, cut left → weaker left)
    (posts : ∀ result met, post result met → wider result met) :
    Safe rules weaker activity wider world := by
  induction activity generalizing cut weaker world with
  | done result => exact posts result world safe
  | act effect next ih =>
      intro now reached
      obtain ⟨holds, steps⟩ := safe now reached
      refine ⟨cuts now holds, fun moment admitted => ?_⟩
      obtain ⟨after, step, state, rest⟩ := steps moment admitted
      exact ⟨after, step, state, ih _ rest cuts posts⟩
  | pause ticks next ih =>
      intro now reached
      obtain ⟨holds, rest⟩ := safe now reached
      exact ⟨cuts now holds, ih rest cuts posts⟩
  | within ticks late inner next ihInner ih =>
      intro now reached
      obtain ⟨holds, rest⟩ := safe now reached
      refine ⟨cuts now holds, ihInner rest ?_ ?_⟩
      · exact fun left both =>
          ⟨cuts left both.1, fun limits => ih late (both.2 limits) cuts posts⟩
      · exact fun result met goesOn => ih result goesOn cuts posts

theorem bind {next : α → Activity σ β} {post : β → W → Prop}
    (safe : Safe rules cut activity (fun result met => Safe rules cut (next result) post met)
      world) :
    Safe rules cut (activity.bind next) post world := by
  induction activity generalizing cut world with
  | done result => exact safe
  | act effect rest ih =>
      intro now reached
      obtain ⟨holds, steps⟩ := safe now reached
      refine ⟨holds, fun moment admitted => ?_⟩
      obtain ⟨after, step, state, goesOn⟩ := steps moment admitted
      exact ⟨after, step, state, ih _ goesOn⟩
  | pause ticks rest ih =>
      intro now reached
      obtain ⟨holds, goesOn⟩ := safe now reached
      exact ⟨holds, ih goesOn⟩
  | within ticks late inner rest ihInner ih =>
      intro now reached
      obtain ⟨holds, goesOn⟩ := safe now reached
      refine ⟨holds, goesOn.mono ?_ ?_⟩
      · exact fun left both => ⟨both.1, fun limits => ih late (both.2 limits)⟩
      · exact fun result met last => ih result last

theorem pass {ticks : Nat} {late : β} {next : β → Activity σ α} {inner : Activity σ β}
    (safe : Safe rules
      (fun left => cut left ∧ (rules.limits → Safe rules cut (next late) post left)) inner
      (fun result met => Safe rules cut (next result) post met) world) :
    Safe rules cut (inner.pass ticks late next) post world := by
  by_cases finished : inner.isDone = true
  · obtain ⟨result, rfl⟩ := eq_done finished
    exact safe
  · have underway : inner.isDone = false := by simpa using finished
    rw [pass_of_underway underway]
    intro now reached
    have here := safe.later underway reached
    exact ⟨(here.cut_now underway).1, here⟩

/-- A safe activity that takes a step keeps to the rules and is safe again. -/
theorem advance {now : W} {moment : Moment} (safe : Safe rules cut activity post world)
    (underway : activity.isDone = false) (reached : rules.later world now)
    (admitted : rules.admits now moment) (late : Nat) (limited : late ≠ 0 → rules.limits) :
    ∃ after, rules.step now moment after ∧
      rules.state after = (activity.advance moment late (rules.state now)).2 ∧
      Safe rules cut (activity.advance moment late (rules.state now)).1 post after := by
  induction activity generalizing cut world late with
  | done result => simp [isDone] at underway
  | act effect next ih => exact (safe now reached).2 moment admitted
  | pause ticks next ih =>
      obtain ⟨after, step, others, state⟩ := rules.idle admitted
      exact ⟨after, step, state, (safe after (rules.trans reached others)).2⟩
  | within ticks result inner next ihInner ih =>
      obtain ⟨after, step, others, state⟩ := rules.idle admitted
      have idle := (safe after (rules.trans reached others)).2
      by_cases finished : inner.isDone = true
      · obtain ⟨answer, rfl⟩ := eq_done finished
        have goesOn : Safe rules cut (next answer) post after := idle
        refine ⟨after, step, ?_, ?_⟩
        · simpa [Activity.advance, isDone] using state
        · simpa [Activity.advance, isDone, Activity.pass] using goesOn
      · have still : inner.isDone = false := by simpa using finished
        by_cases ends : late = 1
        · refine ⟨after, step, ?_, ?_⟩
          · simpa [Activity.advance, still, ends] using state
          · have left := (idle.cut_now still).2 (limited (by omega))
            simpa [Activity.advance, still, ends] using left
        · obtain ⟨after, step, state, rest⟩ :=
            ihInner (safe now reached).2 still (rules.refl now) (late - 1)
              fun inward => limited (by omega)
          refine ⟨after, step, ?_, ?_⟩
          · simpa [Activity.advance, ends] using state
          · simpa [Activity.advance, ends] using rest.pass

end Safe

end Activity

end CachedStore
