/-!
Calls that are answered one after the other. Two states that every call treats alike are treated
alike by any sequence of calls.
-/

namespace CachedStore

section

variable {κ β σ τ : Type}

def answerEach (answer : κ → σ → β × σ) : List κ → σ → List β × σ
  | [], state => ([], state)
  | call :: rest, state =>
    let (first, state) := answer call state
    let (others, state) := answerEach answer rest state
    (first :: others, state)

theorem answerEach_append (answer : κ → σ → β × σ) (earlier later : List κ) (state : σ) :
    (answerEach answer (earlier ++ later) state).2 =
      (answerEach answer later (answerEach answer earlier state).2).2 := by
  induction earlier generalizing state with
  | nil => rfl
  | cons call rest ih => exact ih _

/-- Where related states answer every call alike and stay related, so they do all along. -/
theorem answerEach_simulates {answer : κ → σ → β × σ} {other : κ → τ → β × τ}
    {Related : σ → τ → Prop}
    (step : ∀ call state twin, Related state twin →
      (answer call state).1 = (other call twin).1 ∧
        Related (answer call state).2 (other call twin).2)
    (calls : List κ) {state : σ} {twin : τ} (related : Related state twin) :
    (answerEach answer calls state).1 = (answerEach other calls twin).1 ∧
      Related (answerEach answer calls state).2 (answerEach other calls twin).2 := by
  induction calls generalizing state twin with
  | nil => exact ⟨rfl, related⟩
  | cons call rest ih =>
      obtain ⟨first, later⟩ := step call state twin related
      obtain ⟨others, last⟩ := ih later
      exact ⟨by simp only [answerEach, first, others], last⟩

end

end CachedStore
