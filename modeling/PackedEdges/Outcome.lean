import PackedEdges.Error

/-! Operations on slots have a third way to end besides success and failure: they are refused when
they need bits or bytes that do not exist. -/

namespace PackedEdges

inductive Outcome (α : Type)
  | done (value : α)
  | failed (error : Error)
  | refused

namespace Outcome

variable {α β : Type}

def ofOption : Option α → Outcome α
  | some a => done a
  | none => refused

def ofExcept : Except Error α → Outcome α
  | .ok a => done a
  | .error e => failed e

def bind (outcome : Outcome α) (next : α → Outcome β) : Outcome β :=
  match outcome with
  | done a => next a
  | failed e => failed e
  | refused => refused

instance : Monad Outcome where
  pure := done
  bind := bind

@[simp] theorem done_bind (a : α) (next : α → Outcome β) : (done a >>= next) = next a := rfl

@[simp] theorem failed_bind (e : Error) (next : α → Outcome β) :
    (failed e >>= next) = failed e := rfl

theorem bind_eq_done_iff {outcome : Outcome α} {next : α → Outcome β} {b : β} :
    (outcome >>= next) = done b ↔ ∃ a, outcome = done a ∧ next a = done b := by
  cases outcome with
  | done a => simp
  | failed e => simp
  | refused => exact ⟨nofun, nofun⟩

theorem bind_eq_failed_iff {outcome : Outcome α} {next : α → Outcome β} {e : Error} :
    (outcome >>= next) = failed e ↔
      outcome = failed e ∨ ∃ a, outcome = done a ∧ next a = failed e := by
  cases outcome with
  | done a => simp
  | failed e' => simp
  | refused => exact ⟨nofun, by simp⟩

end Outcome

end PackedEdges
