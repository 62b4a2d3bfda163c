/-
Histories: what a step executes, the state behind a sequence of operations, and the words that their steps
and runs have executed on the way. A step that dispatches a word makes the effect of the instruction that
the word stands for (`step_of_dispatched`), unless the instruction reports something else than OK.
-/
import ChipEight.Proofs.Encoding
import ChipEight.Proofs.Loop
import ChipEight.Proofs.Reachable

namespace ChipEight

open Layout

namespace Operation

/-- The operation goes on with the program as it is: a step, a tick or a change of the keys. -/
def Plays : Operation → Prop
  | .step | .tick | .keys _ => True
  | .load _ | .run _ | .reset => False

end Operation

namespace State

/-! ## Words executed by steps -/

/-- The word that a step fetches and executes, if it comes to that. -/
def dispatched? (s : State) : Option Nat := if s.readiness = .ok then some s.word else none

variable {s : State} {w : Nat} {i : Instruction}

theorem dispatched?_eq_some_iff : s.dispatched? = some w ↔ s.readiness = .ok ∧ s.word = w := by
  unfold dispatched?
  split <;> simp_all

theorem dispatched?_eq_none_iff : s.dispatched? = none ↔ s.readiness ≠ .ok := by
  unfold dispatched?
  split <;> simp_all

theorem current_of_dispatched (h : s.dispatched? = some w) (hw : i.HasWord w) : s.current = i := by
  obtain ⟨-, rfl⟩ := dispatched?_eq_some_iff.1 h
  exact Instruction.ofWord_of_hasWord hw

theorem outcome_of_dispatched (h : s.dispatched? = some w) (hw : i.HasWord w) :
    s.outcome = (s.fetched.reported? i).getD .ok := by
  obtain ⟨hr, -⟩ := dispatched?_eq_some_iff.1 h
  rw [outcome, if_pos hr, current_of_dispatched h hw]

/-- An instruction that reports nothing takes effect, and the step ends OK. -/
theorem step_of_dispatched [RandomSource] (h : s.dispatched? = some w) (hw : i.HasWord w)
    (hi : s.fetched.reported? i = none) : s.step = s.fetched.execute i := by
  have hok : s.outcome = .ok := by
    rw [outcome_of_dispatched h hw, hi]
    rfl
  rcases s.step_cases with ⟨-, -, hstep⟩ | ⟨hhalts, -⟩
  · rw [hstep, current_of_dispatched h hw]
  · rw [hok] at hhalts
    cases hhalts

theorem status_of_dispatched [RandomSource] (h : s.dispatched? = some w) (hw : i.HasWord w)
    (hi : s.fetched.reported? i = none) : s.step.status = Status.ok.code := by
  rw [step_status, outcome_of_dispatched h hw, hi]
  rfl

/-! ## Sequences of operations -/

def performAll [RandomSource] (s : State) (ops : List Operation) : State := ops.foldl perform s

@[simp] theorem performAll_cons [RandomSource] (s : State) (op : Operation) (ops : List Operation) :
    s.performAll (op :: ops) = (s.perform op).performAll ops := rfl

theorem Reachable.performAll [RandomSource] (h : s.Reachable) (ops : List Operation) :
    (s.performAll ops).Reachable := by
  induction ops generalizing s with
  | nil => exact h
  | cons op ops ih => exact ih (h.perform op)

/-! ## Words executed by sequences -/

/-- The words that a run of up to `n` steps executes, in order. -/
def script [RandomSource] (s : State) : Nat → List Nat
  | 0 => []
  | n + 1 => s.dispatched?.toList ++ if s.step.GoesOn then s.step.script n else []

theorem script_eq [RandomSource] (s : State) (n : Nat) :
    s.script n = (s.starts n).flatMap fun t => t.dispatched?.toList := by
  induction n generalizing s with
  | zero => rfl
  | succ n ih =>
    rw [script, starts, List.flatMap_cons]
    split
    · rw [ih]
    · rfl

/-- The words that an operation executes. -/
def wordsOf [RandomSource] (s : State) : Operation → List Nat
  | .step => s.dispatched?.toList
  | .run n => s.script n.toNat
  | .load _ | .tick | .reset | .keys _ => []

/-- The words that a sequence of operations executes, in order. -/
def words [RandomSource] (s : State) : List Operation → List Nat
  | [] => []
  | op :: ops => s.wordsOf op ++ (s.perform op).words ops

end State

end ChipEight
