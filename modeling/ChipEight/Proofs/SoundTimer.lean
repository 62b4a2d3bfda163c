/-
The sound timer is for the ears of the host: a program can set it, but nothing that the machine does depends
on what it shows. `AgreesButSound` relates two states that differ at most in the sound timer. Every instruction
keeps the relation, and so do steps, runs and all operations of a host, which report the same on both sides:
outcomes, counts, and the errors of programs and of loading them (`sound_noninterference`).
-/
import ChipEight.Proofs.Alteration
import ChipEight.Proofs.Reachable
import ChipEight.Proofs.Verdict
import Mathlib.Data.List.Forall2

namespace ChipEight

open Layout

namespace State

/-- The second state is the first one, but for what the sound timer shows. -/
def AgreesButSound (s t : State) : Prop := ∃ sound, t = { s with sound }

/-- The change of what the sound timer shows. -/
def resound (sound : UInt8) : Alteration := { sound := fun _ => sound }

variable {s t : State}

/-! ## One instruction -/

theorem AgreesButSound.execute (h : s.AgreesButSound t) (i : Instruction) :
    (s.execute i).AgreesButSound (t.execute i) := by
  obtain ⟨sound, rfl⟩ := h
  by_cases hi : ∃ x, i = .setSound x
  · obtain ⟨x, rfl⟩ := hi
    exact ⟨s.v[x], rfl⟩
  · have hunnoticed : (resound sound).UnnoticedBy s i :=
      (resound sound).unnoticedBy_of_same_dialect rfl (fun _ _ => rfl) (fun _ _ => rfl)
        fun x hx => absurd ⟨x, hx⟩ hi
    exact ⟨sound, (resound sound).execute_apply hunnoticed⟩

/-! ## Steps and runs -/

theorem AgreesButSound.fetched (h : s.AgreesButSound t) : s.fetched.AgreesButSound t.fetched := by
  obtain ⟨sound, rfl⟩ := h
  exact ⟨sound, rfl⟩

theorem AgreesButSound.outcome_eq (h : s.AgreesButSound t) : t.outcome = s.outcome := by
  obtain ⟨sound, rfl⟩ := h
  exact (resound sound).outcome_apply s

theorem AgreesButSound.step (h : s.AgreesButSound t) : s.step.AgreesButSound t.step := by
  have hexecute := h.fetched.execute s.current
  have hcurrent : t.current = s.current := by
    obtain ⟨sound, rfl⟩ := h
    rfl
  rcases step_cases_of_outcome_eq h.outcome_eq with ⟨-, -, hstep, hstep'⟩ | ⟨-, hstep, hstep'⟩
  · rw [hstep, hstep', hcurrent]
    exact hexecute
  · rw [hstep, hstep']
    obtain ⟨sound, rfl⟩ := h
    exact ⟨sound, rfl⟩

theorem AgreesButSound.status_eq (h : s.AgreesButSound t) : s.status = t.status := by
  obtain ⟨sound, rfl⟩ := h
  rfl

theorem AgreesButSound.verdict_eq (h : s.AgreesButSound t) : s.verdict = t.verdict := by
  obtain ⟨sound, rfl⟩ := h
  rfl

theorem AgreesButSound.run (h : s.AgreesButSound t) (n : Int) :
    (s.run n).state.AgreesButSound (t.run n).state ∧ (s.run n).executed = (t.run n).executed := by
  have hbegin : s.begin.state.AgreesButSound t.begin.state := by
    obtain ⟨sound, rfl⟩ := h
    exact ⟨sound, rfl⟩
  exact run_related (fun _ _ => AgreesButSound.status_eq) (fun _ _ => AgreesButSound.step) hbegin n

/-! ## Operations of a host -/

/-- What an operation tells its host. -/
inductive Answer
  /-- Why the program was refused, if it was. -/
  | loaded (refusal? : Option Fault)
  | stepped (verdict : Except Failure Status)
  | ran (executed : Nat) (verdict : Except Failure Status)
  | done

def answer (s : State) : Operation → Answer
  | .load program => match s.load program with
    | .ok _ => .loaded none
    | .error f => .loaded (some f)
  | .step => .stepped s.step.verdict
  | .run n => .ran (s.run n).executed (s.run n).state.verdict
  | .tick | .reset | .keys _ => .done

/-- What a sequence of operations tells its host, with the state behind each of them. -/
def journal (s : State) : List Operation → List (Answer × State)
  | [] => []
  | op :: ops => (s.answer op, s.perform op) :: (s.perform op).journal ops

theorem AgreesButSound.load (h : s.AgreesButSound t) (program : List UInt8) :
    s.answer (.load program) = t.answer (.load program) ∧
      (s.perform (.load program)).AgreesButSound (t.perform (.load program)) := by
  obtain ⟨sound, rfl⟩ := h
  rcases Nat.lt_or_ge programCapacity program.length with hlarge | hsmall
  · simp only [answer, State.perform, load_of_large hlarge, true_and]
    exact ⟨sound, rfl⟩
  · simp only [answer, State.perform, load_of_small hsmall, true_and]
    exact ⟨sound, rfl⟩

theorem AgreesButSound.perform (h : s.AgreesButSound t) (op : Operation) :
    s.answer op = t.answer op ∧ (s.perform op).AgreesButSound (t.perform op) := by
  cases op with
  | load program => exact h.load program
  | step => exact ⟨congrArg Answer.stepped h.step.verdict_eq, h.step⟩
  | run n =>
    obtain ⟨hstate, hcount⟩ := h.run n
    exact ⟨congrArg₂ Answer.ran hcount hstate.verdict_eq, hstate⟩
  | tick | reset | keys =>
    obtain ⟨sound, rfl⟩ := h
    exact ⟨rfl, _, rfl⟩

/-- Two states that agree in every field but the sound timer are told apart by no sequence of operations: each
operation answers the same, with the same outcomes, counts and errors, and leaves states that still agree in
every field but the sound timer. -/
theorem sound_noninterference (h : s.AgreesButSound t) (ops : List Operation) :
    List.Forall₂ (fun a b => a.1 = b.1 ∧ a.2.AgreesButSound b.2) (s.journal ops) (t.journal ops) := by
  induction ops generalizing s t with
  | nil => exact .nil
  | cons op ops ih =>
    have hop := h.perform op
    exact .cons hop (ih hop.2)

/-- The start, while a tone of one second sounds. -/
def sounding : State := { initial ⟨0, 0⟩ {} with sound := 60 }

/-- A program of the words 6005, F018 and FFFF: a step and a tick, a run that sets the sound timer and then
fails, a program too large, and a new start. -/
def beeping : List Operation :=
  [.load [0x60, 0x05, 0xF0, 0x18, 0xFF, 0xFF], .step, .tick, .run 9, .load (.replicate 4000 0), .reset]

theorem sounding_noninterference :
    (initial ⟨0, 0⟩ {}).AgreesButSound sounding ∧
    ((initial ⟨0, 0⟩ {}).journal beeping).map (·.2.sound) = [0, 0, 0, 5, 5, 0] ∧
    (sounding.journal beeping).map (·.2.sound) = [60, 60, 59, 5, 5, 0] ∧
    List.Forall₂ (fun a b => a.1 = b.1 ∧ a.2.AgreesButSound b.2)
      ((initial ⟨0, 0⟩ {}).journal beeping) (sounding.journal beeping) := by
  have h : (initial ⟨0, 0⟩ {}).AgreesButSound sounding := ⟨60, rfl⟩
  exact ⟨h, by decide +kernel, by decide +kernel, sound_noninterference h beeping⟩

end State

end ChipEight
