/-
The calls that a host can make on a machine, as data, so that sequences of them can be spoken about. All
of a call's effect is in the state: `perform_fixed` says that no call changes the clock or the console.
-/
import ChipEight.Machine

namespace ChipEight

open Layout

inductive HostCall
  | load (program : List UInt8)
  | step
  | frame
  | tick
  | reset
  | press (key : Int)
  | release (key : Int)
deriving DecidableEq

namespace Outcome

variable {α β : Type}

def map (g : α → β) (o : Outcome α) : Outcome β := ⟨o.result.map g, o.machine, o.log⟩

@[simp] theorem map_machine (g : α → β) (o : Outcome α) : (o.map g).machine = o.machine := rfl

theorem map_eq_error_iff {g : α → β} {o : Outcome α} {e : Failure} :
    (o.map g).result = .error e ↔ o.result = .error e := by
  unfold map
  cases o.result <;> simp [Except.map]

end Outcome

namespace Machine

/-- The effect of a call, with the outcome that a step or a frame gives. -/
def perform (m : Machine) : HostCall → Outcome (Option Status)
  | .load program => (m.load program).map fun _ => none
  | .step => m.step.map some
  | .frame => m.frame.map some
  | .tick => ⟨.ok none, m.tick, []⟩
  | .reset => m.reset.map fun _ => none
  | .press key => (m.press key).map fun _ => none
  | .release key => (m.release key).map fun _ => none

/-- The machine behind a sequence of calls, whether or not some of them fail. -/
def performAll (m : Machine) (calls : List HostCall) : Machine :=
  calls.foldl (fun m call => (m.perform call).machine) m

@[simp] theorem performAll_cons (m : Machine) (call : HostCall) (calls : List HostCall) :
    m.performAll (call :: calls) = (m.perform call).machine.performAll calls := rfl

/-- A program that is refused leaves the machine as it is. -/
theorem load_machine_cases (m : Machine) (program : List UInt8) :
    (m.load program).machine = m ∨ (m.load program).machine = { m with state := m.state.loaded program } := by
  unfold load
  rcases m.state.load_cases program with ⟨-, hload⟩ | ⟨-, hload⟩ <;> rw [hload]
  · exact .inl rfl
  · exact .inr rfl

theorem setKey_fixed (m : Machine) (key : Int) (down : Bool) :
    (m.setKey key down).machine.clock = m.clock ∧ (m.setKey key down).machine.console = m.console := by
  unfold setKey
  split <;> exact ⟨rfl, rfl⟩

theorem perform_fixed (m : Machine) (call : HostCall) :
    (m.perform call).machine.clock = m.clock ∧ (m.perform call).machine.console = m.console := by
  cases call with
  | load program =>
    rw [perform, Outcome.map_machine]
    rcases m.load_machine_cases program with hload | hload <;> rw [hload] <;> exact ⟨rfl, rfl⟩
  | frame =>
    simp only [perform, frame, Outcome.map_machine]
    split
    · exact ⟨rfl, rfl⟩
    · split <;> exact ⟨rfl, rfl⟩
  | press key => exact m.setKey_fixed key true
  | release key => exact m.setKey_fixed key false
  | step | tick | reset => exact ⟨rfl, rfl⟩

end Machine

end ChipEight
