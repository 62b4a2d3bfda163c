/-
The keypad belongs to the host. A program reads the keys and never changes them, and of the calls of a host
only an accepted press or release changes one, the key that it names: a reset, a failing frame and a call for
a key that the pad does not have leave all of them alone (`keypad_perform`). So the last accepted call for a
key decides whether it is held down (`held_iff_pressed_last`).
-/
import ChipEight.Proofs.Frame
import ChipEight.Proofs.HostCall

namespace ChipEight

open Layout

/-! ## Programs -/

namespace State

theorem keypad_step (s : State) : s.step.keypad = s.keypad := by
  rcases s.step_cases with ⟨-, -, hstep⟩ | ⟨-, hstep⟩
  · rw [hstep]
    exact (s.fetched.execute_frame s.current).1
  · rw [hstep]

theorem keypad_run (s : State) (n : Int) : (s.run n).state.keypad = s.keypad := by
  refine run_invariant (P := fun t => t.keypad = s.keypad) rfl ?_ n
  intro t ht
  rw [keypad_step, ht]

end State

/-! ## Calls of a host -/

/-- What the call asks for the key: to hold it down, or to release it. -/
def HostCall.asks? (k : Fin keyCount) : HostCall → Option Bool
  | .press key => if key = k.val then some true else none
  | .release key => if key = k.val then some false else none
  | .load _ | .step | .frame | .tick | .reset => none

namespace Machine

/-- The accepted presses of a key, as `true`, and its accepted releases, as `false`, in order. -/
def accepted (m : Machine) (k : Fin keyCount) : List HostCall → List Bool
  | [] => []
  | call :: calls =>
    (if (m.perform call).result.isOk then call.asks? k else none).toList ++
      (m.perform call).machine.accepted k calls

theorem setKey_of_key (m : Machine) {key : Int} (down : Bool) (h : 0 ≤ key ∧ key < keyCount) :
    ∃ k : Fin keyCount, key = k.val ∧ (m.setKey key down).result = .ok () ∧
      (m.setKey key down).machine = { m with state := m.state.setKey k down } := by
  refine ⟨⟨key.toNat, by omega⟩, ?_, ?_, ?_⟩
  · show key = (key.toNat : Int)
    omega
  · unfold setKey
    rw [dif_pos h]
  · unfold setKey
    rw [dif_pos h]

/-- A key that the pad does not have is refused, and nothing is changed or printed. -/
theorem setKey_of_no_key (m : Machine) {key : Int} (down : Bool) (h : ¬ (0 ≤ key ∧ key < keyCount)) :
    m.setKey key down = ⟨.error (.noSuchKey key), m, []⟩ := by
  unfold setKey
  rw [dif_neg h]

/-- Only the key that is named is set. -/
theorem keypad_setKey (m : Machine) (key : Int) (down : Bool) (k : Fin keyCount) :
    (m.setKey key down).machine.state.keypad.get k =
      if key = k.val then down else m.state.keypad.get k := by
  by_cases h : 0 ≤ key ∧ key < keyCount
  · obtain ⟨j, rfl, -, hmachine⟩ := m.setKey_of_key down h
    have hset : (m.state.keypad.set j down).get k = if j.val = k.val then down else m.state.keypad.get k :=
      Vector.getElem_set j.isLt k.isLt
    rw [hmachine]
    simp only [State.setKey, hset, Int.natCast_inj]
  · have hne : key ≠ k.val := by
      rintro rfl
      exact h ⟨by omega, by omega⟩
    rw [m.setKey_of_no_key down h, if_neg hne]

theorem keypad_load (m : Machine) (program : List UInt8) :
    (m.load program).machine.state.keypad = m.state.keypad := by
  rcases m.load_machine_cases program with hload | hload <;> rw [hload]
  rfl

theorem keypad_frame (m : Machine) : m.frame.machine.state.keypad = m.state.keypad := by
  cases hk : m.clock.frameLength? with
  | none =>
    unfold frame
    rw [hk]
  | some n =>
    rw [frame_machine (frameLength_eq_ok_iff.2 hk)]
    split
    · exact m.state.keypad_run n
    · exact m.state.keypad_run n

theorem keypad_perform (m : Machine) (call : HostCall) (k : Fin keyCount) :
    (m.perform call).machine.state.keypad.get k = (call.asks? k).getD (m.state.keypad.get k) := by
  cases call with
  | load program =>
    show (m.load program).machine.state.keypad.get k = m.state.keypad.get k
    rw [keypad_load]
  | step =>
    show m.state.step.keypad.get k = m.state.keypad.get k
    rw [State.keypad_step]
  | frame =>
    show m.frame.machine.state.keypad.get k = m.state.keypad.get k
    rw [keypad_frame]
  | tick | reset => rfl
  | press key =>
    show (m.setKey key true).machine.state.keypad.get k = _
    rw [keypad_setKey, HostCall.asks?]
    split <;> rfl
  | release key =>
    show (m.setKey key false).machine.state.keypad.get k = _
    rw [keypad_setKey, HostCall.asks?]
    split <;> rfl

/-! ## Sequences of calls -/

/-- A call that asks something for a key is accepted. -/
theorem isOk_of_asks? (m : Machine) {call : HostCall} {k : Fin keyCount} {down : Bool}
    (h : call.asks? k = some down) : (m.perform call).result.isOk = true := by
  have haccepts (key : Int) (down : Bool) (hkey : key = k.val) :
      ((m.setKey key down).map fun _ => (none : Option Status)).result.isOk = true := by
    have hpad : 0 ≤ key ∧ key < keyCount := ⟨by omega, by omega⟩
    obtain ⟨-, -, hresult, -⟩ := m.setKey_of_key down hpad
    unfold Outcome.map
    rw [hresult]
    rfl
  cases call with
  | press key =>
    simp only [HostCall.asks?, Option.ite_none_right_eq_some] at h
    exact haccepts key true h.1
  | release key =>
    simp only [HostCall.asks?, Option.ite_none_right_eq_some] at h
    exact haccepts key false h.1
  | load | step | frame | tick | reset => cases h

theorem accepted_cons (m : Machine) (k : Fin keyCount) (call : HostCall) (calls : List HostCall) :
    m.accepted k (call :: calls) =
      (call.asks? k).toList ++ (m.perform call).machine.accepted k calls := by
  rw [accepted]
  cases hasks : call.asks? k with
  | none => rw [ite_self]
  | some down => rw [m.isOk_of_asks? hasks, if_pos rfl]

theorem keypad_performAll (m : Machine) (calls : List HostCall) (k : Fin keyCount) :
    (m.performAll calls).state.keypad.get k =
      ((m.accepted k calls).getLast?).getD (m.state.keypad.get k) := by
  induction calls generalizing m with
  | nil => rfl
  | cons call calls ih =>
    rw [performAll_cons, ih, keypad_perform, accepted_cons, List.getLast?_append]
    cases call.asks? k <;> cases ((m.perform call).machine.accepted k calls).getLast? <;> rfl

/-- On a machine that starts with all keys up, a key is held down behind a sequence of calls if and only if the
last call for it that was accepted was a press; on any other machine it is as it was until such a call is made.
The keys 0 to 15 are accepted, and a call for another one is refused and changes nothing. A call that does not
ask for a key leaves it alone, and so do all instructions, steps and runs. -/
theorem held_iff_pressed_last (m : Machine) (calls : List HostCall) (k : Fin keyCount) :
    (∀ key dialect, m.state = .initial key dialect →
      ((m.performAll calls).state.keypad.get k = true ↔ (m.accepted k calls).getLast? = some true)) ∧
    (m.performAll calls).state.keypad.get k = ((m.accepted k calls).getLast?).getD (m.state.keypad.get k) ∧
    (∀ (t : Machine) (key : Int), 0 ≤ key ∧ key ≤ 15 →
      (t.press key).result = .ok () ∧ (t.release key).result = .ok ()) ∧
    (∀ (t : Machine) (key : Int), ¬ (0 ≤ key ∧ key ≤ 15) →
      t.press key = ⟨.error (.noSuchKey key), t, []⟩ ∧
      t.release key = ⟨.error (.noSuchKey key), t, []⟩) ∧
    (∀ (t : Machine) (call : HostCall), call.asks? k = none →
      (t.perform call).machine.state.keypad.get k = t.state.keypad.get k) ∧
    (∀ s : State, (∀ i, (s.execute i).keypad = s.keypad) ∧ s.step.keypad = s.keypad ∧
      ∀ n, (s.run n).state.keypad = s.keypad) := by
  have hkeys := m.keypad_performAll calls k
  have hpad (key : Int) : 0 ≤ key ∧ key ≤ 15 ↔ 0 ≤ key ∧ key < keyCount := by
    simp only [keyCount]
    omega
  refine ⟨?_, hkeys, ?_, ?_, ?_, ?_⟩
  · intro key dialect hm
    have hup : m.state.keypad.get k = false := by
      rw [hm]
      exact Vector.getElem_replicate k.isLt
    rw [hkeys, hup]
    cases (m.accepted k calls).getLast? <;> simp
  · intro t key h
    obtain ⟨-, -, hpress, -⟩ := t.setKey_of_key true ((hpad key).1 h)
    obtain ⟨-, -, hrelease, -⟩ := t.setKey_of_key false ((hpad key).1 h)
    exact ⟨hpress, hrelease⟩
  · intro t key h
    rw [hpad] at h
    exact ⟨t.setKey_of_no_key true h, t.setKey_of_no_key false h⟩
  · intro t call hcall
    rw [keypad_perform, hcall, Option.getD_none]
  · intro s
    exact ⟨fun i => (s.execute_frame i).1, s.keypad_step, s.keypad_run⟩

-- a clock without ticks, so that the frame fails as well as the key 16
example :
    let m : Machine :=
      { state := .initial ⟨0, 0⟩ {}
        clock := ⟨0, 0, by decide⟩
        console := ⟨"chip8", .info, false, none⟩ }
    let calls := [.press 5, .press 7, .frame, .release 5, .press 16, .reset]
    (m.accepted 5 calls, m.accepted 7 calls) = ([true, false], [true]) ∧
      (m.performAll calls).state.lowestKey? = some 7 := by
  decide +kernel

end Machine

end ChipEight
