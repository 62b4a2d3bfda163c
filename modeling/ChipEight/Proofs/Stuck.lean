/-
Machines behind a fault. An error is recorded in a state that steps to itself, and whether and how an
instruction fails depends neither on the keys nor on the timers (`reported?_withInputs`). So a state
with an error is `Stuck` in its fault, and stays so whatever the host does to the timers and the keys.
`fault_persists` states it for machines: every further step and frame fails alike and changes nothing.
-/
import ChipEight.Proofs.Frame
import ChipEight.Proofs.HostCall

namespace ChipEight

open Layout

namespace State

/-! ## Stuck states -/

/-- A step leads back to the state, and the verdict on it is the fault. -/
structure Stuck (s : State) (f : Fault) : Prop where
  step_eq : s.step = s
  verdict_eq : s.verdict = .error (.fault f)

variable {s : State} {f : Fault}

theorem not_running_of_verdict (h : s.verdict = .error (.fault f)) : s.running = false := by
  obtain ⟨st, hst, herror⟩ := isError_of_verdict h
  have hhalts : st.halts = true := Status.halts_of_isError herror
  refine Bool.eq_false_iff.2 fun hr => ?_
  rw [running, decide_eq_true_iff, hst, Status.le_draw_iff, hhalts] at hr
  cases hr

theorem Settled.stuck (hs : s.Settled) (h : s.verdict = .error (.fault f)) : s.Stuck f :=
  ⟨hs (not_running_of_verdict h), h⟩

/-- The outcome of the step that a stuck state makes over and over. -/
theorem Stuck.outcome (h : s.Stuck f) : s.status = s.outcome.code ∧ s.outcome.isError = true := by
  have hstatus : s.status = s.outcome.code := by
    rw [← step_status, h.step_eq]
  obtain ⟨st, hst, herror⟩ := isError_of_verdict h.verdict_eq
  obtain rfl : st = s.outcome := Status.code_inj (hst.symm.trans hstatus)
  exact ⟨hst, herror⟩

/-! ## Keys and timers -/

/-- The state with other keys held down and other times left, as a host may bring about. -/
def withInputs (s : State) (keypad : Vector Bool keyCount) (delay sound : UInt8) : State :=
  { s with keypad, delay, sound }

variable (keypad : Vector Bool keyCount) (delay sound : UInt8)

/-- No instruction asks the keys or the timers whether it fails. The one whose outcome depends on the
keys waits for them, which is no error. -/
theorem reported?_withInputs {i : Instruction} {st : Status} (h : s.reported? i = some st)
    (hst : st.isError = true) : (s.withInputs keypad delay sound).reported? i = some st := by
  cases i with
  | awaitKey x =>
    simp only [reported?, Option.ite_none_right_eq_some, Option.some.injEq] at h
    obtain ⟨-, rfl⟩ := h
    cases hst
  | skip condition => cases condition <;> exact h
  | _ => exact h

theorem outcome_withInputs (h : s.outcome.isError = true) :
    (s.withInputs keypad delay sound).outcome = s.outcome := by
  have hready : (s.withInputs keypad delay sound).readiness = s.readiness := rfl
  unfold outcome at h ⊢
  rw [hready]
  by_cases hr : s.readiness = .ok
  · rw [if_pos hr] at h ⊢
    rw [if_pos hr]
    cases hi : s.fetched.reported? s.current with
    | none =>
      rw [hi] at h
      cases h
    | some st =>
      rw [hi] at h
      have hi' := reported?_withInputs keypad delay sound hi h
      exact congrArg (Option.getD · Status.ok) hi'
  · rw [if_neg hr, if_neg hr]

theorem Stuck.withInputs (h : s.Stuck f) : (s.withInputs keypad delay sound).Stuck f := by
  obtain ⟨hstatus, herror⟩ := h.outcome
  have hsame := outcome_withInputs keypad delay sound herror
  refine ⟨?_, h.verdict_eq⟩
  rw [step_of_halts (by rw [hsame]; exact Status.halts_of_isError herror), hsame, ← hstatus]
  rfl

/-! ## Runs -/

theorem Stuck.run (h : s.Stuck f) {n : Int} (hn : 1 ≤ n) : (s.run n).state = s := by
  obtain ⟨k, hk⟩ := Int.eq_ofNat_of_zero_le (show 0 ≤ n - 1 by omega)
  obtain rfl : n = (k + 1 : Nat) := by omega
  have hhalts : ¬ s.step.GoesOn := by
    rw [h.step_eq, ← running_iff, not_running_of_verdict h.verdict_eq]
    exact Bool.false_ne_true
  rw [run_eq_trail, trail_of_halts hhalts, h.step_eq]
  rfl

end State

/-! ## Machines behind a fault -/

namespace HostCall

/-- The call keeps what the machine executes: it is no reset, and a load only where the machine refuses
the program for its size. -/
def Spares (m : Machine) : HostCall → Prop
  | .load program =>
    ∃ size capacity, (m.load program).result = .error (.fault (.tooLarge size capacity))
  | .reset => False
  | _ => True

end HostCall

namespace Machine

variable {m t : Machine} {f : Fault} {k : Int}

/-- Every machine that calls which spare the program lead to, in any number and order. -/
inductive Later (m : Machine) : Machine → Prop
  | refl : Later m m
  | perform {t : Machine} (call : HostCall) :
    Later m t → call.Spares t → Later m (t.perform call).machine

theorem load_machine_of_error {program : List UInt8} {e : Failure}
    (h : (m.load program).result = .error e) : (m.load program).machine = m := by
  unfold load at h ⊢
  split at h
  · cases h
  · rfl

theorem step_of_stuck (h : m.state.Stuck f) :
    m.step.result = .error (.fault f) ∧ m.step.machine = m := by
  have hmachine : m.step.machine = m := congrArg (fun s => { m with state := s }) h.step_eq
  have hresult : m.step.result = m.state.step.verdict := rfl
  rw [hresult, h.step_eq]
  exact ⟨h.verdict_eq, hmachine⟩

theorem frame_of_stuck (hk : m.frameLength = .ok k) (hpos : 1 ≤ k) (h : m.state.Stuck f) :
    m.frame.result = .error (.fault f) ∧ m.frame.machine = m := by
  have hresult : m.frame.result = .error (.fault f) := by
    rw [frame_result hk, h.run hpos]
    exact h.verdict_eq
  refine ⟨hresult, ?_⟩
  rw [frame_machine hk, hresult, h.run hpos]
  rfl

/-- A step or a frame that fails leaves a stuck state behind. -/
theorem stuck_of_fault {call : HostCall} (hk : m.frameLength = .ok k)
    (hcall : call = .step ∨ call = .frame) (hfault : (m.perform call).result = .error (.fault f)) :
    (m.perform call).machine.state.Stuck f := by
  rcases hcall with rfl | rfl
  · have hresult : m.step.result = .error (.fault f) := Outcome.map_eq_error_iff.1 hfault
    exact (State.settled_step m.state).stuck hresult
  · have hresult : m.frame.result = .error (.fault f) := Outcome.map_eq_error_iff.1 hfault
    have hmachine : m.frame.machine = { m with state := (m.state.run k).state } := by
      rw [frame_machine hk, hresult]
      rfl
    rw [frame_result hk] at hresult
    show m.frame.machine.state.Stuck f
    rw [hmachine]
    exact (State.settled_run m.state k).stuck hresult

/-- What the host can still change of a stuck machine are the keys and the timers. -/
theorem Later.withInputs (hk : m.frameLength = .ok k) (hpos : 1 ≤ k) (hs : m.state.Stuck f)
    (h : m.Later t) :
    ∃ keypad delay sound, t = { m with state := m.state.withInputs keypad delay sound } := by
  induction h with
  | refl => exact ⟨m.state.keypad, m.state.delay, m.state.sound, rfl⟩
  | perform call _ hspares ih =>
    obtain ⟨keypad, delay, sound, rfl⟩ := ih
    -- the invariant: the machine is still stuck, so neither a step nor a frame moves it
    let t : Machine := { m with state := m.state.withInputs keypad delay sound }
    have hstuck : t.state.Stuck f := hs.withInputs keypad delay sound
    have hkt : t.frameLength = .ok k := hk
    cases call with
    | load program =>
      obtain ⟨size, capacity, hrefused⟩ := hspares
      exact ⟨keypad, delay, sound, load_machine_of_error hrefused⟩
    | step => exact ⟨keypad, delay, sound, (step_of_stuck hstuck).2⟩
    | frame => exact ⟨keypad, delay, sound, (frame_of_stuck hkt hpos hstuck).2⟩
    | tick => exact ⟨keypad, _, _, rfl⟩
    | reset => exact hspares.elim
    | press key | release key =>
      simp only [Machine.perform, press, release, setKey, Outcome.map_machine]
      split
      · exact ⟨_, delay, sound, rfl⟩
      · exact ⟨keypad, delay, sound, rfl⟩

/-- Once a step or a frame has failed with a fault, then after any calls that spare the program each step
and each frame fails with that same fault and leaves the machine as it is, its timers included, and
nothing but the timers and the keys differs from what the first failure left behind. -/
theorem fault_persists (hk : m.frameLength = .ok k) (hpos : 1 ≤ k) {call : HostCall}
    (hcall : call = .step ∨ call = .frame) (hfault : (m.perform call).result = .error (.fault f))
    (ht : (m.perform call).machine.Later t) :
    (t.perform .step).result = .error (.fault f) ∧ (t.perform .step).machine = t ∧
    (t.perform .frame).result = .error (.fault f) ∧ (t.perform .frame).machine = t ∧
    t = { (m.perform call).machine with
      state := { (m.perform call).machine.state with
        delay := t.state.delay, sound := t.state.sound, keypad := t.state.keypad } } := by
  have hs := stuck_of_fault hk hcall hfault
  have hk' : (m.perform call).machine.frameLength = .ok k := by
    rw [← hk, frameLength, (m.perform_fixed call).1, frameLength]
  obtain ⟨keypad, delay, sound, heq⟩ := ht.withInputs hk' hpos hs
  have hstuck : t.state.Stuck f := by
    rw [heq]
    exact hs.withInputs keypad delay sound
  have hkt : t.frameLength = .ok k := by
    rw [heq]
    exact hk'
  obtain ⟨hstep, hstep'⟩ := step_of_stuck hstuck
  obtain ⟨hframe, hframe'⟩ := frame_of_stuck hkt hpos hstuck
  refine ⟨Outcome.map_eq_error_iff.2 hstep, hstep', Outcome.map_eq_error_iff.2 hframe, hframe', ?_⟩
  rw [heq]
  rfl

theorem load_result_of_lt {program : List UInt8} (h : programCapacity < program.length) :
    (m.load program).result = .error (.fault (.tooLarge program.length programCapacity)) := by
  simp only [load, State.load_of_large h]

theorem failingStore_fault :
    (failingStore.perform .frame).result = .error (.fault (.outOfBounds 0x202 0xFFF)) := by
  have hstate : (failingStore.state.run 11).state.status = Status.outOfBounds.code ∧
      (failingStore.state.run 11).state.pc = 0x202 ∧ (failingStore.state.run 11).state.i = 0xFFF := by
    decide +kernel
  obtain ⟨hstatus, hpc, hi⟩ := hstate
  have hresult : failingStore.frame.result = (failingStore.state.run 11).state.verdict :=
    frame_result rfl
  refine Outcome.map_eq_error_iff.2 ?_
  rw [hresult, State.verdict_of_outOfBounds hstatus, hpc, hi]
  rfl

/-- The machine of `failingStore` after the frame that fails, a key, a tick and a program too large. -/
def failedStore : Machine :=
  ((((failingStore.perform .frame).machine.perform (.press 3)).machine.perform .tick).machine.perform
    (.load (.replicate 4000 0))).machine

theorem later_failedStore : (failingStore.perform .frame).machine.Later failedStore := by
  have hlarge : programCapacity < (List.replicate 4000 (0 : UInt8)).length := by
    rw [List.length_replicate]
    decide
  exact .perform (.load _) (.perform .tick (.perform (.press 3) .refl trivial) trivial)
    ⟨_, _, load_result_of_lt hlarge⟩

theorem failedStore_persists :
    failingStore.frameLength = .ok 11 ∧ (1 : Int) ≤ 11 ∧
    (HostCall.frame = .step ∨ HostCall.frame = .frame) ∧
    (failingStore.perform .frame).result = .error (.fault (.outOfBounds 0x202 0xFFF)) ∧
    (failingStore.perform .frame).machine.Later failedStore ∧
    (failedStore.perform .step).result = .error (.fault (.outOfBounds 0x202 0xFFF)) ∧
    (failedStore.perform .step).machine = failedStore ∧
    (failedStore.perform .frame).result = .error (.fault (.outOfBounds 0x202 0xFFF)) ∧
    (failedStore.perform .frame).machine = failedStore ∧
    failedStore = { (failingStore.perform .frame).machine with
      state := { (failingStore.perform .frame).machine.state with
        delay := failedStore.state.delay, sound := failedStore.state.sound,
        keypad := failedStore.state.keypad } } := by
  have hk : failingStore.frameLength = .ok 11 := rfl
  have hpos : (1 : Int) ≤ 11 := by decide
  have hcall : HostCall.frame = .step ∨ HostCall.frame = .frame := .inr rfl
  exact ⟨hk, hpos, hcall, failingStore_fault, later_failedStore,
    fault_persists hk hpos hcall failingStore_fault later_failedStore⟩

end Machine

end ChipEight
