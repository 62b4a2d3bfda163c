/-
The states that a host can bring about, and what holds in all of them: `WF` bounds the program counter,
the addresses on the call stack and the end of the program, keeps the free slots of the stack at zero
and the recorded outcome among the eight. The parts lean on one another: a return is in bounds since
what a call saves is, and a call saves what a fetch from inside the program leaves.
-/
import ChipEight.Proofs.CallStack
import ChipEight.Proofs.Run

namespace ChipEight

open Layout

/-! ## Operations -/

/-- What a host can do with a state. -/
inductive Operation
  | load (program : List UInt8)
  | step
  | run (n : Int)
  | tick
  | reset
  /-- Holds down exactly the given keys. -/
  | keys (keypad : Vector Bool keyCount)

namespace State

/-- The state behind an operation. A program that does not fit changes nothing. -/
def perform [RandomSource] (s : State) : Operation → State
  | .load program => match s.load program with
    | .ok loaded => loaded
    | .error _ => s
  | .step => s.step
  | .run n => (s.run n).state
  | .tick => s.tick
  | .reset => s.reset
  | .keys keypad => { s with keypad }

/-- Every state reached by operations from the initial one, for any key and dialect. -/
inductive Reachable [RandomSource] : State → Prop
  | initial (key : Threefry.Key) (dialect : Dialect) : Reachable (.initial key dialect)
  | perform {s : State} (op : Operation) : Reachable s → Reachable (s.perform op)

/-! ## The invariant -/

/-- An address that a call may save. -/
def ReturnAddress (a : UInt16) : Prop := 0x202 ≤ a.toNat ∧ a.toNat ≤ 0x1000

/-- The invariant of reachable states. -/
structure WF (s : State) : Prop where
  stack : s.stack.Tidy ReturnAddress
  pc_le : s.pc.toNat ≤ 0x10FE
  le_programEnd : 0x200 ≤ s.programEnd.toNat
  programEnd_le : s.programEnd.toNat ≤ 0x1000
  status : ∃ st : Status, s.status = st.code

theorem initial_wf (key : Threefry.Key) (dialect : Dialect) : (initial key dialect).WF := by
  have hstart : (UInt16.ofNat programStart).toNat = 0x200 := rfl
  refine ⟨CallStack.tidy_empty, ?_, ?_, ?_, .ok, rfl⟩ <;> simp only [initial, hstart] <;> decide

theorem WF.congr {s t : State} (h : s.WF) (hstack : t.stack = s.stack) (hpc : t.pc = s.pc)
    (hend : t.programEnd = s.programEnd) (hstatus : ∃ st : Status, t.status = st.code) : t.WF := by
  refine ⟨?_, ?_, ?_, ?_, hstatus⟩
  · rw [hstack]; exact h.stack
  · rw [hpc]; exact h.pc_le
  · rw [hend]; exact h.le_programEnd
  · rw [hend]; exact h.programEnd_le

/-! ## One instruction -/

theorem stackAfter_tidy {s : State} (hs : s.stack.Tidy ReturnAddress) (hpc : ReturnAddress s.pc)
    (i : Instruction) : (s.stackAfter i).Tidy ReturnAddress := by
  cases i with
  | ret =>
    unfold stackAfter
    cases hp : s.stack.pop? with
    | none => exact hs
    | some popped => exact (hs.pop? hp).2
  | call =>
    unfold stackAfter
    cases hp : s.stack.push? s.pc with
    | none => exact hs
    | some stack => exact hs.push? hpc hp
  | _ => exact hs

theorem toNat_ofNat_target (target : Target) : (UInt16.ofNat target).toNat = target.val := by
  rw [UInt16.toNat_ofNat']
  omega

theorem toNat_add_two {pc : UInt16} (h : pc.toNat ≤ 0x10FE) : (pc + 2).toNat = pc.toNat + 2 := by
  rw [UInt16.toNat_add]
  show (pc.toNat + 2) % 65536 = _
  omega

theorem toNat_jumpBy (s : State) (target : Target) :
    (s.jumpBy target).pc.toNat = target + s.v[s.jumpRegister target].toNat := by
  have hv := s.v[s.jumpRegister target].toNat_lt
  simp only [jumpBy, UInt16.toNat_ofNat']
  omega

theorem pcAfter_le {s : State} (hs : s.stack.Tidy ReturnAddress) (hpc : ReturnAddress s.pc)
    (i : Instruction) : (s.pcAfter i).toNat ≤ 0x10FE := by
  have hle := hpc.2
  have hskip : (s.pc + 2).toNat ≤ 0x10FE := by
    rw [toNat_add_two (by omega)]
    omega
  cases i with
  | ret =>
    unfold pcAfter
    cases hp : s.stack.pop? with
    | none => exact Nat.le_trans hle (by decide)
    | some popped => exact Nat.le_trans (hs.pop? hp).1.2 (by decide)
  | jump target =>
    show (UInt16.ofNat target).toNat ≤ _
    rw [toNat_ofNat_target]
    omega
  | call target =>
    simp only [pcAfter]
    split
    · omega
    · rw [toNat_ofNat_target]
      omega
  | skip | unknown =>
    simp only [pcAfter]
    split
    · exact hskip
    · omega
  | jumpBy target =>
    have hv := s.v[s.jumpRegister target].toNat_lt
    show (s.jumpBy target).pc.toNat ≤ _
    rw [toNat_jumpBy]
    omega
  | awaitKey =>
    simp only [pcAfter]
    split
    -- going back does not pass zero
    · rw [UInt16.toNat_sub_of_le _ _ (UInt16.le_iff_toNat_le.2 (Nat.le_trans (by decide) hpc.1))]
      omega
    · omega
  | _ => exact Nat.le_trans hle (by decide)

/-! ## Operations keep the invariant -/

theorem step_wf [RandomSource] {s : State} (h : s.WF) : s.step.WF := by
  rcases s.step_cases with ⟨-, hr, hstep⟩ | ⟨-, hstep⟩
  · obtain ⟨hmem, hlo, -⟩ := readiness_eq_ok_iff.1 hr
    simp only [memorySize, programStart] at hmem hlo
    -- what the step saves or goes on from lies behind a word of the program
    have hpc : ReturnAddress s.fetched.pc := by
      show 0x202 ≤ (s.pc + 2).toNat ∧ (s.pc + 2).toNat ≤ 0x1000
      rw [toNat_add_two h.pc_le]
      omega
    have hend : s.step.programEnd = s.programEnd := by
      rw [hstep]
      exact (execute_frame _ _).2.1
    refine ⟨?_, ?_, ?_, ?_, s.outcome, s.step_status⟩
    · rw [hstep, execute_stack]
      exact stackAfter_tidy (s := s.fetched) h.stack hpc _
    · rw [hstep, execute_pc]
      exact pcAfter_le (s := s.fetched) h.stack hpc _
    · rw [hend]
      exact h.le_programEnd
    · rw [hend]
      exact h.programEnd_le
  · rw [hstep]
    exact h.congr rfl rfl rfl ⟨s.outcome, rfl⟩

theorem run_wf [RandomSource] {s : State} (h : s.WF) (n : Int) : (s.run n).state.WF :=
  run_invariant (h.congr rfl rfl rfl ⟨.ok, rfl⟩) (fun _ => step_wf) n

/-- What fits in memory ends at an address of sixteen bits. -/
theorem toNat_loadEnd {program : List UInt8} (hfits : program.length ≤ programCapacity) :
    (UInt16.ofNat (programStart + program.length)).toNat = 0x200 + program.length := by
  simp only [programCapacity, memorySize, programStart] at hfits ⊢
  rw [UInt16.toNat_ofNat']
  omega

theorem load_wf {s t : State} (h : s.WF) {program : List UInt8} (hl : s.load program = .ok t) : t.WF := by
  rcases s.load_cases program with ⟨-, hload⟩ | ⟨hfits, hload⟩
  · rw [hload] at hl
    cases hl
  · rw [hload] at hl
    cases hl
    have hend : (s.loaded program).programEnd.toNat = 0x200 + program.length := toNat_loadEnd hfits
    simp only [programCapacity, memorySize, programStart] at hfits
    refine ⟨h.stack, h.pc_le, ?_, ?_, h.status⟩
    · rw [hend]
      omega
    · rw [hend]
      omega

theorem perform_wf [RandomSource] {s : State} (h : s.WF) (op : Operation) : (s.perform op).WF := by
  cases op with
  | load program =>
    simp only [perform]
    cases hl : s.load program with
    | ok loaded => exact load_wf h hl
    | error => exact h
  | step => exact step_wf h
  | run n => exact run_wf h n
  | tick | keys => exact h.congr rfl rfl rfl h.status
  | reset => exact (initial_wf s.key s.dialect).congr rfl rfl rfl ⟨.ok, rfl⟩

theorem Reachable.wf [RandomSource] {s : State} (h : s.Reachable) : s.WF := by
  induction h with
  | initial key dialect => exact initial_wf key dialect
  | perform op _ ih => exact perform_wf ih op

/-! ## Reachable states -/

/-- The program counter moves as in the whole numbers, without a wrap at sixteen bits: when a word is
fetched, passed over, jumped from by a register, or gone back to. -/
structure PcExact (s : State) : Prop where
  fetch : s.fetch.2.pc.toNat = s.pc.toNat + 2
  skip : ∀ condition, (s.fetch.2.skipWhen condition).pc.toNat = s.pc.toNat + if condition then 4 else 2
  jumpBy : ∀ target, (s.fetch.2.jumpBy target).pc.toNat = target + s.v[s.jumpRegister target].toNat
  rewind : ∀ x, s.lowestKey? = none → (s.fetch.2.awaitKey x).pc.toNat + 2 = s.fetch.2.pc.toNat

theorem WF.pcExact {s : State} (h : s.WF) : s.PcExact := by
  have hpc := h.pc_le
  have hfetch : s.fetch.2.pc.toNat = s.pc.toNat + 2 := toNat_add_two hpc
  refine ⟨hfetch, fun condition => ?_, fun target => toNat_jumpBy _ target, fun x hk => ?_⟩
  · cases condition with
    | false => exact hfetch
    | true =>
      show (s.pc + 2 + 2).toNat = s.pc.toNat + 4
      rw [UInt16.toNat_add, toNat_add_two hpc]
      show (s.pc.toNat + 2 + 2) % 65536 = _
      omega
  · rcases s.fetch.2.awaitKey_cases x with ⟨-, he⟩ | ⟨k, hk', -⟩
    · rw [he]
      show (s.pc + 2 - 2).toNat + 2 = (s.pc + 2).toNat
      rw [UInt16.add_sub_cancel, toNat_add_two hpc]
    · rw [show s.fetch.2.lowestKey? = s.lowestKey? from rfl, hk] at hk'
      cases hk'

/-- In every reachable state the stack holds addresses behind words of the program and zeros, the
program counter stays below 0x10FF and so never wraps, the end of the program lies in memory, and the
recorded outcome is one of the eight. -/
theorem reachable_inRange [RandomSource] {s : State} (h : s.Reachable) :
    s.stack.depth ≤ 16 ∧
    (∀ k (hk : k < stackSize), k < s.stack.depth →
      0x202 ≤ s.stack.slots[k].toNat ∧ s.stack.slots[k].toNat ≤ 0x1000) ∧
    (∀ k (hk : k < stackSize), s.stack.depth ≤ k → s.stack.slots[k] = 0) ∧
    (s.pc.toNat ≤ 0x10FE ∧ s.PcExact) ∧
    (0x200 ≤ s.programEnd.toNat ∧ s.programEnd.toNat ≤ 0x1000) ∧
    ∃ st : Status, s.status = st.code := by
  have hw := h.wf
  exact ⟨s.stack.depth_le, hw.stack.live, hw.stack.free, ⟨hw.pc_le, hw.pcExact⟩,
    ⟨hw.le_programEnd, hw.programEnd_le⟩, hw.status⟩

/-- The program of the one word 2200, which calls itself, after its first step. -/
def callingItself : State :=
  ((initial ⟨0, 0⟩ {}).perform (.load [0x22, 0x00])).perform .step

theorem callingItself_inRange :
    callingItself.Reachable ∧ callingItself.stack.depth = 1 ∧
    callingItself.stack.depth ≤ 16 ∧
    (∀ k (hk : k < stackSize), k < callingItself.stack.depth →
      0x202 ≤ callingItself.stack.slots[k].toNat ∧ callingItself.stack.slots[k].toNat ≤ 0x1000) ∧
    (∀ k (hk : k < stackSize), callingItself.stack.depth ≤ k → callingItself.stack.slots[k] = 0) ∧
    (callingItself.pc.toNat ≤ 0x10FE ∧ callingItself.PcExact) ∧
    (0x200 ≤ callingItself.programEnd.toNat ∧ callingItself.programEnd.toNat ≤ 0x1000) ∧
    ∃ st : Status, callingItself.status = st.code := by
  have h : callingItself.Reachable := .perform .step (.perform (.load _) (.initial _ _))
  exact ⟨h, by decide +kernel, reachable_inRange h⟩

end State

end ChipEight
