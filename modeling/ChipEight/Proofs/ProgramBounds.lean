/-
Where the executed bytes come from. No instruction, tick or key moves the end of the program, and a step
fetches a word whose first byte belongs to the program. The guard does not look at the second byte: of a
program with an odd number of bytes the last one may be executed together with the byte behind it
(`loneByte_dispatches`), and that byte is the only one from outside the program (`fetches_in_program`).
-/
import ChipEight.Proofs.History

namespace ChipEight

open Layout

namespace State

variable {s : State}

/-! ## The end of the program -/

theorem step_programEnd (s : State) : s.step.programEnd = s.programEnd := by
  rcases s.step_cases with ⟨-, -, hstep⟩ | ⟨-, hstep⟩
  · rw [hstep]
    exact (execute_frame _ _).2.1
  · rw [hstep]

theorem perform_programEnd {op : Operation} (hop : op.Plays) : (s.perform op).programEnd = s.programEnd := by
  cases op with
  | step => exact s.step_programEnd
  | tick | keys => rfl
  | load | run | reset => exact hop.elim

theorem performAll_programEnd {ops : List Operation} (hops : ∀ op ∈ ops, op.Plays) :
    (s.performAll ops).programEnd = s.programEnd := by
  induction ops generalizing s with
  | nil => rfl
  | cons op ops ih =>
    have hrest : ∀ o ∈ ops, o.Plays := by
      intro o ho
      exact hops o (List.mem_cons_of_mem op ho)
    rw [performAll_cons, ih hrest, perform_programEnd (hops op List.mem_cons_self)]

theorem load_of_fits (s : State) {program : List UInt8} (hfits : program.length ≤ programCapacity) :
    ∃ t, s.load program = .ok t ∧ t.programEnd.toNat = 0x200 + program.length :=
  ⟨s.loaded program, load_of_small hfits, toNat_loadEnd hfits⟩

/-! ## Steps inside and outside the program -/

theorem dispatched?_eq_none_iff_outside :
    s.dispatched? = none ↔
      s.pc.toNat < 0x200 ∨ s.programEnd.toNat ≤ s.pc.toNat ∨ 4096 ≤ s.pc.toNat + 1 := by
  rw [dispatched?_eq_none_iff, Ne, readiness_eq_ok_iff]
  simp only [memorySize, programStart]
  omega

theorem step_of_not_dispatched (h : s.dispatched? = none) :
    s.step = { s with
      status := if 4096 ≤ s.pc.toNat + 1 then Status.outOfBounds.code else Status.exit.code } := by
  have hready := dispatched?_eq_none_iff.1 h
  have houtcome : s.outcome = if 4096 ≤ s.pc.toNat + 1 then .outOfBounds else .exit := by
    rw [outcome, if_neg hready]
    rw [readiness_eq] at hready ⊢
    split
    · rfl
    · split
      · rfl
      · rename_i hmemory hprogram
        rw [if_neg hmemory, if_neg hprogram] at hready
        exact absurd rfl hready
  rw [step_of_not_ready hready, houtcome]
  split <;> rfl

/-- What holds of the fetches from a program that ends before the address `finish`. -/
structure FetchesBelow (t : State) (finish : Nat) : Prop where
  programEnd_eq : t.programEnd.toNat = finish
  word_eq : ∀ w, t.dispatched? = some w →
    w = 256 * (t.memory.read t.pc.toNat).toNat + (t.memory.read (t.pc.toNat + 1)).toNat
  /-- The first byte is one of the program, and the second one too, or the one behind its last byte. -/
  inside : ∀ w, t.dispatched? = some w →
    0x200 ≤ t.pc.toNat ∧ t.pc.toNat < finish ∧ t.pc.toNat + 1 < 4096 ∧
      (t.pc.toNat + 1 < finish ∨ t.pc.toNat + 1 = finish)
  outside_iff : t.dispatched? = none ↔
    t.pc.toNat < 0x200 ∨ finish ≤ t.pc.toNat ∨ 4096 ≤ t.pc.toNat + 1
  step_eq : t.dispatched? = none → t.step = { t with
    status := if 4096 ≤ t.pc.toNat + 1 then Status.outOfBounds.code else Status.exit.code }

theorem fetchesBelow_programEnd (t : State) : t.FetchesBelow t.programEnd.toNat := by
  constructor
  · rfl
  · intro w hw
    exact (dispatched?_eq_some_iff.1 hw).2.symm
  · intro w hw
    obtain ⟨hmemory, hstart, hprogram⟩ := readiness_eq_ok_iff.1 (dispatched?_eq_some_iff.1 hw).1
    exact ⟨hstart, hprogram, hmemory, by omega⟩
  · exact dispatched?_eq_none_iff_outside
  · exact step_of_not_dispatched

/-- However a program of at most 3584 bytes is run by steps, ticks and keys, it ends where it was loaded to,
and a step executes a word whose first byte is one of the program and whose second byte is one too, or lies
directly behind the last of them. At any other address a step executes nothing: it ends OUT_OF_BOUNDS at the
end of memory and EXIT elsewhere. -/
theorem fetches_in_program (key : Threefry.Key) (dialect : Dialect) {program : List UInt8}
    (hfits : program.length ≤ 3584) :
    ∃ s, (initial key dialect).load program = .ok s ∧
      ∀ ops : List Operation, (∀ op ∈ ops, op.Plays) →
        (s.performAll ops).FetchesBelow (0x200 + program.length) := by
  obtain ⟨s, hload, hloaded⟩ := load_of_fits (initial key dialect) hfits
  refine ⟨s, hload, ?_⟩
  intro ops hops
  have hend : (s.performAll ops).programEnd.toNat = 0x200 + program.length := by
    rw [performAll_programEnd hops, hloaded]
  rw [← hend]
  exact fetchesBelow_programEnd _

/-- The program of the one byte 60. -/
def loneByte : State := (initial ⟨0, 0⟩ {}).perform (.load [0x60])

/-- The last byte of a program is executed together with the byte behind the program. -/
theorem loneByte_dispatches :
    (initial ⟨0, 0⟩ {}).load [0x60] = .ok loneByte ∧ loneByte.programEnd.toNat = 0x200 + 1 ∧
    loneByte.dispatched? = some 0x6000 ∧ loneByte.step.status = Status.ok.code ∧
    ¬ (0x200 ≤ loneByte.pc.toNat ∧ loneByte.pc.toNat + 1 < loneByte.programEnd.toNat) := by
  have hload : (initial ⟨0, 0⟩ {}).load [0x60] = .ok loneByte := rfl
  refine ⟨hload, ?_⟩
  decide +kernel

/-- What is executed of it before and after a tick keeps within these bounds. -/
theorem loneByte_fetches :
    ([0x60] : List UInt8).length ≤ 3584 ∧ (∀ op ∈ [Operation.step, .tick, .step], op.Plays) ∧
    ∃ s, (initial ⟨0, 0⟩ {}).load [0x60] = .ok s ∧
      (s.performAll [.step, .tick, .step]).FetchesBelow (0x200 + 1) := by
  have hfits : ([0x60] : List UInt8).length ≤ 3584 := by decide
  have hops : ∀ op ∈ [Operation.step, .tick, .step], op.Plays := by simp [Operation.Plays]
  obtain ⟨s, hload, hruns⟩ := fetches_in_program ⟨0, 0⟩ {} hfits
  exact ⟨hfits, hops, s, hload, hruns _ hops⟩

end State

end ChipEight
