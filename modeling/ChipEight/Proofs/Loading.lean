/-
Loading a program and fetching it back. A program that fits into memory behind the first program address is copied
there byte for byte, and nothing else changes but the end of the program; from there a fetch at any offset, odd ones
included, gives the two bytes of the program at that offset as one word (`load_fetch`). A program that does not
fit changes nothing.
-/
import ChipEight.Proofs.ProgramBounds
import ChipEight.Proofs.Stuck

namespace ChipEight

open Layout

namespace State

variable {s : State} {program : List UInt8} {i : Nat}

/-! ## Loading -/

theorem load_refused_iff :
    s.load program = .error (.tooLarge program.length programCapacity) ↔
      programCapacity < program.length := by
  rcases s.load_cases program with ⟨hlarge, hload⟩ | ⟨hsmall, hload⟩
  · simp [hlarge, hload]
  · simp [Nat.not_lt.2 hsmall, hload]

/-! ## Fetching -/

theorem word_loaded (hsmall : program.length ≤ programCapacity) (hi : i + 1 < program.length) :
    ((s.loaded program).memory.word (programStart + i)).toNat =
      256 * program[i].toNat + program[i + 1].toNat := by
  have hmemory : programStart + program.length ≤ memorySize := by
    simp only [programCapacity, memorySize, programStart] at hsmall ⊢
    omega
  have hhigh : (s.loaded program).memory.read (programStart + i) = program[i] :=
    s.memory.read_writeBlock_inside program (by omega) (by omega)
  have hlow : (s.loaded program).memory.read (programStart + i + 1) = program[i + 1] :=
    s.memory.read_writeBlock_inside program hi (show programStart + (i + 1) < memorySize by omega)
  rw [Memory.toNat_word, hhigh, hlow]

theorem fetch_loaded (hsmall : program.length ≤ programCapacity) (hi : i + 1 < program.length) :
    let t := { s.loaded program with pc := .ofNat (programStart + i) }
    t.fetch.1.toNat = 256 * program[i].toNat + program[i + 1].toNat ∧
    t.fetch.2 = { t with pc := .ofNat (programStart + i + 2) } := by
  intro t
  simp only [programCapacity, memorySize, programStart] at hsmall
  have hpc : t.pc.toNat = programStart + i := by
    show (UInt16.ofNat (programStart + i)).toNat = _
    rw [UInt16.toNat_ofNat']
    simp only [programStart]
    omega
  have hnext : t.pc + 2 = .ofNat (programStart + i + 2) := (UInt16.ofNat_add _ _).symm
  have hinside : t.pc.toNat + 1 < memorySize := by
    rw [hpc]
    simp only [programStart, memorySize]
    omega
  rw [fetch_of_inside hinside, hpc, hnext]
  exact ⟨word_loaded hsmall hi, rfl⟩

/-- A program is refused exactly if it has more than 3584 bytes, and then changes nothing on the machine. Any other
takes the place of the bytes from the first program address on, and ends behind its last byte: each two bytes of
it in a row are one word to a fetch at the first of them, which moves the program counter behind them and reports
nothing. All other bytes and all other parts of the state are as before. -/
theorem load_fetch (s : State) (program : List UInt8) :
    (s.load program = .error (.tooLarge program.length 3584) ↔ 3584 < program.length) ∧
    (∀ m : Machine, m.state = s → 3584 < program.length →
      (m.load program).result = .error (.fault (.tooLarge program.length 3584)) ∧
      (m.load program).machine = m) ∧
    (program.length ≤ 3584 →
      ∃ t, s.load program = .ok t ∧ t.programEnd.toNat = 0x200 + program.length ∧
        (∀ (i : Nat) (hi : i + 1 < program.length),
          let u := { t with pc := .ofNat (0x200 + i) }
          u.fetch.1.toNat = 256 * program[i].toNat + program[i + 1].toNat ∧
          u.fetch.2 = { u with pc := .ofNat (0x200 + i + 2) }) ∧
        (∀ a < 4096, a < 0x200 ∨ 0x200 + program.length ≤ a → t.memory.read a = s.memory.read a) ∧
        t = { s with memory := t.memory, programEnd := t.programEnd }) := by
  refine ⟨load_refused_iff, ?_, ?_⟩
  · rintro m - hlarge
    have hresult := Machine.load_result_of_lt (m := m) hlarge
    exact ⟨hresult, Machine.load_machine_of_error hresult⟩
  · intro hsmall
    refine ⟨s.loaded program, load_of_small hsmall, toNat_loadEnd hsmall, ?_, ?_, rfl⟩
    · intro i hi
      exact fetch_loaded hsmall hi
    · intro a ha hout
      exact Memory.read_writeBlock_outside s.memory program ha hout

/-- The longest program there is: at each offset the number of the offset, as a byte. -/
def countingUp : List UInt8 := (List.range 3584).map .ofNat

/-- It fills memory, and its last word ends in the last byte. -/
theorem load_fetch_countingUp :
    countingUp.length ≤ 3584 ∧
    ∃ t, (initial ⟨0, 0⟩ {}).load countingUp = .ok t ∧ t.programEnd.toNat = 0x1000 ∧
      ({ t with pc := 0xFFE }.fetch).1.toNat = 0xFEFF ∧
      ({ t with pc := 0xFFE }.fetch).2 = { t with pc := 0x1000 } ∧
      t.memory.read 0x1FF = 0 := by
  have hlength : countingUp.length = 3584 := by simp [countingUp]
  obtain ⟨-, -, hsmall⟩ := load_fetch (initial ⟨0, 0⟩ {}) countingUp
  obtain ⟨t, hload, hend, hfetch, hout, -⟩ := hsmall (Nat.le_of_eq hlength)
  have hlast : 3582 + 1 < countingUp.length := by omega
  obtain ⟨hword, hnext⟩ := hfetch 3582 hlast
  refine ⟨Nat.le_of_eq hlength, t, hload, hend.trans (by rw [hlength]), ?_, hnext, ?_⟩
  · refine hword.trans ?_
    simp [countingUp]
  · rw [hout 0x1FF (by decide) (.inl (by decide))]
    decide +kernel

end State

end ChipEight
