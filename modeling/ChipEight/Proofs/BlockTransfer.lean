/-
The transfers of a block of registers to memory and back. A block of V0 to Vx at I that lies in memory is copied
byte for byte, and what is outside the block keeps its value (`read_storeBlock`, `getElem_loadBlock`), also where
sixteen bytes at I would reach behind the end of memory. So what has been stored is what a load from the same place
brings back.
-/
import ChipEight.Proofs.Effect
import ChipEight.Proofs.Encoding

namespace ChipEight

open Layout

namespace State

variable {s : State} {x r : Nibble} {a : Nat}

/-! ## Bytes and registers behind a transfer -/

/-- The bytes of the block come from the registers. -/
theorem read_storeBlock (hr : r ≤ x) (h : s.i.toNat + r < memorySize) :
    (s.storeBlock x).memory.read (s.i.toNat + r) = s.v[r] := by
  have hlt : r.val < (s.v.toList.take (x + 1)).length := by
    rw [List.length_take, Vector.length_toList]
    exact Nat.lt_min.2 ⟨Nat.lt_succ_of_le hr, r.isLt⟩
  refine (Memory.read_writeBlock_inside _ _ hlt h).trans ?_
  simp only [List.getElem_take, Vector.getElem_toList]
  rfl

theorem read_storeBlock_outside (ha : a < memorySize) (h : a < s.i.toNat ∨ s.i.toNat + x < a) :
    (s.storeBlock x).memory.read a = s.memory.read a := by
  have hlen : (s.v.toList.take (x + 1)).length ≤ x + 1 := List.length_take_le _ _
  exact Memory.read_writeBlock_outside _ _ ha (by omega)

/-- The registers of the block come from the bytes. -/
theorem getElem_loadBlock (s : State) (x r : Nibble) :
    (s.loadBlock x).v[r] = if r ≤ x then s.memory.read (s.i.toNat + r) else s.v[r] := by
  show (Vector.ofFn _)[r] = _
  simp

/-! ## Index and outcome -/

theorem toNat_advanceIndex (h : s.i.toNat + x < memorySize) :
    (s.advanceIndex x).i.toNat = if s.dialect.advancesIndex then s.i.toNat + x + 1 else s.i.toNat := by
  unfold advanceIndex
  cases s.dialect.advancesIndex with
  | false => rfl
  | true =>
    have hx : (UInt16.ofNat x).toNat = x := by
      rw [UInt16.toNat_ofNat']
      omega
    simp only [if_true, UInt16.toNat_add, hx]
    show ((s.i.toNat + x) % 65536 + 1) % 65536 = _
    simp only [memorySize] at h
    omega

/-- A block inside memory is stored without an error. -/
theorem storeBlock_eq (h : s.i.toNat + x < memorySize) :
    s.storeBlock x = { s with memory := (s.storeBlock x).memory, i := (s.advanceIndex x).i } := by
  have hin : decide (memorySize ≤ s.i.toNat + x) = false := decide_eq_false (Nat.not_le.2 h)
  unfold storeBlock
  rw [hin]
  rfl

theorem loadBlock_eq (h : s.i.toNat + x < memorySize) :
    s.loadBlock x = { s with v := (s.loadBlock x).v, i := (s.advanceIndex x).i } := by
  have hin : decide (memorySize ≤ s.i.toNat + x) = false := decide_eq_false (Nat.not_le.2 h)
  -- left to rfl, the register files of both sides would be compared unfolded
  simp only [loadBlock, advanceIndex, report, hin, Bool.false_eq_true, if_false]

/-! ## Words -/

theorem ofWord_transfer (x : Nibble) :
    Instruction.ofWord (0xF055 + 256 * x.val : Nat) = .store x ∧
    Instruction.ofWord (0xF065 + 256 * x.val : Nat) = .load x := by
  constructor
  · refine Instruction.ofWord_of_hasWord ⟨by omega, by omega, Fin.ext ?_⟩
    rw [val_xOf]
    omega
  · refine Instruction.ofWord_of_hasWord ⟨by omega, by omega, Fin.ext ?_⟩
    rw [val_xOf]
    omega

theorem executeWord_store (s : State) (x : Nibble) :
    s.executeWord (0xF055 + 256 * x.val : Nat) = s.storeBlock x := congrArg s.execute (ofWord_transfer x).1

theorem executeWord_load (s : State) (x : Nibble) :
    s.executeWord (0xF065 + 256 * x.val : Nat) = s.loadBlock x := congrArg s.execute (ofWord_transfer x).2

/-- With room for V0 to Vx at I, Fx55 copies these registers to memory and Fx65 copies memory to them. Both put I
behind the block or leave it, as the dialect has it, and change nothing else. After a store, a load from the same
place restores V0 to Vx, whatever has become of the registers, and leaves those above x as they have become. -/
theorem executeWord_transfer (s : State) (x : Nibble) (h : s.i.toNat + x ≤ 0xFFF) :
    let stored := s.executeWord (0xF055 + 256 * x.val : Nat)
    let loaded := s.executeWord (0xF065 + 256 * x.val : Nat)
    let behind := if s.dialect.advancesIndex then s.i.toNat + x + 1 else s.i.toNat
    (∀ r : Nibble, r ≤ x → stored.memory.read (s.i.toNat + r) = s.v[r]) ∧
    (∀ a < 4096, a < s.i.toNat ∨ s.i.toNat + x < a → stored.memory.read a = s.memory.read a) ∧
    stored.i.toNat = behind ∧
    stored = { s with memory := stored.memory, i := stored.i } ∧
    (∀ r : Nibble, loaded.v[r] = if r ≤ x then s.memory.read (s.i.toNat + r) else s.v[r]) ∧
    loaded.i.toNat = behind ∧
    loaded = { s with v := loaded.v, i := loaded.i } ∧
    ∀ (v : Vector UInt8 16) (r : Nibble),
      ({ stored with i := s.i, v }.executeWord (0xF065 + 256 * x.val : Nat)).v[r] =
        if r ≤ x then s.v[r] else v[r] := by
  simp only [executeWord_store, executeWord_load]
  have hin : s.i.toNat + x < memorySize := Nat.lt_succ_of_le h
  have hblock : ∀ r : Nibble, r ≤ x → (s.storeBlock x).memory.read (s.i.toNat + r) = s.v[r] := by
    intro r hr
    exact read_storeBlock hr (Nat.lt_of_le_of_lt (Nat.add_le_add_left hr _) hin)
  have hindex := toNat_advanceIndex hin
  refine ⟨hblock, ?_, ?_, storeBlock_eq hin, s.getElem_loadBlock x, ?_, loadBlock_eq hin, ?_⟩
  · intro a ha hout
    exact read_storeBlock_outside ha hout
  · rw [storeBlock_eq hin]
    exact hindex
  · rw [loadBlock_eq hin]
    exact hindex
  · intro v r
    rw [getElem_loadBlock]
    by_cases hr : r ≤ x
    · rw [if_pos hr, if_pos hr]
      exact hblock r hr
    · rw [if_neg hr, if_neg hr]

/-- I three bytes before the end of memory, where sixteen do not fit, and different values in the registers. -/
def atMemoryEnd : State :=
  { initial ⟨0, 0⟩ { advancesIndex := true } with
    i := 0xFFD, v := .ofFn fun r => .ofNat (r.val + 1) }

theorem atMemoryEnd_transfer :
    atMemoryEnd.i.toNat + (2 : Nibble).val ≤ 0xFFF ∧ 0xFFF < atMemoryEnd.i.toNat + (0xF : Nibble).val ∧
    (∀ r : Nibble, r ≤ 2 → (atMemoryEnd.executeWord 0xF255).memory.read (0xFFD + r) = atMemoryEnd.v[r]) ∧
    (atMemoryEnd.executeWord 0xF255).i.toNat = 0x1000 ∧
    ∀ (v : Vector UInt8 16) (r : Nibble),
      ({ atMemoryEnd.executeWord 0xF255 with i := 0xFFD, v }.executeWord 0xF265).v[r] =
        if r ≤ 2 then atMemoryEnd.v[r] else v[r] := by
  have h : atMemoryEnd.i.toNat + (2 : Nibble).val ≤ 0xFFF := by decide
  obtain ⟨hstored, -, hindex, -, -, -, -, hback⟩ := executeWord_transfer atMemoryEnd 2 h
  exact ⟨h, by decide, hstored, hindex, hback⟩

end State

end ChipEight
