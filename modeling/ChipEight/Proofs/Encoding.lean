/-
The instruction set as a table: `Instruction.HasWord` says, from the four digits of a word alone, which
instruction the word stands for. `ofWord_eq_iff` shows that decoding follows the table.
-/
import ChipEight.Instruction.Basic

namespace ChipEight

/-! ## Digits of a word -/

/-- The register of the second digit. The third names one too, or, with the last, a byte; the last
alone gives a number of rows, and the last three an address. -/
def xOf (w : Nat) : Nibble := ⟨w / 256 % 16, by omega⟩

def yOf (w : Nat) : Nibble := ⟨w / 16 % 16, by omega⟩

def rowsOf (w : Nat) : Nibble := ⟨w % 16, by omega⟩

def byteOf (w : Nat) : UInt8 := .ofNat (w % 256)

def targetOf (w : Nat) : Target := ⟨w % 4096, by omega⟩

@[simp] theorem val_xOf (w : Nat) : (xOf w).val = w / 256 % 16 := rfl

@[simp] theorem val_yOf (w : Nat) : (yOf w).val = w / 16 % 16 := rfl

@[simp] theorem val_rowsOf (w : Nat) : (rowsOf w).val = w % 16 := rfl

@[simp] theorem val_targetOf (w : Nat) : (targetOf w).val = w % 4096 := rfl

theorem highDigit_targetOf (w : Nat) : highDigit (targetOf w) = xOf w :=
  Fin.ext (show w % 4096 / 256 = w / 256 % 16 by omega)

/-- The digits of a word that is put together from them. -/
theorem digits_of_word (k : Nat) (x y n : Nibble) :
    let w := 4096 * k + 256 * x.val + 16 * y.val + n.val
    w / 4096 = k ∧ xOf w = x ∧ yOf w = y ∧ rowsOf w = n := by
  refine ⟨by omega, ?_, ?_, ?_⟩
  · exact Fin.ext (by rw [val_xOf]; omega)
  · exact Fin.ext (by rw [val_yOf]; omega)
  · exact Fin.ext (by rw [val_rowsOf]; omega)

theorem residue_natCast {m : Nat} (hm : 0 < m) (w : Nat) : residue m hm w = ⟨w % m, Nat.mod_lt w hm⟩ := by
  have h := Fields.val_residue hm w
  apply Fin.ext
  show (residue m hm w).val = w % m
  omega

theorem Fields.ofWord_natCast (w : Nat) :
    Fields.ofWord w =
      { opcode := ⟨w / 4096 % 16, by omega⟩, x := xOf w, y := yOf w, n := rowsOf w,
        nn := ⟨w % 256, by omega⟩, nnn := targetOf w } := by
  have h (k : Nat) : residue 16 (by decide) ((w : Int) / k) = ⟨w / k % 16, by omega⟩ :=
    residue_natCast (by decide) (w / k)
  simp only [ofWord, Fields.mk.injEq]
  exact ⟨h 4096, h 256, h 16, residue_natCast _ w, residue_natCast _ w, residue_natCast _ w⟩

/-! ## The table -/

/-- The word has no meaning in the instruction set. -/
def Unrecognised (w : Nat) : Prop :=
  ((w / 4096 = 0x5 ∨ w / 4096 = 0x9) ∧ w % 16 ≠ 0) ∨
  (w / 4096 = 0x8 ∧ w % 16 ∉ [0x0, 0x1, 0x2, 0x3, 0x4, 0x5, 0x6, 0x7, 0xE]) ∨
  (w / 4096 = 0xE ∧ w % 256 ∉ [0x9E, 0xA1]) ∨
  (w / 4096 = 0xF ∧ w % 256 ∉ [0x07, 0x0A, 0x15, 0x18, 0x1E, 0x29, 0x33, 0x55, 0x65])

def Condition.HasWord (w : Nat) : Condition → Prop
  | byteEqual x byte => w / 4096 = 0x3 ∧ x = xOf w ∧ byte = byteOf w
  | byteUnequal x byte => w / 4096 = 0x4 ∧ x = xOf w ∧ byte = byteOf w
  | equal x y => w / 4096 = 0x5 ∧ w % 16 = 0 ∧ x = xOf w ∧ y = yOf w
  | unequal x y => w / 4096 = 0x9 ∧ w % 16 = 0 ∧ x = xOf w ∧ y = yOf w
  | keyDown x => w / 4096 = 0xE ∧ w % 256 = 0x9E ∧ x = xOf w
  | keyUp x => w / 4096 = 0xE ∧ w % 256 = 0xA1 ∧ x = xOf w

/-- The word stands for the instruction. -/
def Instruction.HasWord (w : Nat) : Instruction → Prop
  | clear => w = 0x00E0
  | ret => w = 0x00EE
  | machineRoutine target => w / 4096 = 0x0 ∧ w ≠ 0x00E0 ∧ w ≠ 0x00EE ∧ target = targetOf w
  | jump target => w / 4096 = 0x1 ∧ target = targetOf w
  | call target => w / 4096 = 0x2 ∧ target = targetOf w
  | skip condition => condition.HasWord w
  | setByte x byte => w / 4096 = 0x6 ∧ x = xOf w ∧ byte = byteOf w
  | addByte x byte => w / 4096 = 0x7 ∧ x = xOf w ∧ byte = byteOf w
  | compute op x y => w / 4096 = 0x8 ∧ AluOp.ofDigit? (w % 16) = some op ∧ x = xOf w ∧ y = yOf w
  | setIndex target => w / 4096 = 0xA ∧ target = targetOf w
  | jumpBy target => w / 4096 = 0xB ∧ target = targetOf w
  | random x mask => w / 4096 = 0xC ∧ x = xOf w ∧ mask = byteOf w
  | draw x y rows => w / 4096 = 0xD ∧ x = xOf w ∧ y = yOf w ∧ rows = rowsOf w
  | readDelay x => w / 4096 = 0xF ∧ w % 256 = 0x07 ∧ x = xOf w
  | awaitKey x => w / 4096 = 0xF ∧ w % 256 = 0x0A ∧ x = xOf w
  | setDelay x => w / 4096 = 0xF ∧ w % 256 = 0x15 ∧ x = xOf w
  | setSound x => w / 4096 = 0xF ∧ w % 256 = 0x18 ∧ x = xOf w
  | addIndex x => w / 4096 = 0xF ∧ w % 256 = 0x1E ∧ x = xOf w
  | glyph x => w / 4096 = 0xF ∧ w % 256 = 0x29 ∧ x = xOf w
  | decimal x => w / 4096 = 0xF ∧ w % 256 = 0x33 ∧ x = xOf w
  | store x => w / 4096 = 0xF ∧ w % 256 = 0x55 ∧ x = xOf w
  | load x => w / 4096 = 0xF ∧ w % 256 = 0x65 ∧ x = xOf w
  | unknown condition => Unrecognised w ∧
      condition = if w / 4096 = 0x5 then some (.equal (xOf w) (yOf w))
        else if w / 4096 = 0x9 then some (.unequal (xOf w) (yOf w))
        else if w / 4096 = 0xE then some (.keyDown (xOf w)) else none

theorem AluOp.ofDigit?_eq_none_iff {d : Nat} :
    ofDigit? d = none ↔ d ∉ [0x0, 0x1, 0x2, 0x3, 0x4, 0x5, 0x6, 0x7, 0xE] := by
  unfold ofDigit?
  split <;> simp_all

namespace Instruction

theorem hasWord_ofMisc {w : Nat} (h : w / 4096 = 0xF) : (ofMisc (xOf w) (w % 256)).HasWord w := by
  unfold ofMisc
  split <;> simp_all [HasWord, Unrecognised]

theorem hasWord_ofWord {w : Nat} (hw : w < 65536) : (ofWord w).HasWord w := by
  have hop : w / 4096 % 16 = w / 4096 := Nat.mod_eq_of_lt (by omega)
  have hbyte : UInt8.ofNat (w % 256) = byteOf w := rfl
  simp only [ofWord, Fields.ofWord_natCast, hop, hbyte, val_rowsOf]
  -- the alternative `h_k` is the family of the opcode `k - 1`
  split
  case h_1 hk =>
    split
    · simpa only [HasWord] using (by omega)
    · split
      · simpa only [HasWord] using (by omega)
      · exact ⟨hk, by omega, by omega, rfl⟩
  case h_6 hk | h_10 hk =>
    split
    · rename_i hd
      exact ⟨hk, hd, rfl, rfl⟩
    · rename_i hd
      refine ⟨.inl ⟨?_, hd⟩, ?_⟩ <;> simp [hk]
  case h_9 hk =>
    split
    · rename_i op hd
      exact ⟨hk, hd, rfl, rfl⟩
    · rename_i hd
      exact ⟨.inr (.inl ⟨hk, AluOp.ofDigit?_eq_none_iff.1 hd⟩), by simp [hk]⟩
  case h_15 hk =>
    split
    · rename_i hb
      exact ⟨hk, hb, rfl⟩
    · split
      · rename_i hb
        exact ⟨hk, hb, rfl⟩
      · rename_i hdown hup
        have hb : w % 256 ≠ 0x9E ∧ w % 256 ≠ 0xA1 := ⟨hdown, hup⟩
        exact ⟨.inr (.inr (.inl ⟨hk, by simpa using hb⟩)), by simp [hk]⟩
  case h_16 =>
    -- what is left of the other families are refuted equations
    simp only [imp_false] at *
    exact hasWord_ofMisc (by omega)
  case h_14 hk => exact ⟨hk, rfl, rfl, rfl⟩
  case h_2 hk | h_3 hk | h_11 hk | h_12 hk => exact ⟨hk, rfl⟩
  all_goals
    rename_i hk
    exact ⟨hk, rfl, rfl⟩

theorem ofWord_of_unrecognised {w : Nat} {condition : Option Condition}
    (h : (unknown condition).HasWord w) : ofWord w = unknown condition := by
  obtain ⟨⟨hk | hk, hd⟩ | ⟨hk, hd⟩ | ⟨hk, hd⟩ | ⟨hk, hd⟩, rfl⟩ := h
  · simp only [ofWord, Fields.ofWord_natCast, hk, val_rowsOf, if_neg hd]
    rfl
  · simp only [ofWord, Fields.ofWord_natCast, hk, val_rowsOf, if_neg hd]
    rfl
  · rw [← AluOp.ofDigit?_eq_none_iff] at hd
    simp only [ofWord, Fields.ofWord_natCast, hk, val_rowsOf, hd]
    rfl
  · simp only [List.mem_cons, List.not_mem_nil, or_false, not_or] at hd
    simp only [ofWord, Fields.ofWord_natCast, hk, if_neg hd.1, if_neg hd.2]
    rfl
  · have hm : ofMisc (xOf w) (w % 256) = unknown none := by
      unfold ofMisc
      split <;> simp_all
    simp only [ofWord, Fields.ofWord_natCast, hk]
    exact hm

theorem ofWord_of_hasWord {w : Nat} {i : Instruction} (h : i.HasWord w) : ofWord w = i := by
  cases i with
  | clear | ret =>
    cases h
    rfl
  | machineRoutine target =>
    obtain ⟨hk, hc, hr, rfl⟩ := h
    have hc' : ¬ (w : Int) = 0x00E0 := by omega
    have hr' : ¬ (w : Int) = 0x00EE := by omega
    simp only [ofWord, Fields.ofWord_natCast, hk, if_neg hc', if_neg hr']
  | jump | call | setIndex | jumpBy =>
    obtain ⟨hk, rfl⟩ := h
    simp only [ofWord, Fields.ofWord_natCast, hk]
  | setByte | addByte | random =>
    obtain ⟨hk, rfl, rfl⟩ := h
    simp only [ofWord, Fields.ofWord_natCast, hk]
    rfl
  | draw x y rows =>
    obtain ⟨hk, rfl, rfl, rfl⟩ := h
    simp only [ofWord, Fields.ofWord_natCast, hk]
  | compute op x y =>
    obtain ⟨hk, hd, rfl, rfl⟩ := h
    simp only [ofWord, Fields.ofWord_natCast, hk, val_rowsOf, hd]
  | skip condition =>
    cases condition with
    | byteEqual | byteUnequal =>
      obtain ⟨hk, rfl, rfl⟩ := h
      simp only [ofWord, Fields.ofWord_natCast, hk]
      rfl
    | equal | unequal =>
      obtain ⟨hk, hd, rfl, rfl⟩ := h
      simp only [ofWord, Fields.ofWord_natCast, hk, val_rowsOf, if_pos hd]
    | keyDown | keyUp =>
      obtain ⟨hk, hb, rfl⟩ := h
      simp only [ofWord, Fields.ofWord_natCast, hk, hb]
      rfl
  | unknown => exact ofWord_of_unrecognised h
  -- the family F, whose members are told apart by the last byte
  | _ =>
    obtain ⟨hk, hb, rfl⟩ := h
    simp only [ofWord, Fields.ofWord_natCast, hk]
    show ofMisc (xOf w) (w % 256) = _
    rw [hb]
    rfl

theorem HasWord.unique {w : Nat} {i j : Instruction} (hi : i.HasWord w) (hj : j.HasWord w) : i = j := by
  rw [← ofWord_of_hasWord hi, ofWord_of_hasWord hj]

/-- Decoding follows the table. -/
theorem ofWord_eq_iff {w : Nat} (hw : w < 65536) {i : Instruction} : ofWord w = i ↔ i.HasWord w :=
  ⟨fun h => h ▸ hasWord_ofWord hw, ofWord_of_hasWord⟩

end Instruction

/-! ## The word of an instruction -/

theorem toNat_byteOf (w : Nat) : (byteOf w).toNat = w % 256 := by
  rw [byteOf, UInt8.toNat_ofNat']
  omega

theorem eq_byteOf_iff {w : Nat} {byte : UInt8} : byte = byteOf w ↔ byte.toNat = w % 256 := by
  rw [← UInt8.toNat_inj, toNat_byteOf]

def AluOp.digit : AluOp → Nat
  | set => 0x0
  | or => 0x1
  | and => 0x2
  | xor => 0x3
  | add => 0x4
  | sub => 0x5
  | shiftRight => 0x6
  | subFrom => 0x7
  | shiftLeft => 0xE

theorem AluOp.digit_of_ofDigit? {d : Nat} {op : AluOp} (h : ofDigit? d = some op) : op.digit = d := by
  unfold ofDigit? at h
  split at h <;> cases h <;> rfl

def Condition.encode : Condition → Nat
  | byteEqual x byte => 0x3000 + 256 * x.val + byte.toNat
  | byteUnequal x byte => 0x4000 + 256 * x.val + byte.toNat
  | equal x y => 0x5000 + 256 * x.val + 16 * y.val
  | unequal x y => 0x9000 + 256 * x.val + 16 * y.val
  | keyDown x => 0xE09E + 256 * x.val
  | keyUp x => 0xE0A1 + 256 * x.val

namespace Instruction

/-- The word of an instruction that the set knows. -/
def encode? : Instruction → Option Nat
  | clear => some 0x00E0
  | ret => some 0x00EE
  | machineRoutine target => some target.val
  | jump target => some (0x1000 + target.val)
  | call target => some (0x2000 + target.val)
  | skip condition => some condition.encode
  | setByte x byte => some (0x6000 + 256 * x.val + byte.toNat)
  | addByte x byte => some (0x7000 + 256 * x.val + byte.toNat)
  | compute op x y => some (0x8000 + 256 * x.val + 16 * y.val + op.digit)
  | setIndex target => some (0xA000 + target.val)
  | jumpBy target => some (0xB000 + target.val)
  | random x mask => some (0xC000 + 256 * x.val + mask.toNat)
  | draw x y rows => some (0xD000 + 256 * x.val + 16 * y.val + rows.val)
  | readDelay x => some (0xF007 + 256 * x.val)
  | awaitKey x => some (0xF00A + 256 * x.val)
  | setDelay x => some (0xF015 + 256 * x.val)
  | setSound x => some (0xF018 + 256 * x.val)
  | addIndex x => some (0xF01E + 256 * x.val)
  | glyph x => some (0xF029 + 256 * x.val)
  | decimal x => some (0xF033 + 256 * x.val)
  | store x => some (0xF055 + 256 * x.val)
  | load x => some (0xF065 + 256 * x.val)
  | unknown _ => none

/-- An instruction of the set stands for one word only. -/
theorem encode?_of_hasWord {w : Nat} {i : Instruction} (h : i.HasWord w) (hknown : i.isKnown = true) :
    i.encode? = some w := by
  cases i with
  | clear | ret =>
    cases h
    rfl
  | machineRoutine target =>
    obtain ⟨hk, -, -, rfl⟩ := h
    exact congrArg some (show w % 4096 = w by omega)
  | jump | call | setIndex | jumpBy =>
    obtain ⟨hk, rfl⟩ := h
    simp only [encode?, val_targetOf, Option.some.injEq]
    omega
  | setByte | addByte | random =>
    obtain ⟨hk, rfl, rfl⟩ := h
    simp only [encode?, val_xOf, toNat_byteOf, Option.some.injEq]
    omega
  | draw x y rows =>
    obtain ⟨hk, rfl, rfl, rfl⟩ := h
    simp only [encode?, val_xOf, val_yOf, val_rowsOf, Option.some.injEq]
    omega
  | compute op x y =>
    obtain ⟨hk, hd, rfl, rfl⟩ := h
    simp only [encode?, val_xOf, val_yOf, AluOp.digit_of_ofDigit? hd, Option.some.injEq]
    omega
  | skip condition =>
    cases condition with
    | byteEqual | byteUnequal =>
      obtain ⟨hk, rfl, rfl⟩ := h
      simp only [encode?, Condition.encode, val_xOf, toNat_byteOf, Option.some.injEq]
      omega
    | equal | unequal =>
      obtain ⟨hk, hd, rfl, rfl⟩ := h
      simp only [encode?, Condition.encode, val_xOf, val_yOf, Option.some.injEq]
      omega
    | keyDown | keyUp =>
      obtain ⟨hk, hb, rfl⟩ := h
      simp only [encode?, Condition.encode, val_xOf, Option.some.injEq]
      omega
  | unknown => cases hknown
  | _ =>
    obtain ⟨hk, hb, rfl⟩ := h
    simp only [encode?, val_xOf, Option.some.injEq]
    omega

end Instruction

end ChipEight
