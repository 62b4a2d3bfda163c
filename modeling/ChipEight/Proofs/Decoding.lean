/-
The fields of a word against its bits. Decoding takes the fields as residues; these are the bits under the mask of each
field, moved down (`val_eq_bitsUnder`), and that holds for negative words too, whose two's complement goes on in ones
without end. The four digits are the lowest sixteen bits and the two longer fields are put together from them, so that
a word is known from its digits up to a multiple of 65536 (`ofWord_lossless`).
-/
import ChipEight.Proofs.Encoding
import ChipEight.Proofs.Step
import Mathlib.Data.Int.Bitwise

namespace ChipEight

open Layout

/-! ## Bits under a mask -/

/-- The bits of `w` under the mask, moved down by `place` bits. -/
def bitsUnder (mask w : Int) (place : Nat) : Int := Int.land w mask >>> place

theorem land_zero (w : Int) : Int.land w 0 = 0 := by
  cases w with
  | ofNat n => exact congrArg Int.ofNat (Nat.and_zero n)
  | negSucc n =>
    show Int.ofNat (Nat.ldiff 0 n) = 0
    simp [Nat.ldiff]

/-- The last bit of a mask meets the last bit of the word, and the other ones meet half of it, which a negative word
has too. -/
theorem land_bit (w m : Int) (b : Bool) :
    Int.land w (Int.bit b m) = Int.bit (w.bodd && b) (Int.land (w / 2) m) := by
  have h := Int.land_bit w.bodd w.div2 b m
  rwa [Int.bit_decomp, Int.div2_val] at h

theorem land_two_mul (w m : Int) : Int.land w (2 * m) = 2 * Int.land (w / 2) m := by
  have h := land_bit w m false
  simpa only [Int.bit_val, Bool.and_false, cond_false, Int.add_zero] using h

theorem land_two_mul_add_one (w m : Int) :
    Int.land w (2 * m + 1) = 2 * Int.land (w / 2) m + w % 2 := by
  have hlast : (bif w.bodd then 1 else 0) = w % 2 := by
    have h := Int.bodd_add_div2 w
    rw [Int.div2_val] at h
    omega
  have h := land_bit w m true
  simpa only [Int.bit_val, Bool.and_true, cond_true, hlast] using h

theorem emod_two_mul (w : Int) {p : Int} (hp : 0 < p) : w % (2 * p) = 2 * (w / 2 % p) + w % 2 := by
  have hsplit := Int.emod_add_mul_ediv (w / 2) p
  have hnonneg := Int.emod_nonneg (w / 2) (Int.ne_of_gt hp)
  have hlt := Int.emod_lt_of_pos (w / 2) hp
  have hparts : 2 * (w / 2 % p) + w % 2 + 2 * p * (w / 2 / p) = w := by
    rw [Int.mul_assoc]
    omega
  exact ((Int.ediv_emod_unique (by omega)).2 ⟨hparts, by omega, by omega⟩).2

/-- A mask of ones leaves the residue: its last one leaves the last bit, the others what they leave of the half. -/
theorem land_ones (w : Int) (width : Nat) : Int.land w (2 ^ width - 1) = w % 2 ^ width := by
  induction width generalizing w with
  | zero => rw [Int.pow_zero, Int.sub_self, land_zero, Int.emod_one]
  | succ width ih =>
    have hpow : (2 ^ (width + 1) : Int) = 2 * 2 ^ width := by rw [Int.pow_succ, Int.mul_comm]
    have hmask : (2 * 2 ^ width - 1 : Int) = 2 * (2 ^ width - 1) + 1 := by omega
    rw [hpow, hmask, land_two_mul_add_one, ih, emod_two_mul w (Int.pow_pos (by decide))]

theorem land_moved (w m : Int) (place : Nat) :
    Int.land w (2 ^ place * m) = 2 ^ place * Int.land (w / 2 ^ place) m := by
  induction place generalizing w with
  | zero => simp
  | succ place ih =>
    rw [Int.pow_succ, Int.mul_comm (2 ^ place) 2, Int.mul_assoc, land_two_mul, ih, Int.mul_assoc,
      Int.ediv_ediv_of_nonneg (by decide)]

/-- Under a mask of `width` ones from the bit `place` on lies a residue of the quotient. -/
theorem bitsUnder_eq (width place : Nat) {mask : Int} (hmask : mask = 2 ^ place * (2 ^ width - 1)) (w : Int) :
    bitsUnder mask w place = w / 2 ^ place % 2 ^ width := by
  have hpos : (2 ^ place : Int) ≠ 0 := Int.ne_of_gt (Int.pow_pos (by decide))
  rw [bitsUnder, hmask, land_moved, land_ones, Int.shiftRight_eq_div_pow, Int.natCast_pow]
  exact Int.mul_ediv_cancel_left _ hpos

theorem bitsUnder_zero (width : Nat) {mask : Int} (hmask : mask = 2 ^ width - 1) (w : Int) :
    bitsUnder mask w 0 = w % 2 ^ width := by
  rw [bitsUnder_eq width 0 (by rw [hmask, Int.pow_zero, Int.one_mul]), Int.pow_zero, Int.ediv_one]

namespace Fields

/-! ## Fields and bits -/

theorem val_eq (w : Int) :
    ((ofWord w).opcode.val : Int) = w / 4096 % 16 ∧ ((ofWord w).x.val : Int) = w / 256 % 16 ∧
    ((ofWord w).y.val : Int) = w / 16 % 16 ∧ ((ofWord w).n.val : Int) = w % 16 ∧
    ((ofWord w).nn.val : Int) = w % 256 ∧ ((ofWord w).nnn.val : Int) = w % 4096 := by
  refine ⟨?_, ?_, ?_, ?_, ?_, ?_⟩ <;> exact val_residue (by decide) _

/-- Each field is what the word has under the field's mask. -/
theorem val_eq_bitsUnder (w : Int) :
    ((ofWord w).opcode.val : Int) = bitsUnder 0xF000 w 12 ∧ ((ofWord w).x.val : Int) = bitsUnder 0x0F00 w 8 ∧
    ((ofWord w).y.val : Int) = bitsUnder 0x00F0 w 4 ∧ ((ofWord w).n.val : Int) = bitsUnder 0x000F w 0 ∧
    ((ofWord w).nn.val : Int) = bitsUnder 0x00FF w 0 ∧ ((ofWord w).nnn.val : Int) = bitsUnder 0x0FFF w 0 := by
  obtain ⟨hopcode, hx, hy, hn, hnn, hnnn⟩ := val_eq w
  exact ⟨hopcode.trans (bitsUnder_eq 4 12 rfl w).symm, hx.trans (bitsUnder_eq 4 8 rfl w).symm,
    hy.trans (bitsUnder_eq 4 4 rfl w).symm, hn.trans (bitsUnder_zero 4 rfl w).symm,
    hnn.trans (bitsUnder_zero 8 rfl w).symm, hnnn.trans (bitsUnder_zero 12 rfl w).symm⟩

/-! ## Fields and digits -/

/-- The two longer fields are put together from the digits. -/
theorem val_nn (w : Int) : (ofWord w).nn.val = 16 * (ofWord w).y.val + (ofWord w).n.val := by
  obtain ⟨-, -, hy, hn, hnn, -⟩ := val_eq w
  omega

theorem val_nnn (w : Int) : (ofWord w).nnn.val = 256 * (ofWord w).x.val + (ofWord w).nn.val := by
  obtain ⟨-, hx, -, -, hnn, hnnn⟩ := val_eq w
  omega

/-- So the digits are the lowest sixteen bits of the word. -/
theorem digits_eq_emod (w : Int) :
    ((4096 * (ofWord w).opcode.val + (ofWord w).nnn.val : Nat) : Int) = w % 65536 := by
  obtain ⟨hopcode, -, -, -, -, hnnn⟩ := val_eq w
  omega

theorem digits_eq_iff {v w : Int} :
    ((ofWord v).opcode = (ofWord w).opcode ∧ (ofWord v).x = (ofWord w).x ∧ (ofWord v).y = (ofWord w).y ∧
      (ofWord v).n = (ofWord w).n) ↔ v % 65536 = w % 65536 := by
  constructor
  · rintro ⟨hopcode, hx, hy, hn⟩
    rw [← digits_eq_emod v, ← digits_eq_emod w, val_nnn, val_nnn, val_nn, val_nn, hopcode, hx, hy, hn]
  · intro h
    rw [← ofWord_emod v, ← ofWord_emod w, h]
    exact ⟨rfl, rfl, rfl, rfl⟩

theorem digits_of_bytes {high low : Nat} (hhigh : high < 256) (hlow : low < 256) :
    (ofWord (256 * high + low : Nat)).opcode.val = high / 16 ∧
    (ofWord (256 * high + low : Nat)).x.val = high % 16 ∧
    (ofWord (256 * high + low : Nat)).y.val = low / 16 ∧
    (ofWord (256 * high + low : Nat)).n.val = low % 16 := by
  obtain ⟨hopcode, hx, hy, hn, -, -⟩ := val_eq (256 * high + low : Nat)
  omega

/-- A fetched word has the digits of its two bytes, the high one first. -/
theorem digits_fetch {s : State} (h : s.pc.toNat + 1 < memorySize) :
    let f := ofWord s.fetch.1.toNat
    let high := (s.memory.read s.pc.toNat).toNat
    let low := (s.memory.read (s.pc.toNat + 1)).toNat
    f.opcode.val = high / 16 ∧ f.x.val = high % 16 ∧ f.y.val = low / 16 ∧ f.n.val = low % 16 := by
  intro f high low
  have hf : f = ofWord (256 * high + low : Nat) := by
    show ofWord s.fetch.1.toNat = _
    rw [State.fetch_of_inside h, Memory.toNat_word]
  rw [hf]
  exact digits_of_bytes (UInt8.toNat_lt _) (UInt8.toNat_lt _)

/-- Decoding keeps the lowest sixteen bits of a word of any size or sign: the fields are what the word has under their
masks, four of them are digits, the other two are put together from these, and the digits make up the residue of the
word. So two words have the same digits exactly if they are the same modulo 65536. The digits of a word fetched
inside memory are those of its two bytes, the high byte first. -/
theorem ofWord_lossless (w : Int) :
    (((ofWord w).opcode.val : Int) = bitsUnder 0xF000 w 12 ∧ ((ofWord w).x.val : Int) = bitsUnder 0x0F00 w 8 ∧
      ((ofWord w).y.val : Int) = bitsUnder 0x00F0 w 4 ∧ ((ofWord w).n.val : Int) = bitsUnder 0x000F w 0 ∧
      ((ofWord w).nn.val : Int) = bitsUnder 0x00FF w 0 ∧
      ((ofWord w).nnn.val : Int) = bitsUnder 0x0FFF w 0) ∧
    ((ofWord w).opcode.val ≤ 15 ∧ (ofWord w).x.val ≤ 15 ∧ (ofWord w).y.val ≤ 15 ∧ (ofWord w).n.val ≤ 15) ∧
    (ofWord w).nn.val = 16 * (ofWord w).y.val + (ofWord w).n.val ∧
    (ofWord w).nnn.val = 256 * (ofWord w).x.val + (ofWord w).nn.val ∧
    ((4096 * (ofWord w).opcode.val + (ofWord w).nnn.val : Nat) : Int) = w % 65536 ∧
    (∀ v : Int,
      ((ofWord v).opcode = (ofWord w).opcode ∧ (ofWord v).x = (ofWord w).x ∧ (ofWord v).y = (ofWord w).y ∧
        (ofWord v).n = (ofWord w).n) ↔ v % 65536 = w % 65536) ∧
    (∀ s : State, s.pc.toNat + 1 < 4096 →
      let f := ofWord s.fetch.1.toNat
      let high := (s.memory.read s.pc.toNat).toNat
      let low := (s.memory.read (s.pc.toNat + 1)).toNat
      f.opcode.val = high / 16 ∧ f.x.val = high % 16 ∧ f.y.val = low / 16 ∧ f.n.val = low % 16) := by
  refine ⟨val_eq_bitsUnder w, ?_, val_nn w, val_nnn w, digits_eq_emod w, fun v => digits_eq_iff, ?_⟩
  · exact ⟨Nat.le_of_lt_succ (ofWord w).opcode.isLt, Nat.le_of_lt_succ (ofWord w).x.isLt,
      Nat.le_of_lt_succ (ofWord w).y.isLt, Nat.le_of_lt_succ (ofWord w).n.isLt⟩
  · intro s hs
    exact digits_fetch hs

/-- A state whose program counter is on the last word of memory, D12A. -/
def drawingLast : State :=
  { State.initial ⟨0, 0⟩ {} with memory := Memory.blank.writeBlock 0xFFE [0xD1, 0x2A], pc := 0xFFE }

/-- The word fetched there has the digits of its bytes, and they are those of the negative number with the same
lowest bits. -/
theorem ofWord_lossless_lastWord :
    let g := ofWord drawingLast.fetch.1.toNat
    let high := (drawingLast.memory.read drawingLast.pc.toNat).toNat
    let low := (drawingLast.memory.read (drawingLast.pc.toNat + 1)).toNat
    drawingLast.pc.toNat + 1 < 4096 ∧ high = 0xD1 ∧ low = 0x2A ∧
    (g.opcode.val = high / 16 ∧ g.x.val = high % 16 ∧ g.y.val = low / 16 ∧ g.n.val = low % 16) ∧
    g.opcode = (ofWord (-0x2ED6)).opcode ∧ g.x = (ofWord (-0x2ED6)).x ∧ g.y = (ofWord (-0x2ED6)).y ∧
      g.n = (ofWord (-0x2ED6)).n := by
  intro g high low
  have hinside : drawingLast.pc.toNat + 1 < 4096 := by decide +kernel
  obtain ⟨hhigh, hlow⟩ : high = 0xD1 ∧ low = 0x2A := by decide +kernel
  have hsame : (drawingLast.fetch.1.toNat : Int) % 65536 = -0x2ED6 % 65536 := by
    have hword : drawingLast.fetch.1.toNat = 256 * high + low := by
      rw [State.fetch_of_inside hinside, Memory.toNat_word]
    rw [hword, hhigh, hlow]
    decide
  obtain ⟨-, -, -, -, -, hdigits, hfetch⟩ := ofWord_lossless (-0x2ED6)
  exact ⟨hinside, hhigh, hlow, hfetch drawingLast hinside, (hdigits _).2 hsame⟩

end Fields

end ChipEight
