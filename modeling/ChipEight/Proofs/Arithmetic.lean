/-
The operations on two registers. `AluOp.Computes` states each of them by an equation between whole numbers or by
a bitwise operation, without a word on how the result is computed or where it is stored; the equation leaves no
choice of result and flag (`Computes.unique`). A word 8xyN stores both as `executeWord_compute` says, also where
x, y and F name the same register: the result goes to Vx first and the flag to VF then, and so a result in
VF is lost to a flag.
-/
import ChipEight.Proofs.Effect
import ChipEight.Proofs.Encoding

namespace ChipEight

open Layout

/-! ## Operations -/

namespace AluOp

/-- The result of an operation on `a` in Vx and `b` in Vy, and the flag if it reports one. A carry counts 256,
a borrow is the absence of the flag, and a shift takes its operand from `source` and drops the flag. -/
def Computes (a b source : UInt8) : AluOp → UInt8 → Option Bool → Prop
  | set, result, none => result = b
  | or, result, none => result = a ||| b
  | and, result, none => result = a &&& b
  | xor, result, none => result = a ^^^ b
  | add, result, some flag => a.toNat + b.toNat = 256 * flag.toNat + result.toNat
  | sub, result, some flag => (a.toNat : Int) - b.toNat = result.toNat - 256 * (1 - flag.toNat)
  | subFrom, result, some flag => (b.toNat : Int) - a.toNat = result.toNat - 256 * (1 - flag.toNat)
  | shiftRight, result, some flag => source.toNat = 2 * result.toNat + flag.toNat
  | shiftLeft, result, some flag => 2 * source.toNat = 256 * flag.toNat + result.toNat
  | _, _, _ => False

variable {op : AluOp} {a b source : UInt8}

theorem flagByte_eq {flag : Bool} (h : op.flag? a b = some flag) : op.flagByte a b = flag.toUInt8 := by
  unfold flagByte
  rw [h]
  cases flag <;> rfl

theorem toNat_flagByte {flag : Bool} (h : op.flag? a b = some flag) :
    (op.flagByte a b).toNat = flag.toNat := by
  rw [flagByte_eq h]
  cases flag <;> rfl

/-- The borrow in whole numbers. -/
theorem sub_computes (a b : UInt8) :
    (a.toNat : Int) - b.toNat = (sub.value a b).toNat - 256 * (1 - (decide (b ≤ a)).toNat) := by
  have hvalue := sub_value a b
  have hle := Bool.toNat_le (decide (b ≤ a))
  rw [toNat_flagByte rfl] at hvalue
  omega

theorem computes_value (op : AluOp) (a b : UInt8) (shiftsVY : Bool) :
    let source := if shiftsVY then b else a
    let first := if op.isShift && shiftsVY then b else a
    op.Computes a b source (op.value first b) (op.flag? first b) := by
  intro source first
  cases op with
  | set | or | and | xor => rfl
  | add =>
    have hvalue := add_value a b
    rwa [toNat_flagByte rfl] at hvalue
  | sub => exact sub_computes a b
  | subFrom => exact sub_computes b a
  | shiftRight =>
    have hvalue := shiftRight_value source b
    rwa [toNat_flagByte rfl] at hvalue
  | shiftLeft =>
    have hvalue := shiftLeft_value source b
    rwa [toNat_flagByte rfl] at hvalue

theorem Computes.unique {result result' : UInt8} {flag? flag?' : Option Bool}
    (h : op.Computes a b source result flag?) (h' : op.Computes a b source result' flag?') :
    result' = result ∧ flag?' = flag? := by
  have hresult := result.toNat_lt
  have hresult' := result'.toNat_lt
  cases op with
  | set | or | and | xor =>
    cases flag? with
    | some => cases h
    | none =>
      cases flag?' with
      | some => cases h'
      | none => exact ⟨h'.trans h.symm, rfl⟩
  | add | sub | subFrom | shiftRight | shiftLeft =>
    cases flag? with
    | none => cases h
    | some flag =>
      cases flag?' with
      | none => cases h'
      | some flag' =>
        have hle := flag.toNat_le
        have hle' := flag'.toNat_le
        -- the remainder and the quotient of one division
        have hboth : result'.toNat = result.toNat ∧ flag'.toNat = flag.toNat := by
          simp only [Computes] at h h'
          omega
        have hinj : ∀ p q : Bool, p.toNat = q.toNat → p = q := by decide
        exact ⟨UInt8.toNat_inj.1 hboth.1, congrArg some (hinj _ _ hboth.2)⟩

end AluOp

namespace State

/-! ## Registers -/

/-- The registers behind an operation: a flag covers a result in VF. -/
theorem getElem_compute (s : State) (op : AluOp) (x y r : Nibble) {first : UInt8}
    (hfirst : s.v[s.firstOperand op x y] = first) :
    (s.compute op x y).v[r] =
      if r = flagRegister then
        ((op.flag? first s.v[y]).map Bool.toUInt8).getD
          (if x = flagRegister then op.value first s.v[y] else s.v.get flagRegister)
      else if r = x then op.value first s.v[y] else s.v[r] := by
  unfold compute
  rw [hfirst]
  cases hflag : op.flag? first s.v[y] with
  | none =>
    simp only [hflag, Option.isSome_none, Bool.false_eq_true, if_false, getElem_set_register,
      Option.map_none, Option.getD_none]
    by_cases hr : r = flagRegister
    · subst hr
      by_cases hx : x = flagRegister
      · rw [if_pos hx.symm, if_pos rfl, if_pos hx]
      · rw [if_neg (Ne.symm hx), if_pos rfl, if_neg hx, get_v]
    · rw [if_neg hr]
  | some flag =>
    simp only [hflag, Option.isSome_some, if_true, getElem_set_register, AluOp.flagByte_eq hflag,
      Option.map_some, Option.getD_some]

/-! ## Words -/

theorem ofWord_compute {op : AluOp} {n : Nibble} (x y : Nibble) (h : op.digit = n.val) :
    Instruction.ofWord (0x8000 + 256 * x.val + 16 * y.val + n.val : Nat) = .compute op x y := by
  obtain ⟨hfamily, hx, hy, hn⟩ := digits_of_word 8 x y n
  have hdigit := congrArg Fin.val hn
  have hofDigit : AluOp.ofDigit? op.digit = some op := by
    cases op <;> rfl
  refine Instruction.ofWord_of_hasWord ⟨hfamily, ?_, hx.symm, hy.symm⟩
  rw [val_rowsOf] at hdigit
  rw [hdigit, ← h, hofDigit]

theorem ofWord_of_no_op {n : Nibble} (x y : Nibble) (h : ∀ op : AluOp, op.digit ≠ n.val) :
    Instruction.ofWord (0x8000 + 256 * x.val + 16 * y.val + n.val : Nat) = .unknown none := by
  obtain ⟨hfamily, -, -, hn⟩ := digits_of_word 8 x y n
  have hdigit := congrArg Fin.val hn
  have hnone : AluOp.ofDigit? n.val = none := by
    cases hop : AluOp.ofDigit? n.val with
    | none => rfl
    | some op => exact absurd (AluOp.digit_of_ofDigit? hop) (h op)
  refine Instruction.ofWord_of_hasWord ⟨.inr (.inl ⟨hfamily, ?_⟩), ?_⟩
  · rw [val_rowsOf] at hdigit
    rw [hdigit]
    exact AluOp.ofDigit?_eq_none_iff.1 hnone
  · rw [hfamily]
    rfl

/-- A word 8xyN of a known N has one result and at most one flag that agree with the values that Vx and Vy had
before, also where x or y is F or both are the same. The result goes to Vx, unless a flag takes its place in
VF; without a flag VF stays as it was, unless it is Vx. Nothing else changes. A word of another N changes the
outcome alone. -/
theorem executeWord_compute (s : State) (x y n : Nibble) :
    let t := s.executeWord (0x8000 + 256 * x.val + 16 * y.val + n.val : Nat)
    let source := if s.dialect.shiftsVY then s.v[y] else s.v[x]
    (∀ op : AluOp, op.digit = n.val →
      ∃ result flag?, op.Computes s.v[x] s.v[y] source result flag? ∧
        (∀ result' flag?', op.Computes s.v[x] s.v[y] source result' flag?' →
          result' = result ∧ flag?' = flag?) ∧
        (x ≠ 0xF → t.v[x] = result) ∧
        t.v[(0xF : Nibble)] =
          (flag?.map Bool.toUInt8).getD (if x = 0xF then result else s.v[(0xF : Nibble)]) ∧
        (∀ r : Nibble, r ≠ x → r ≠ 0xF → t.v[r] = s.v[r]) ∧
        t = { s with v := t.v }) ∧
    ((∀ op : AluOp, op.digit ≠ n.val) → t = { s with status := Status.unknownOpcode }) := by
  intro t source
  constructor
  · intro op hop
    have ht : t = s.compute op x y := congrArg s.execute (ofWord_compute x y hop)
    let first := if op.isShift && s.dialect.shiftsVY then s.v[y] else s.v[x]
    have hfirst : s.v[s.firstOperand op x y] = first := apply_ite (fun r : Nibble => s.v[r]) _ y x
    have hcomputes := op.computes_value s.v[x] s.v[y] s.dialect.shiftsVY
    refine ⟨op.value first s.v[y], op.flag? first s.v[y], hcomputes, ?_, ?_, ?_, ?_, ?_⟩
    · intro result' flag?' h'
      exact hcomputes.unique h'
    · intro hx
      rw [ht, getElem_compute s op x y x hfirst, if_neg hx, if_pos rfl]
    · rw [ht, getElem_compute s op x y 0xF hfirst, if_pos rfl]
      rfl
    · intro r hrx hrf
      rw [ht, getElem_compute s op x y r hfirst, if_neg hrf, if_neg hrx]
    · rw [ht]
      rfl
  · intro hno
    exact congrArg s.execute (ofWord_of_no_op x y hno)

-- VF is both operands of 8FF4 and receives the carry: the 0x20 of the sum is lost
example :
    let s : State := { initial ⟨0, 0⟩ {} with v := .replicate registerCount 0x90 }
    s.executeWord 0x8FF4 = { s with v := s.v.set 0xF 1 } := by
  rfl

end State

end ChipEight
