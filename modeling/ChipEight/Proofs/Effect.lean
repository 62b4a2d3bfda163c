/-
What one instruction does to the program counter, to the call stack and to the recorded outcome, for
every instruction and every state: `execute_pc`, `execute_stack` and `execute_status`. The theory of
steps and runs cites these equations and leaves the instructions closed.
-/
import ChipEight.Execute

namespace ChipEight

open Layout

namespace State

@[simp] theorem get_v (s : State) (x : Nibble) : s.v.get x = s.v[x] := rfl

/-- A register behind a store in one of them. -/
theorem getElem_set_register (v : Vector UInt8 registerCount) (x r : Nibble) (byte : UInt8) :
    (v.set x byte)[r] = if r = x then byte else v[r] := by
  have hset : (v.set x byte)[r] = if x.val = r.val then byte else v[r] := Vector.getElem_set x.isLt r.isLt
  simp only [hset, Fin.ext_iff, eq_comm]

/-! ## Calls, returns and waiting -/

theorem call_cases (s : State) (target : Target) :
    (s.stack.depth = stackSize ∧ s.call target = s.report true .stackOverflow) ∨
    (s.stack.depth < stackSize ∧ ∃ stack, s.stack.push? s.pc = some stack ∧
      s.call target = { s with stack, pc := .ofNat target }) := by
  unfold call CallStack.push?
  rcases s.stack.push_cases s.pc with ⟨hfull, hpush⟩ | ⟨hroom, hpush⟩ <;> rw [hpush]
  · exact .inl ⟨hfull, rfl⟩
  · exact .inr ⟨hroom, _, rfl, rfl⟩

theorem ret_cases (s : State) :
    (s.stack.depth = 0 ∧ s.ret = s.report true .stackUnderflow) ∨
    (0 < s.stack.depth ∧ ∃ address stack, s.stack.pop? = some (address, stack) ∧
      s.ret = { s with stack, pc := address }) := by
  unfold ret CallStack.pop?
  rcases s.stack.pop_cases with ⟨hempty, hpop⟩ | ⟨k, hk, hdepth, hpop⟩ <;> rw [hpop]
  · exact .inl ⟨hempty, rfl⟩
  · exact .inr ⟨by omega, _, _, rfl, rfl⟩

theorem awaitKey_cases (s : State) (x : Nibble) :
    (s.lowestKey? = none ∧ s.awaitKey x = { s with pc := s.pc - 2, status := Status.waitForKey }) ∨
    (∃ k, s.lowestKey? = some k ∧ s.awaitKey x = s.setV x (.ofNat k)) := by
  unfold awaitKey
  cases hk : s.lowestKey? with
  | none => exact .inl ⟨rfl, rfl⟩
  | some k => exact .inr ⟨k, rfl, rfl⟩

/-! ## Program counter -/

def pcAfter (s : State) : Instruction → UInt16
  | .ret => (s.stack.pop?.map Prod.fst).getD s.pc
  | .jump target => .ofNat target
  | .call target => if s.stack.depth = stackSize then s.pc else .ofNat target
  | .skip condition => if condition.holds s then s.pc + 2 else s.pc
  | .jumpBy target => .ofNat (target + (s.v.get (s.jumpRegister target)).toNat)
  | .awaitKey _ => if s.lowestKey? = none then s.pc - 2 else s.pc
  | .unknown condition => if condition.any (·.holds s) then s.pc + 2 else s.pc
  | _ => s.pc

theorem execute_pc [RandomSource] (s : State) (i : Instruction) : (s.execute i).pc = s.pcAfter i := by
  cases i with
  | ret =>
    rcases s.ret_cases with ⟨hd, h⟩ | ⟨-, a, stack, hp, h⟩
    · simp only [execute, pcAfter, h, CallStack.pop?_eq_none_iff.2 hd]
      rfl
    · simp only [execute, pcAfter, h, hp, Option.map_some, Option.getD_some]
  | call target =>
    rcases s.call_cases target with ⟨hd, h⟩ | ⟨hd, stack, -, h⟩
    · simp only [execute, pcAfter, h, if_pos hd]
      rfl
    · simp only [execute, pcAfter, h, if_neg (Nat.ne_of_lt hd)]
  | awaitKey x =>
    rcases s.awaitKey_cases x with ⟨hk, h⟩ | ⟨k, hk, h⟩
    · simp only [execute, pcAfter, h, if_pos hk]
    · simp only [execute, pcAfter, h, hk, setV, reduceCtorEq, if_false]
  -- left to `rfl`, a load would be compared with its whole register file unfolded
  | load x => simp only [execute, pcAfter, loadBlock, advanceIndex, report]
  | _ => rfl

/-! ## Call stack -/

/-- The call stack that an instruction leaves. A refused push or pop leaves it as it was. -/
def stackAfter (s : State) : Instruction → CallStack
  | .ret => (s.stack.pop?.map Prod.snd).getD s.stack
  | .call _ => (s.stack.push? s.pc).getD s.stack
  | _ => s.stack

theorem execute_stack [RandomSource] (s : State) (i : Instruction) : (s.execute i).stack = s.stackAfter i := by
  cases i with
  | ret =>
    rcases s.ret_cases with ⟨hd, h⟩ | ⟨-, a, stack, hp, h⟩
    · simp only [execute, stackAfter, h, CallStack.pop?_eq_none_iff.2 hd]
      rfl
    · simp only [execute, stackAfter, h, hp, Option.map_some, Option.getD_some]
  | call target =>
    rcases s.call_cases target with ⟨hd, h⟩ | ⟨-, stack, hp, h⟩
    · simp only [execute, stackAfter, h, CallStack.push?_eq_none_iff.2 hd]
      rfl
    · simp only [execute, stackAfter, h, hp, Option.getD_some]
  | awaitKey x =>
    rcases s.awaitKey_cases x with ⟨-, h⟩ | ⟨k, -, h⟩ <;> simp only [execute, stackAfter, h, setV]
  | load x => simp only [execute, stackAfter, loadBlock, advanceIndex, report]
  | _ => rfl

/-! ## Outcome -/

/-- The outcome that an instruction reports, if it reports one. -/
def reported? (s : State) : Instruction → Option Status
  | .clear => some .draw
  | .ret => if s.stack.depth = 0 then some .stackUnderflow else none
  | .call _ => if s.stack.depth = stackSize then some .stackOverflow else none
  | .skip condition => if condition.namesNoKey s then some .outOfBounds else none
  | .draw _ _ rows => if memorySize < s.i.toNat + rows then some .outOfBounds else some .draw
  | .awaitKey _ => if s.lowestKey? = none then some .waitForKey else none
  | .glyph x => if 16 ≤ (s.v.get x).toNat then some .outOfBounds else none
  | .decimal _ => if memorySize ≤ s.i.toNat + 2 then some .outOfBounds else none
  | .store x | .load x => if memorySize ≤ s.i.toNat + x then some .outOfBounds else none
  | .unknown _ => some .unknownOpcode
  | _ => none

theorem report_status (s : State) (condition : Bool) (outcome : Status) :
    (s.report condition outcome).status = if condition then outcome.code else s.status := rfl

theorem execute_status [RandomSource] (s : State) (i : Instruction) :
    (s.execute i).status = ((s.reported? i).map Status.code).getD s.status := by
  cases i with
  | ret =>
    rcases s.ret_cases with ⟨hd, h⟩ | ⟨hd, a, stack, -, h⟩
    · simp only [execute, reported?, h, if_pos hd]
      rfl
    · simp only [execute, reported?, h, if_neg (Nat.ne_of_gt hd)]
      rfl
  | call target =>
    rcases s.call_cases target with ⟨hd, h⟩ | ⟨hd, stack, -, h⟩
    · simp only [execute, reported?, h, if_pos hd]
      rfl
    · simp only [execute, reported?, h, if_neg (Nat.ne_of_lt hd)]
      rfl
  | awaitKey x =>
    rcases s.awaitKey_cases x with ⟨hk, h⟩ | ⟨k, hk, h⟩
    · simp only [execute, reported?, h, if_pos hk]
      rfl
    · simp only [execute, reported?, h, hk, setV, reduceCtorEq, if_false]
      rfl
  | skip | draw | glyph | decimal | store | load =>
    -- each of these ends in a report, whose condition the two sides share
    simp only [execute, reported?, drawSprite, glyph, storeDecimal, storeBlock, loadBlock,
      advanceIndex, report_status, get_v, decide_eq_true_eq]
    split <;> rfl
  | _ => rfl

end State

end ChipEight
