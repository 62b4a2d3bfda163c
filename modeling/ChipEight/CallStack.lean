/-
The call stack: sixteen slots for return addresses, of which the lowest `depth` are in use. A push
on a full stack and a pop on an empty one raise a flag and change nothing; a pop clears the slot that
it frees.
-/
import ChipEight.Layout

namespace ChipEight

open Layout

structure CallStack where
  slots : Vector UInt16 stackSize
  depth : Nat
  depth_le : depth ≤ stackSize
deriving DecidableEq

namespace CallStack

def empty : CallStack := ⟨.replicate stackSize 0, 0, Nat.zero_le _⟩

/-- The addresses in use, the oldest first. -/
def toList (s : CallStack) : List UInt16 := s.slots.toList.take s.depth

/-- The stack with `a` in its lowest free slot, and whether there was none. A full stack stays as it is. -/
def push (s : CallStack) (a : UInt16) : CallStack × Bool :=
  if h : s.depth < stackSize then (⟨s.slots.set s.depth a h, s.depth + 1, h⟩, false) else (s, true)

/--
The stack without its newest address, that address, and whether there was none. The slot that is freed is
cleared; on an empty stack the lowest slot is read instead, and keeps what it holds.
-/
def pop (s : CallStack) : CallStack × UInt16 × Bool :=
  let underflow := s.depth == 0
  have h : s.depth - 1 < stackSize := by have := s.depth_le; simp only [stackSize] at *; omega
  let a := s.slots[s.depth - 1]
  let slots := s.slots.set (s.depth - 1) (if underflow then a else 0) h
  (⟨slots, s.depth - 1, Nat.le_of_lt h⟩, a, underflow)

/-- The stack after a push that is not refused. -/
def push? (s : CallStack) (a : UInt16) : Option CallStack :=
  if (s.push a).2 then none else some (s.push a).1

/-- The address of a pop that is not refused, and the stack after it. -/
def pop? (s : CallStack) : Option (UInt16 × CallStack) :=
  if s.pop.2.2 then none else some (s.pop.2.1, s.pop.1)

/-- The stack that holds the given addresses, the oldest first, as far as they fit. -/
def ofList (addresses : List UInt16) : CallStack :=
  addresses.foldl (fun s a => (s.push a).1) empty

/-! ## Refusal -/

section

variable {s s' : CallStack} {a : UInt16}

/-- A push finds the stack full and leaves it, or fills the lowest free slot. -/
theorem push_cases (s : CallStack) (a : UInt16) :
    (s.depth = stackSize ∧ s.push a = (s, true)) ∨
    ∃ h : s.depth < stackSize, s.push a = (⟨s.slots.set s.depth a h, s.depth + 1, h⟩, false) := by
  have hle := s.depth_le
  by_cases h : s.depth < stackSize
  · exact .inr ⟨h, dif_pos h⟩
  · exact .inl ⟨by omega, dif_neg h⟩

/-- A pop finds the stack empty and leaves it, or clears the highest slot in use. -/
theorem pop_cases (s : CallStack) :
    (s.depth = 0 ∧ s.pop = (s, s.slots.get 0, true)) ∨
    ∃ (k : Nat) (h : k < stackSize), s.depth = k + 1 ∧
      s.pop = (⟨s.slots.set k 0 h, k, Nat.le_of_lt h⟩, s.slots.get ⟨k, h⟩, false) := by
  obtain ⟨slots, depth, hle⟩ := s
  cases depth with
  | zero =>
    have hpop : (CallStack.mk slots 0 hle).pop = (⟨slots.set 0 slots[0], 0, hle⟩, slots.get 0, true) := rfl
    rw [Vector.set_getElem_self] at hpop
    exact .inl ⟨rfl, hpop⟩
  | succ k => exact .inr ⟨k, hle, rfl, rfl⟩

/-- A push is refused on a full stack alone, which it leaves as it is. -/
theorem push?_eq_none_iff : s.push? a = none ↔ s.depth = stackSize := by
  unfold push?
  rcases s.push_cases a with ⟨hfull, hpush⟩ | ⟨hroom, hpush⟩
  · simp [hpush, hfull]
  · simp [hpush, Nat.ne_of_lt hroom]

theorem pop?_eq_none_iff : s.pop? = none ↔ s.depth = 0 := by
  unfold pop?
  rcases s.pop_cases with ⟨hempty, hpop⟩ | ⟨k, hk, hdepth, hpop⟩
  · simp [hpop, hempty]
  · simp [hpop, hdepth]

theorem eq_of_push? (h : s.push? a = some s') :
    ∃ hroom : s.depth < stackSize, s' = ⟨s.slots.set s.depth a hroom, s.depth + 1, hroom⟩ := by
  unfold push? at h
  rcases s.push_cases a with ⟨-, hpush⟩ | ⟨hroom, hpush⟩
  · simp [hpush] at h
  · simp only [hpush] at h
    exact ⟨hroom, (Option.some.inj h).symm⟩

theorem eq_of_pop? (h : s.pop? = some (a, s')) :
    ∃ (k : Nat) (hk : k < stackSize), s.depth = k + 1 ∧ a = s.slots.get ⟨k, hk⟩ ∧
      s' = ⟨s.slots.set k 0 hk, k, Nat.le_of_lt hk⟩ := by
  unfold pop? at h
  rcases s.pop_cases with ⟨-, hpop⟩ | ⟨k, hk, hdepth, hpop⟩
  · simp [hpop] at h
  · simp only [hpop] at h
    cases h
    exact ⟨k, hk, hdepth, rfl, rfl⟩

/-! ## The addresses in use -/

theorem length_toList (s : CallStack) : s.toList.length = s.depth := by
  simp [toList, Nat.min_eq_left s.depth_le]

theorem toList_push? (h : s.push? a = some s') : s'.toList = s.toList ++ [a] := by
  obtain ⟨hroom, rfl⟩ := eq_of_push? h
  simp only [toList, Vector.toList_set]
  rw [List.take_succ_eq_append_getElem (by simpa using hroom), List.take_set_of_le (Nat.le_refl _)]
  simp

theorem toList_pop? (h : s.pop? = some (a, s')) : s.toList = s'.toList ++ [a] := by
  obtain ⟨k, hk, hdepth, rfl, rfl⟩ := eq_of_pop? h
  simp only [toList, Vector.toList_set, hdepth]
  rw [List.take_succ_eq_append_getElem (by simpa using hk), List.take_set_of_le (Nat.le_refl _)]
  rfl

end

end CallStack

end ChipEight
