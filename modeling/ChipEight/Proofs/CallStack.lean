/-
The slots of the call stack: those in use hold addresses with a given property, and the free ones hold
zero. A push needs the property of its address, a pop gives it back, and both keep the rest.
-/
import ChipEight.CallStack

namespace ChipEight

open Layout

namespace CallStack

/-- The slots in use satisfy `P`, and the free slots are zero. -/
structure Tidy (P : UInt16 → Prop) (s : CallStack) : Prop where
  live : ∀ k (h : k < stackSize), k < s.depth → P s.slots[k]
  free : ∀ k (h : k < stackSize), s.depth ≤ k → s.slots[k] = 0

variable {P : UInt16 → Prop} {s s' : CallStack} {a : UInt16}

theorem tidy_empty : empty.Tidy P := by
  refine ⟨fun k hk h => absurd h (Nat.not_lt_zero k), fun k hk _ => ?_⟩
  simp only [empty, Vector.getElem_replicate]

theorem Tidy.push? (h : s.Tidy P) (ha : P a) (hp : s.push? a = some s') : s'.Tidy P := by
  obtain ⟨hroom, rfl⟩ := eq_of_push? hp
  refine ⟨fun k hk hlive => ?_, fun k hk hfree => ?_⟩
  · simp only [Vector.getElem_set]
    split
    · exact ha
    · exact h.live k hk (by simp only at hlive; omega)
  · simp only at hfree ⊢
    rw [Vector.getElem_set_ne _ _ (by omega)]
    exact h.free k hk (by omega)

theorem Tidy.pop? (h : s.Tidy P) (hp : s.pop? = some (a, s')) : P a ∧ s'.Tidy P := by
  obtain ⟨top, htop, hdepth, rfl, rfl⟩ := eq_of_pop? hp
  refine ⟨h.live top htop (by omega), fun k hk hlive => ?_, fun k hk hfree => ?_⟩
  · simp only at hlive ⊢
    rw [Vector.getElem_set_ne _ _ (by omega)]
    exact h.live k hk (by omega)
  · simp only [Vector.getElem_set]
    split
    · rfl
    · exact h.free k hk (by simp only at hfree; omega)

/-- A pop gives the address in the highest slot in use. -/
theorem pop?_of_depth {k : Nat} (hk : k < stackSize) (h : s.depth = k + 1) :
    ∃ rest, s.pop? = some (s.slots.get ⟨k, hk⟩, rest) := by
  obtain ⟨slots, depth, hle⟩ := s
  cases h
  exact ⟨_, rfl⟩

/-! ## Stacks by their addresses -/

theorem getElem_toList {k : Nat} (hk : k < s.toList.length) (hslot : k < stackSize) :
    s.toList[k] = s.slots[k] := by
  simp only [toList, List.getElem_take, Vector.getElem_toList]

/-- With zeros in the free slots, the addresses in use determine the stack. -/
theorem Tidy.eq_of_toList {Q : UInt16 → Prop} (h : s.Tidy P) (h' : s'.Tidy Q)
    (heq : s.toList = s'.toList) : s = s' := by
  have hdepth : s.depth = s'.depth := by
    rw [← s.length_toList, ← s'.length_toList, heq]
  have hslots : s.slots = s'.slots := by
    ext1 k hk
    by_cases hlive : k < s.depth
    · have hk' : k < s.toList.length := by
        rw [s.length_toList]
        exact hlive
      rw [← getElem_toList hk' hk, ← getElem_toList (heq ▸ hk') hk]
      simp only [heq]
    · rw [h.free k hk (by omega), h'.free k hk (by omega)]
  obtain ⟨slots, depth, hle⟩ := s
  obtain ⟨slots', depth', hle'⟩ := s'
  cases hdepth
  cases hslots
  rfl

/-- A pop takes back the push before it. -/
theorem Tidy.pop?_of_push? (h : s.Tidy P) (hp : s.push? a = some s') : s'.pop? = some (a, s) := by
  have hlist := toList_push? hp
  have htidy : s'.Tidy (fun _ => True) := Tidy.push? ⟨fun _ _ _ => trivial, h.free⟩ trivial hp
  cases hpop : s'.pop? with
  | none =>
    have hlen := s'.length_toList
    rw [hlist, pop?_eq_none_iff.1 hpop, List.length_append] at hlen
    cases hlen
  | some popped =>
    obtain ⟨b, t⟩ := popped
    have hback := toList_pop? hpop
    rw [hlist] at hback
    obtain ⟨hst, hab⟩ := List.append_inj' hback rfl
    obtain rfl : s = t := h.eq_of_toList (htidy.pop? hpop).2 hst
    cases hab
    rfl

end CallStack

end ChipEight
