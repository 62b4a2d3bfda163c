/-
Where a step goes on. `State.Successor` gives the address behind a word of each family: a target, the newest return
address, a target and a register, the word behind the next one, or the next one. A step that ends OK or DRAW goes on
there (`step_goesTo`), and of two words that skip on opposite conditions exactly one skips.
-/
import ChipEight.Proofs.History
import ChipEight.Proofs.Outcome

namespace ChipEight

open Layout

/-! ## Opposite conditions -/

/-- The condition that holds where this one does not. -/
def Condition.opposite : Condition → Condition
  | byteEqual x byte => byteUnequal x byte
  | byteUnequal x byte => byteEqual x byte
  | equal x y => unequal x y
  | unequal x y => equal x y
  | keyDown x => keyUp x
  | keyUp x => keyDown x

theorem Condition.opposite_opposite (c : Condition) : c.opposite.opposite = c := by
  cases c <;> rfl

theorem Condition.holds_opposite (c : Condition) (s : State) : c.opposite.holds s = !c.holds s := by
  cases c <;> simp [opposite, holds, bne]

theorem Condition.namesNoKey_opposite (c : Condition) (s : State) :
    c.opposite.namesNoKey s = c.namesNoKey s := by
  cases c <;> rfl

/-- Conditions see the registers and the keys alone. -/
theorem Condition.holds_congr {s t : State} (hv : t.v = s.v) (hkeys : t.keypad = s.keypad) (c : Condition) :
    c.holds t = c.holds s ∧ c.namesNoKey t = c.namesNoKey s := by
  cases c <;> simp only [holds, namesNoKey, State.keyNamedBy, hv, hkeys, and_self]

/-- The first word skips where the second, with the same operands, does not. -/
inductive Complementary (w w' : Nat) : Prop
  | byte (hk : w / 4096 = 0x3) (hk' : w' / 4096 = 0x4) (hx : xOf w = xOf w') (hn : w % 256 = w' % 256)
  | register (hk : w / 4096 = 0x5) (hk' : w' / 4096 = 0x9) (hd : w % 16 = 0) (hd' : w' % 16 = 0)
      (hx : xOf w = xOf w') (hy : yOf w = yOf w')
  | key (hk : w / 4096 = 0xE) (hk' : w' / 4096 = 0xE) (hb : w % 256 = 0x9E) (hb' : w' % 256 = 0xA1)
      (hx : xOf w = xOf w')

theorem Complementary.condition {w w' : Nat} (h : Complementary w w') :
    ∃ c : Condition, c.HasWord w ∧ c.opposite.HasWord w' := by
  cases h with
  | byte hk hk' hx hn =>
    exact ⟨.byteEqual (xOf w) (byteOf w), ⟨hk, rfl, rfl⟩, hk', hx, congrArg UInt8.ofNat hn⟩
  | register hk hk' hd hd' hx hy =>
    exact ⟨.equal (xOf w) (yOf w), ⟨hk, hd, rfl, rfl⟩, hk', hd', hx, hy⟩
  | key hk hk' hb hb' hx => exact ⟨.keyDown (xOf w), ⟨hk, hb, rfl⟩, hk', hb', hx⟩

theorem condition_of_pair {w w' : Nat} (h : Complementary w w' ∨ Complementary w' w) :
    ∃ c : Condition, c.HasWord w ∧ c.opposite.HasWord w' := by
  rcases h with h | h
  · exact h.condition
  · obtain ⟨c, hw', hw⟩ := h.condition
    refine ⟨c.opposite, hw, ?_⟩
    rw [c.opposite_opposite]
    exact hw'

namespace State

/-! ## Skips -/

/-- The word passes over the word behind it. -/
inductive Skips (s : State) (w : Nat) : Prop
  | byteEqual (hk : w / 4096 = 0x3) (h : (s.v.get (xOf w)).toNat = w % 256)
  | byteUnequal (hk : w / 4096 = 0x4) (h : (s.v.get (xOf w)).toNat ≠ w % 256)
  | equal (hk : w / 4096 = 0x5) (hd : w % 16 = 0) (h : s.v.get (xOf w) = s.v.get (yOf w))
  | unequal (hk : w / 4096 = 0x9) (hd : w % 16 = 0) (h : s.v.get (xOf w) ≠ s.v.get (yOf w))
  | keyDown (hk : w / 4096 = 0xE) (hb : w % 256 = 0x9E) (key : Fin keyCount)
      (hkey : (s.v.get (xOf w)).toNat = key.val) (h : s.keypad.get key = true)
  | keyUp (hk : w / 4096 = 0xE) (hb : w % 256 = 0xA1) (key : Fin keyCount)
      (hkey : (s.v.get (xOf w)).toNat = key.val) (h : s.keypad.get key = false)

variable {s t : State} {w w' : Nat} {i : Instruction} {c : Condition}

theorem keyNamedBy_of_toNat {x : Nibble} {key : Fin keyCount} (h : (s.v.get x).toNat = key.val) :
    s.keyNamedBy x = key := by
  apply Fin.ext
  show min (s.v.get x).toNat (keyCount - 1) = key.val
  omega

theorem toNat_of_namesKey {x : Nibble} (h : decide (keyCount ≤ (s.v.get x).toNat) = false) :
    (s.v.get x).toNat = (s.keyNamedBy x).val := by
  show _ = min (s.v.get x).toNat (keyCount - 1)
  have hlt := of_decide_eq_false h
  omega

theorem condition_of_skips (h : s.Skips w) : ∃ c : Condition, c.HasWord w ∧ c.holds s = true := by
  cases h with
  | byteEqual hk h =>
    exact ⟨.byteEqual (xOf w) (byteOf w), ⟨hk, rfl, rfl⟩, beq_iff_eq.2 (eq_byteOf_iff.2 h)⟩
  | byteUnequal hk h =>
    exact ⟨.byteUnequal (xOf w) (byteOf w), ⟨hk, rfl, rfl⟩, bne_iff_ne.2 fun e => h (eq_byteOf_iff.1 e)⟩
  | equal hk hd h => exact ⟨.equal (xOf w) (yOf w), ⟨hk, hd, rfl, rfl⟩, beq_iff_eq.2 h⟩
  | unequal hk hd h => exact ⟨.unequal (xOf w) (yOf w), ⟨hk, hd, rfl, rfl⟩, bne_iff_ne.2 h⟩
  | keyDown hk hb key hkey h =>
    refine ⟨.keyDown (xOf w), ⟨hk, hb, rfl⟩, ?_⟩
    rw [Condition.holds, keyNamedBy_of_toNat hkey, h]
  | keyUp hk hb key hkey h =>
    refine ⟨.keyUp (xOf w), ⟨hk, hb, rfl⟩, ?_⟩
    rw [Condition.holds, keyNamedBy_of_toNat hkey, h]
    rfl

/-- A condition that holds skips, unless it asks for a key that the pad does not have. -/
theorem skips_of_holds (hw : c.HasWord w) (hkey : c.namesNoKey s = false) (h : c.holds s = true) :
    s.Skips w := by
  cases c with
  | byteEqual =>
    obtain ⟨hk, rfl, rfl⟩ := hw
    exact .byteEqual hk (eq_byteOf_iff.1 (beq_iff_eq.1 h))
  | byteUnequal =>
    obtain ⟨hk, rfl, rfl⟩ := hw
    exact .byteUnequal hk fun e => bne_iff_ne.1 h (eq_byteOf_iff.2 e)
  | equal =>
    obtain ⟨hk, hd, rfl, rfl⟩ := hw
    exact .equal hk hd (beq_iff_eq.1 h)
  | unequal =>
    obtain ⟨hk, hd, rfl, rfl⟩ := hw
    exact .unequal hk hd (bne_iff_ne.1 h)
  | keyDown =>
    obtain ⟨hk, hb, rfl⟩ := hw
    exact .keyDown hk hb _ (toNat_of_namesKey hkey) h
  | keyUp =>
    obtain ⟨hk, hb, rfl⟩ := hw
    exact .keyUp hk hb _ (toNat_of_namesKey hkey) ((Bool.not_eq_true' _).mp h)

/-! ## Steps that go on -/

/-- A step that goes on has executed an instruction that reports nothing to end a run. -/
theorem executed_of_goesOn (h : s.step.GoesOn) (hd : s.dispatched? = some w) (hw : i.HasWord w) :
    s.step = s.fetched.execute i ∧ ∀ st, s.fetched.reported? i = some st → st.halts = false := by
  have hgoes := goesOn_step_iff.1 h
  constructor
  · rcases s.step_cases with ⟨-, -, hstep⟩ | ⟨hhalts, -⟩
    · rw [hstep, current_of_dispatched hd hw]
    · rw [hgoes] at hhalts
      cases hhalts
  · intro st hst
    rw [outcome_of_dispatched hd hw, hst] at hgoes
    exact hgoes

theorem dispatched_of_goesOn (h : s.step.GoesOn) : s.dispatched? = some s.word := by
  rcases s.step_cases with ⟨-, hr, -⟩ | ⟨hhalts, -⟩
  · exact dispatched?_eq_some_iff.2 ⟨hr, rfl⟩
  · rw [goesOn_step_iff.1 h] at hhalts
    cases hhalts

theorem step_pc (h : s.step.GoesOn) (hd : s.dispatched? = some w) (hw : i.HasWord w) :
    s.step.pc = s.fetched.pcAfter i := by
  rw [(executed_of_goesOn h hd hw).1, execute_pc]

/-- Both bytes of a word lie in memory, so that neither a fetch nor a skip wraps. -/
theorem pc_le_of_dispatched (hd : s.dispatched? = some w) : s.pc.toNat ≤ 0xFFE := by
  have hin := (readiness_eq_ok_iff.1 (dispatched?_eq_some_iff.1 hd).1).1
  exact Nat.le_of_lt_succ (Nat.lt_of_succ_lt_succ hin)

theorem toNat_fetched (hd : s.dispatched? = some w) : s.fetched.pc.toNat = s.pc.toNat + 2 :=
  toNat_add_two (Nat.le_trans (pc_le_of_dispatched hd) (by decide))

theorem namesNoKey_of_goesOn (h : s.step.GoesOn) (hd : s.dispatched? = some w) (hw : c.HasWord w) :
    c.namesNoKey s = false := by
  cases hkey : c.namesNoKey s with
  | false => rfl
  | true => cases (executed_of_goesOn (i := .skip c) h hd hw).2 .outOfBounds (if_pos hkey)

theorem goesOn_of_condition (hd : s.dispatched? = some w) (hw : c.HasWord w) (hkey : c.namesNoKey s = false) :
    s.step.GoesOn := by
  have hreport : s.fetched.reported? (.skip c) = none := by
    rw [reported?, show c.namesNoKey s.fetched = false from hkey]
    rfl
  exact .inl (status_of_dispatched (i := .skip c) hd hw hreport)

theorem toNat_pc_of_condition (h : s.step.GoesOn) (hd : s.dispatched? = some w) (hw : c.HasWord w) :
    s.step.pc.toNat = s.pc.toNat + if c.holds s then 4 else 2 := by
  have hpc : s.step.pc = if c.holds s then s.fetched.pc + 2 else s.fetched.pc :=
    step_pc (i := .skip c) h hd hw
  have hfetched := toNat_fetched hd
  have hle := pc_le_of_dispatched hd
  rw [hpc]
  cases c.holds s with
  | true =>
    show (s.fetched.pc + 2).toNat = s.pc.toNat + 4
    rw [toNat_add_two (by omega), hfetched]
  | false => exact hfetched

/-! ## The next address -/

/-- The address where the program goes on behind the word. -/
structure Successor (s : State) (w next : Nat) : Prop where
  jump : w / 4096 = 0x1 ∨ w / 4096 = 0x2 → next = w % 4096
  ret : w = 0x00EE →
    ∃ top : Fin stackSize, s.stack.depth = top.val + 1 ∧ next = (s.stack.slots.get top).toNat
  jumpBy : w / 4096 = 0xB →
    next = w % 4096 + (s.v.get (if s.dialect.jumpsByVX then xOf w else jumpOffsetRegister)).toNat
  skip : s.Skips w → next = s.pc.toNat + 4
  pass : w / 4096 ∉ [0x1, 0x2, 0xB] → w ≠ 0x00EE → ¬ s.Skips w → next = s.pc.toNat + 2

theorem toNat_pc_jump (h : s.step.GoesOn) (hd : s.dispatched? = some w)
    (hk : w / 4096 = 0x1 ∨ w / 4096 = 0x2) : s.step.pc.toNat = w % 4096 := by
  have hpc : s.step.pc = .ofNat (targetOf w) := by
    rcases hk with hk | hk
    · exact step_pc (i := .jump (targetOf w)) h hd ⟨hk, rfl⟩
    · have hw : (Instruction.call (targetOf w)).HasWord w := ⟨hk, rfl⟩
      have hroom : s.fetched.stack.depth ≠ stackSize := by
        intro hfull
        cases (executed_of_goesOn h hd hw).2 .stackOverflow (if_pos hfull)
      rw [step_pc h hd hw, pcAfter, if_neg hroom]
  rw [hpc, toNat_ofNat_target, val_targetOf]

theorem pc_ret (h : s.step.GoesOn) (hd : s.dispatched? = some w) (hw : w = 0x00EE) :
    ∃ top : Fin stackSize, s.stack.depth = top.val + 1 ∧ s.step.pc = s.stack.slots.get top := by
  have hsome : s.stack.depth ≠ 0 := by
    intro hempty
    cases (executed_of_goesOn (i := .ret) h hd hw).2 .stackUnderflow (if_pos hempty)
  obtain ⟨k, hdepth⟩ := Nat.exists_eq_succ_of_ne_zero hsome
  have hk : k < stackSize := by
    have hle := s.stack.depth_le
    omega
  obtain ⟨rest, hpop⟩ := CallStack.pop?_of_depth hk hdepth
  refine ⟨⟨k, hk⟩, hdepth, ?_⟩
  rw [step_pc (i := .ret) h hd hw, pcAfter, show s.fetched.stack = s.stack from rfl, hpop]
  rfl

theorem toNat_pc_jumpBy (h : s.step.GoesOn) (hd : s.dispatched? = some w) (hk : w / 4096 = 0xB) :
    s.step.pc.toNat =
      w % 4096 + (s.v.get (if s.dialect.jumpsByVX then xOf w else jumpOffsetRegister)).toNat := by
  rw [(executed_of_goesOn (i := .jumpBy (targetOf w)) h hd ⟨hk, rfl⟩).1, ← highDigit_targetOf]
  exact toNat_jumpBy s.fetched (targetOf w)

theorem toNat_pc_pass (h : s.step.GoesOn) (hd : s.dispatched? = some w) (hk : w / 4096 ∉ [0x1, 0x2, 0xB])
    (hret : w ≠ 0x00EE) (hskip : ¬ s.Skips w) : s.step.pc.toNat = s.pc.toNat + 2 := by
  obtain ⟨-, hword⟩ := dispatched?_eq_some_iff.1 hd
  have hw : s.current.HasWord w := hword ▸ Instruction.hasWord_ofWord s.word_lt
  have hpc := step_pc h hd hw
  have hquiet := (executed_of_goesOn h hd hw).2
  generalize s.current = i at hw hpc hquiet
  rw [← toNat_fetched hd]
  cases i with
  | ret => exact absurd hw hret
  | jump | call | jumpBy => exact absurd (by simp [hw.1]) hk
  | skip c =>
    have hunheld : ¬ c.holds s = true := fun hholds =>
      hskip (skips_of_holds hw (namesNoKey_of_goesOn h hd hw) hholds)
    rw [toNat_pc_of_condition h hd hw, toNat_fetched hd, if_neg hunheld]
  | awaitKey x =>
    have hdown : s.fetched.lowestKey? ≠ none := by
      intro hup
      cases hquiet .waitForKey (if_pos hup)
    rw [hpc, pcAfter, if_neg hdown]
  | unknown => cases hquiet .unknownOpcode rfl
  | _ => exact congrArg UInt16.toNat hpc

theorem successor_step (h : s.step.GoesOn) (hd : s.dispatched? = some w) :
    s.Successor w s.step.pc.toNat where
  jump := toNat_pc_jump h hd
  ret hw := by
    obtain ⟨top, htop, hpc⟩ := pc_ret h hd hw
    exact ⟨top, htop, congrArg UInt16.toNat hpc⟩
  jumpBy := toNat_pc_jumpBy h hd
  skip hskips := by
    obtain ⟨c, hw, hholds⟩ := condition_of_skips hskips
    rw [toNat_pc_of_condition h hd hw, if_pos hholds]
  pass := toNat_pc_pass h hd

/-- A step that ends OK or DRAW goes on at the address behind its word, for every family of words, without a wrap.
Of two words that skip on opposite conditions of the same operands, exactly one skips. -/
theorem step_goesTo {s : State} (h : s.step.GoesOn) :
    s.dispatched? = some s.word ∧ s.Successor s.word s.step.pc.toNat ∧
    ∀ (t : State) (w : Nat), t.dispatched? = some w → Complementary s.word w ∨ Complementary w s.word →
      t.v = s.v → t.keypad = s.keypad →
      t.step.GoesOn ∧
        ((s.step.pc.toNat = s.pc.toNat + 4 ∧ t.step.pc.toNat = t.pc.toNat + 2) ∨
          (s.step.pc.toNat = s.pc.toNat + 2 ∧ t.step.pc.toNat = t.pc.toNat + 4)) := by
  have hd := dispatched_of_goesOn h
  refine ⟨hd, successor_step h hd, ?_⟩
  intro t w hd' hpair hv hkeys
  obtain ⟨c, hw, hw'⟩ := condition_of_pair hpair
  obtain ⟨hholds, hnames⟩ := c.holds_congr hv hkeys
  -- what lets the one step go on lets the other: both ask for the same key
  have hkey : c.opposite.namesNoKey t = false := by
    rw [c.namesNoKey_opposite, hnames]
    exact namesNoKey_of_goesOn h hd hw
  have hgoes := goesOn_of_condition hd' hw' hkey
  refine ⟨hgoes, ?_⟩
  rw [toNat_pc_of_condition h hd hw, toNat_pc_of_condition hgoes hd' hw', c.holds_opposite, hholds]
  cases c.holds s with
  | true => exact .inl ⟨rfl, rfl⟩
  | false => exact .inr ⟨rfl, rfl⟩

/-- A word at the end of memory, key F held down, and F in every register. -/
def skippingPastEnd (low : UInt8) : State :=
  { initial ⟨0, 0⟩ {} with
    memory := Memory.blank.writeBlock 0xFFE [0xE1, low]
    programEnd := 0x1000
    pc := 0xFFE
    v := .replicate registerCount 0xF
    keypad := .ofFn fun k => k.val == 0xF }

/-- E19E skips to behind the end of memory, and E1A1 does not skip. -/
theorem skippingPastEnd_goesTo :
    (skippingPastEnd 0x9E).step.GoesOn ∧
    (skippingPastEnd 0x9E).Successor 0xE19E 0x1002 ∧ (skippingPastEnd 0x9E).step.pc.toNat = 0x1002 ∧
    (skippingPastEnd 0xA1).step.GoesOn ∧ (skippingPastEnd 0xA1).step.pc.toNat = 0x1000 := by
  have hfirst : (skippingPastEnd 0x9E).dispatched? = some 0xE19E := by decide +kernel
  have hother : (skippingPastEnd 0xA1).dispatched? = some 0xE1A1 := by decide +kernel
  have hgoes : (skippingPastEnd 0x9E).step.GoesOn :=
    goesOn_of_condition (c := .keyDown 1) hfirst ⟨rfl, rfl, rfl⟩ rfl
  have hword : (skippingPastEnd 0x9E).word = 0xE19E := (dispatched?_eq_some_iff.1 hfirst).2
  obtain ⟨-, hnext, hpair⟩ := step_goesTo hgoes
  rw [hword] at hnext hpair
  have hskips : (skippingPastEnd 0x9E).Skips 0xE19E := .keyDown rfl rfl 0xF rfl (by decide +kernel)
  have hpc : (skippingPastEnd 0x9E).step.pc.toNat = 0x1002 := hnext.skip hskips
  have hopposite : Complementary 0xE19E 0xE1A1 := .key rfl rfl rfl rfl rfl
  obtain ⟨hgoes', hpcs⟩ := hpair (skippingPastEnd 0xA1) 0xE1A1 hother (.inl hopposite) rfl rfl
  refine ⟨hgoes, hpc ▸ hnext, hpc, hgoes', ?_⟩
  rcases hpcs with ⟨-, hpass⟩ | ⟨hpass, -⟩
  · exact hpass
  · rw [hpc] at hpass
    exact absurd hpass (by decide)

end State

end ChipEight
