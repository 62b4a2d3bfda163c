/-
What the dialect of a machine is good for. Two states that differ in the dialect alone have the same outcome ahead.
Behind a step they differ in nothing else, unless the step succeeds with a word that the two dialects take
differently (`Contested`): a shift of another register, a transfer of a block or a jump by a register. Then they
differ in what the word names, and behind a transfer I differs by the length of the block (`step_otherDialect`).
-/
import ChipEight.Proofs.Alteration
import ChipEight.Proofs.Arithmetic
import ChipEight.Proofs.BlockTransfer
import ChipEight.Proofs.History
import ChipEight.Proofs.Outcome

namespace ChipEight

open Layout

/-! ## Words on which dialects differ -/

/-- A shift of one register into another, where the dialects do not shift the same one. -/
def ShiftsApart (w : Nat) (d d' : Dialect) : Prop :=
  w / 4096 = 0x8 ∧ (w % 16 = 0x6 ∨ w % 16 = 0xE) ∧ xOf w ≠ yOf w ∧ d.shiftsVY ≠ d'.shiftsVY

/-- A transfer of V0 to Vx, where only one of the dialects moves I behind the block. -/
def TransfersApart (w : Nat) (d d' : Dialect) : Prop :=
  w / 4096 = 0xF ∧ (w % 256 = 0x55 ∨ w % 256 = 0x65) ∧ d.advancesIndex ≠ d'.advancesIndex

/-- A jump by V0 in one of the dialects and by another register in the other. -/
def JumpsApart (w : Nat) (d d' : Dialect) : Prop :=
  w / 4096 = 0xB ∧ w / 256 % 16 ≠ 0 ∧ d.jumpsByVX ≠ d'.jumpsByVX

/-- The dialects take the word differently. -/
def Contested (w : Nat) (d d' : Dialect) : Prop :=
  ShiftsApart w d d' ∨ TransfersApart w d d' ∨ JumpsApart w d d'

instance (w : Nat) (d d' : Dialect) : Decidable (ShiftsApart w d d') := inferInstanceAs (Decidable (_ ∧ _))

instance (w : Nat) (d d' : Dialect) : Decidable (TransfersApart w d d') := inferInstanceAs (Decidable (_ ∧ _))

instance (w : Nat) (d d' : Dialect) : Decidable (JumpsApart w d d') := inferInstanceAs (Decidable (_ ∧ _))

instance (w : Nat) (d d' : Dialect) : Decidable (Contested w d d') := inferInstanceAs (Decidable (_ ∨ _))

/-- The change to another dialect. -/
def speaking (d : Dialect) : Alteration := { dialect := fun _ => d }

namespace State

variable {s : State} {d : Dialect} {w : Nat} {x : Nibble} {i : Instruction}

theorem isShift_digit {op : AluOp} (hd : AluOp.ofDigit? (w % 16) = some op) (hshift : op.isShift = true) :
    w % 16 = 0x6 ∨ w % 16 = 0xE := by
  rw [← AluOp.digit_of_ofDigit? hd]
  cases op with
  | shiftRight => exact .inl rfl
  | shiftLeft => exact .inr rfl
  | _ => cases hshift

/-- An instruction notices the dialect only where the dialects take its word differently. -/
theorem unnoticedBy_speaking (hw : i.HasWord w) (h : ¬ Contested w s.dialect d) :
    (speaking d).UnnoticedBy s i := by
  cases i with
  | compute op x y =>
    intro hshift hxy
    obtain ⟨hk, hd, rfl, rfl⟩ := hw
    refine Decidable.byContradiction fun hdialect => ?_
    exact h (.inl ⟨hk, isShift_digit hd hshift, hxy, Ne.symm hdialect⟩)
  | store x =>
    show d.advancesIndex = s.dialect.advancesIndex
    refine Decidable.byContradiction fun hdialect => ?_
    exact h (.inr (.inl ⟨hw.1, .inl hw.2.1, Ne.symm hdialect⟩))
  | load x =>
    show d.advancesIndex = s.dialect.advancesIndex
    refine Decidable.byContradiction fun hdialect => ?_
    exact h (.inr (.inl ⟨hw.1, .inr hw.2.1, Ne.symm hdialect⟩))
  | jumpBy target =>
    intro hregister
    obtain ⟨hk, rfl⟩ := hw
    rw [highDigit_targetOf] at hregister
    refine Decidable.byContradiction fun hdialect => ?_
    exact h (.inr (.inr ⟨hk, fun hx => hregister (Fin.ext hx), Ne.symm hdialect⟩))
  | readDelay | setDelay | setSound => rfl
  | _ => trivial

/-! ## Steps that part -/

theorem step_shiftsApart (hs : s.dispatched? = some w) (h : ShiftsApart w s.dialect d) :
    let t := { s with dialect := d }
    t.step = { s.step with v := t.step.v, dialect := d } ∧
    ∀ r, r ≠ xOf w → r ≠ flagRegister → t.step.v.get r = s.step.v.get r := by
  intro t
  obtain ⟨hk, hn, -, -⟩ := h
  obtain ⟨op, hd⟩ : ∃ op, AluOp.ofDigit? (w % 16) = some op := by
    rcases hn with hn | hn <;> rw [hn] <;> exact ⟨_, rfl⟩
  have hw : (Instruction.compute op (xOf w) (yOf w)).HasWord w := ⟨hk, hd, rfl, rfl⟩
  have hstep : s.step = s.fetched.compute op (xOf w) (yOf w) := step_of_dispatched hs hw rfl
  have hstep' : t.step = t.fetched.compute op (xOf w) (yOf w) := step_of_dispatched (s := t) hs hw rfl
  rw [hstep, hstep']
  refine ⟨rfl, fun r hrx hrf => ?_⟩
  rw [get_v, get_v, getElem_compute _ op _ _ r rfl, getElem_compute _ op _ _ r rfl, if_neg hrf, if_neg hrf,
    if_neg hrx, if_neg hrx]
  rfl

theorem step_jumpsApart (hs : s.dispatched? = some w) (h : JumpsApart w s.dialect d) :
    let t := { s with dialect := d }
    t.step = { s.step with pc := t.step.pc, dialect := d } := by
  intro t
  have hw : (Instruction.jumpBy (targetOf w)).HasWord w := ⟨h.1, rfl⟩
  have hstep : s.step = s.fetched.jumpBy (targetOf w) := step_of_dispatched hs hw rfl
  have hstep' : t.step = t.fetched.jumpBy (targetOf w) := step_of_dispatched (s := t) hs hw rfl
  rw [hstep, hstep']
  rfl

/-- Inside memory I does not wrap, so that it parts by the length of the block. -/
theorem index_parted (hin : s.i.toNat + x < memorySize) (h : s.dialect.advancesIndex ≠ d.advancesIndex) :
    if d.advancesIndex then
      ({ s with dialect := d }.advanceIndex x).i.toNat = (s.advanceIndex x).i.toNat + (x + 1)
    else (s.advanceIndex x).i.toNat = ({ s with dialect := d }.advanceIndex x).i.toNat + (x + 1) := by
  have hhere : (s.advanceIndex x).i.toNat =
      if s.dialect.advancesIndex then s.i.toNat + x + 1 else s.i.toNat := toNat_advanceIndex hin
  have hthere : ({ s with dialect := d }.advanceIndex x).i.toNat =
      if d.advancesIndex then s.i.toNat + x + 1 else s.i.toNat :=
    toNat_advanceIndex (s := { s with dialect := d }) hin
  rw [hhere, hthere, Bool.eq_not_of_ne h]
  cases d.advancesIndex <;> rfl

/-- A transfer that succeeds stays inside memory, and so it takes effect in either dialect. -/
theorem steps_of_transfer (hs : s.dispatched? = some w) (hruns : s.step.running = true) (hw : i.HasWord w)
    (hi : ∀ t : State, t.reported? i = if memorySize ≤ t.i.toNat + x then some .outOfBounds else none) :
    s.i.toNat + x < memorySize ∧ s.step = s.fetched.execute i ∧
    { s with dialect := d }.step = { s with dialect := d }.fetched.execute i := by
  have hin : ¬ memorySize ≤ s.i.toNat + x := by
    intro hout
    rw [running_step, outcome_of_dispatched hs hw, (hi s.fetched).trans (if_pos hout)] at hruns
    cases hruns
  exact ⟨Nat.lt_of_not_le hin, step_of_dispatched hs hw ((hi s.fetched).trans (if_neg hin)),
    step_of_dispatched (s := { s with dialect := d }) hs hw ((hi _).trans (if_neg hin))⟩

theorem step_transfersApart (hs : s.dispatched? = some w) (hruns : s.step.running = true)
    (h : TransfersApart w s.dialect d) :
    let t := { s with dialect := d }
    t.step = { s.step with i := t.step.i, dialect := d } ∧
    if d.advancesIndex then t.step.i.toNat = s.step.i.toNat + (w / 256 % 16 + 1)
    else s.step.i.toNat = t.step.i.toNat + (w / 256 % 16 + 1) := by
  intro t
  obtain ⟨hk, hb | hb, hdialect⟩ := h
  · have hw : (Instruction.store (xOf w)).HasWord w := ⟨hk, hb, rfl⟩
    obtain ⟨hin, hstep, hstep'⟩ := steps_of_transfer (d := d) hs hruns hw fun _ => rfl
    rw [hstep, hstep']
    exact ⟨rfl, index_parted (s := s.fetched) hin hdialect⟩
  · have hw : (Instruction.load (xOf w)).HasWord w := ⟨hk, hb, rfl⟩
    obtain ⟨hin, hstep, hstep'⟩ := steps_of_transfer (d := d) hs hruns hw fun _ => rfl
    rw [hstep, hstep']
    exact ⟨rfl, index_parted (s := s.fetched) hin hdialect⟩

/-! ## One step -/

/-- A step that fails, or that executes a word which the dialects take alike, leaves the dialect behind as the only
difference. -/
theorem step_alike (h : ∀ w, s.dispatched? = some w → s.step.running = true → ¬ Contested w s.dialect d) :
    { s with dialect := d }.step = { s.step with dialect := d } := by
  cases hruns : s.step.running with
  | true =>
    apply (speaking d).step_apply (s := s)
    intro hready
    have hdispatched : s.dispatched? = some s.word := dispatched?_eq_some_iff.2 ⟨hready, rfl⟩
    exact unnoticedBy_speaking (Instruction.hasWord_ofWord s.word_lt) (h _ hdispatched hruns)
  | false =>
    rcases step_cases_of_outcome_eq ((speaking d).outcome_apply s) with ⟨hgoes, -, -, -⟩ | ⟨-, hstep, hstep'⟩
    · rw [running_step, hgoes] at hruns
      cases hruns
    · exact hstep'.trans (congrArg (fun t : State => { t with dialect := d }) hstep.symm)

/-- A step of two states that differ in the dialect alone has the same outcome in both. Where it succeeds with a word
that their dialects take differently, the states behind it differ in what the word names as well, and in nothing
else: Vx and VF behind a shift, I by exactly the length of the block behind a transfer, the program counter behind a
jump. In all other cases the dialect stays the only difference. -/
theorem step_otherDialect (s : State) (d : Dialect) :
    let t := { s with dialect := d }
    t.step.status = s.step.status ∧
    (∀ w, s.dispatched? = some w → s.step.running = true →
      (ShiftsApart w s.dialect d →
        t.step = { s.step with v := t.step.v, dialect := d } ∧
        ∀ r, r ≠ xOf w → r ≠ flagRegister → t.step.v.get r = s.step.v.get r) ∧
      (TransfersApart w s.dialect d →
        t.step = { s.step with i := t.step.i, dialect := d } ∧
        if d.advancesIndex then t.step.i.toNat = s.step.i.toNat + (w / 256 % 16 + 1)
        else s.step.i.toNat = t.step.i.toNat + (w / 256 % 16 + 1)) ∧
      (JumpsApart w s.dialect d → t.step = { s.step with pc := t.step.pc, dialect := d })) ∧
    ((∀ w, s.dispatched? = some w → s.step.running = true → ¬ Contested w s.dialect d) →
      t.step = { s.step with dialect := d }) := by
  intro t
  have hsame : t.outcome = s.outcome := (speaking d).outcome_apply s
  refine ⟨by rw [step_status, step_status, hsame], ?_, step_alike⟩
  intro w hs hruns
  exact ⟨step_shiftsApart hs, step_transfersApart hs hruns, step_jumpsApart hs⟩

/-- The dialect that differs from the usual one in everything. -/
def contrary : Dialect := { shiftsVY := true, advancesIndex := true, jumpsByVX := true }

/-- A state before a program of one word, with I behind it. -/
def beforeWord (high low : UInt8) : State :=
  { initial ⟨0, 0⟩ {} with
    memory := Memory.blank.writeBlock programStart [high, low]
    programEnd := 0x202
    i := 0x300 }

/-- A transfer of two registers, a shift and a jump on which the dialects part, and a shift on which they do not. -/
theorem step_otherDialect_contrary :
    (beforeWord 0xF1 0x55).dispatched? = some 0xF155 ∧ (beforeWord 0xF1 0x55).step.running = true ∧
    TransfersApart 0xF155 {} contrary ∧
    ({ beforeWord 0xF1 0x55 with dialect := contrary }.step.i.toNat =
      (beforeWord 0xF1 0x55).step.i.toNat + 2) ∧
    (beforeWord 0x81 0x26).dispatched? = some 0x8126 ∧ (beforeWord 0x81 0x26).step.running = true ∧
    ShiftsApart 0x8126 {} contrary ∧
    ({ beforeWord 0x81 0x26 with dialect := contrary }.step.v.get 2 = (beforeWord 0x81 0x26).step.v.get 2) ∧
    (beforeWord 0xB3 0x00).dispatched? = some 0xB300 ∧ (beforeWord 0xB3 0x00).step.running = true ∧
    JumpsApart 0xB300 {} contrary ∧
    ({ beforeWord 0xB3 0x00 with dialect := contrary }.step.v = (beforeWord 0xB3 0x00).step.v) ∧
    (beforeWord 0x81 0x16).dispatched? = some 0x8116 ∧ ¬ Contested 0x8116 {} contrary ∧
    ({ beforeWord 0x81 0x16 with dialect := contrary }.step =
      { (beforeWord 0x81 0x16).step with dialect := contrary }) := by
  have htransfer : (beforeWord 0xF1 0x55).dispatched? = some 0xF155 := by decide +kernel
  have hshift : (beforeWord 0x81 0x26).dispatched? = some 0x8126 := by decide +kernel
  have hjump : (beforeWord 0xB3 0x00).dispatched? = some 0xB300 := by decide +kernel
  have hsame : (beforeWord 0x81 0x16).dispatched? = some 0x8116 := by decide +kernel
  have htransferRuns : (beforeWord 0xF1 0x55).step.running = true := by decide +kernel
  have hshiftRuns : (beforeWord 0x81 0x26).step.running = true := by decide +kernel
  have hjumpRuns : (beforeWord 0xB3 0x00).step.running = true := by decide +kernel
  have htransferApart : TransfersApart 0xF155 {} contrary := by decide
  have hshiftApart : ShiftsApart 0x8126 {} contrary := by decide
  have hjumpApart : JumpsApart 0xB300 {} contrary := by decide
  have hnone : ¬ Contested 0x8116 {} contrary := by decide
  obtain ⟨-, htransferParts, -⟩ := step_otherDialect (beforeWord 0xF1 0x55) contrary
  obtain ⟨-, hshiftParts, -⟩ := step_otherDialect (beforeWord 0x81 0x26) contrary
  obtain ⟨-, hjumpParts, -⟩ := step_otherDialect (beforeWord 0xB3 0x00) contrary
  obtain ⟨-, -, halike⟩ := step_otherDialect (beforeWord 0x81 0x16) contrary
  obtain ⟨-, hindex⟩ := (htransferParts _ htransfer htransferRuns).2.1 htransferApart
  obtain ⟨-, hregisters⟩ := (hshiftParts _ hshift hshiftRuns).1 hshiftApart
  have hstep := (hjumpParts _ hjump hjumpRuns).2.2 hjumpApart
  refine ⟨htransfer, htransferRuns, htransferApart, hindex, hshift, hshiftRuns, hshiftApart,
    hregisters 2 (by decide) (by decide), hjump, hjumpRuns, hjumpApart, ?_, hsame, hnone, ?_⟩
  · rw [hstep]
  · apply halike
    rintro w hw -
    rw [hsame] at hw
    cases hw
    exact hnone

end State

end ChipEight
