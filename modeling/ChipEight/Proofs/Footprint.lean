/-
What a step may touch. The state falls into parts, and `State.Reaches` lists for each of them the words that
may change it. An instruction leaves alone what its word does not reach (`execute_keeps`), and so does a step,
which executes one instruction or has no effect at all (`step_touches`).
-/
import ChipEight.Proofs.Arithmetic
import ChipEight.Proofs.BlockTransfer
import ChipEight.Proofs.History
import ChipEight.Proofs.Outcome

namespace ChipEight

open Layout

/-! ## Words that store in registers -/

/-- The word has Vx as its destination. -/
def StoresInVX (w : Nat) : Prop :=
  w / 4096 ∈ [0x6, 0x7, 0x8, 0xC] ∨ (w / 4096 = 0xF ∧ w % 256 ∈ [0x07, 0x0A, 0x65])

/-- The word reports a carry, a borrow, a bit shifted out or a collision in VF. -/
def ReportsInVF (w : Nat) : Prop :=
  w / 4096 = 0xD ∨ (w / 4096 = 0x8 ∧ w % 16 ∈ [0x4, 0x5, 0x6, 0x7, 0xE])

/-- The three bytes at `a` are the decimal digits of the number, the hundreds first. -/
structure Memory.HoldsDecimal (m : Memory) (a number : Nat) : Prop where
  inside : a + 2 < memorySize
  hundreds_le : (m.read a).toNat ≤ 9
  tens_le : (m.read (a + 1)).toNat ≤ 9
  ones_le : (m.read (a + 2)).toNat ≤ 9
  value_eq : 100 * (m.read a).toNat + 10 * (m.read (a + 1)).toNat + (m.read (a + 2)).toNat = number

namespace State

/-! ## Parts of the state -/

/-- All that a state holds but the program counter and the outcome. -/
inductive Part
  | cell (address : Fin memorySize)
  | register (r : Nibble)
  | index
  | stack
  | screen
  | delay
  | sound
  | key
  | keypad
  | programEnd
  | dialect

/-- The second state has the part from the first. -/
def Keeps (s t : State) : Part → Prop
  | .cell a => t.memory.read a = s.memory.read a
  | .register r => t.v.get r = s.v.get r
  | .index => t.i = s.i
  | .stack => t.stack = s.stack
  | .screen => t.screen = s.screen
  | .delay => t.delay = s.delay
  | .sound => t.sound = s.sound
  | .key => t.key = s.key
  | .keypad => t.keypad = s.keypad
  | .programEnd => t.programEnd = s.programEnd
  | .dialect => t.dialect = s.dialect

/-- The word may change the part. -/
def Reaches (s : State) (w : Nat) : Part → Prop
  | .cell a => w / 4096 = 0xF ∧ s.i.toNat ≤ a.val ∧
      ((w % 256 = 0x33 ∧ a.val ≤ s.i.toNat + 2) ∨ (w % 256 = 0x55 ∧ a.val ≤ s.i.toNat + w / 256 % 16))
  | .register r =>
      (r = xOf w ∧ StoresInVX w) ∨ (r = flagRegister ∧ ReportsInVF w) ∨
      (w / 4096 = 0xF ∧ w % 256 = 0x65 ∧ r < xOf w)
  | .index =>
      w / 4096 = 0xA ∨ (w / 4096 = 0xF ∧ (w % 256 = 0x1E ∨ w % 256 = 0x29 ∨
        (s.dialect.advancesIndex = true ∧ (w % 256 = 0x55 ∨ w % 256 = 0x65))))
  | .stack => w / 4096 = 0x2 ∨ w = 0x00EE
  | .screen => w = 0x00E0 ∨ w / 4096 = 0xD
  | .delay => w / 4096 = 0xF ∧ w % 256 = 0x15
  | .sound => w / 4096 = 0xF ∧ w % 256 = 0x18
  | .key => w / 4096 = 0xC
  | .keypad | .programEnd | .dialect => False

variable {s : State} {w : Nat} {p : Part}

/-! ## One instruction -/

theorem keeps_setV {x : Nibble} {byte : UInt8} (hp : p ≠ .register x) : s.Keeps (s.setV x byte) p := by
  cases p with
  | register r =>
    have hr : r ≠ x := by
      rintro rfl
      exact hp rfl
    exact (getElem_set_register s.v x r byte).trans (if_neg hr)
  | _ => rfl

/-- A word that does not reach a part does not store it in Vx either. -/
theorem keeps_setV_destination {byte : UInt8} (h : ¬ s.Reaches w p) (hx : StoresInVX w) :
    s.Keeps (s.setV (xOf w) byte) p := by
  apply keeps_setV
  rintro rfl
  exact h (.inl ⟨rfl, hx⟩)

theorem digit_of_flag {op : AluOp} {a b : UInt8} {flag : Bool} (h : op.flag? a b = some flag) :
    op.digit ∈ [0x4, 0x5, 0x6, 0x7, 0xE] := by
  cases op with
  | set | or | and | xor => cases h
  | _ => simp [AluOp.digit]

theorem keeps_compute {op : AluOp} {x y : Nibble} (hw : (Instruction.compute op x y).HasWord w)
    (h : ¬ s.Reaches w p) : s.Keeps (s.compute op x y) p := by
  obtain ⟨hk, hd, rfl, rfl⟩ := hw
  cases p with
  | register r =>
    have hr : r ≠ xOf w := fun e => h (.inl ⟨e, .inl (by simp [hk])⟩)
    refine (getElem_compute s op (xOf w) (yOf w) r rfl).trans ?_
    by_cases hf : r = flagRegister
    · subst hf
      rw [if_pos rfl]
      cases hflag : op.flag? s.v[s.firstOperand op (xOf w) (yOf w)] s.v[yOf w] with
      | none => rw [if_neg hr.symm, Option.map_none, Option.getD_none]
      | some flag =>
        have hdigit := digit_of_flag hflag
        rw [AluOp.digit_of_ofDigit? hd] at hdigit
        exact absurd (.inr (.inl ⟨rfl, .inr ⟨hk, hdigit⟩⟩)) h
    · rw [if_neg hf, if_neg hr]
      rfl
  | _ => rfl

theorem keeps_drawSprite {x y rows : Nibble} (hw : (Instruction.draw x y rows).HasWord w)
    (h : ¬ s.Reaches w p) : s.Keeps (s.drawSprite x y rows) p := by
  cases p with
  | register r =>
    have hr : r ≠ flagRegister := fun e => h (.inr (.inl ⟨e, .inl hw.1⟩))
    exact (getElem_set_register s.v flagRegister r _).trans (if_neg hr)
  | screen => exact absurd (.inr hw.1) h
  | _ => rfl

theorem keeps_storeDecimal {x : Nibble} (hw : (Instruction.decimal x).HasWord w) (h : ¬ s.Reaches w p) :
    s.Keeps (s.storeDecimal x) p := by
  obtain ⟨hk, hb, rfl⟩ := hw
  cases p with
  | cell a =>
    apply Memory.read_writeBlock_outside _ _ a.isLt
    show a.val < s.i.toNat ∨ s.i.toNat + 3 ≤ a.val
    have hout : ¬ (s.i.toNat ≤ a.val ∧ a.val ≤ s.i.toNat + 2) := fun hin =>
      h ⟨hk, hin.1, .inl ⟨hb, hin.2⟩⟩
    omega
  | _ => rfl

/-- Unless the dialect asks for it, a transfer does not move I. -/
theorem index_of_not_reaches {x : Nibble} (h : ¬ s.Reaches w .index) (hk : w / 4096 = 0xF)
    (hb : w % 256 = 0x55 ∨ w % 256 = 0x65) : (s.advanceIndex x).i = s.i := by
  have hoff : ¬ s.dialect.advancesIndex = true := fun hon => h (.inr ⟨hk, .inr (.inr ⟨hon, hb⟩)⟩)
  exact if_neg hoff

theorem keeps_storeBlock {x : Nibble} (hw : (Instruction.store x).HasWord w) (h : ¬ s.Reaches w p) :
    s.Keeps (s.storeBlock x) p := by
  obtain ⟨hk, hb, rfl⟩ := hw
  cases p with
  | cell a =>
    apply read_storeBlock_outside a.isLt
    have hout : ¬ (s.i.toNat ≤ a.val ∧ a.val ≤ s.i.toNat + w / 256 % 16) := fun hin =>
      h ⟨hk, hin.1, .inr ⟨hb, hin.2⟩⟩
    rw [val_xOf]
    omega
  | index => exact index_of_not_reaches h hk (.inl hb)
  | _ => rfl

theorem keeps_loadBlock {x : Nibble} (hw : (Instruction.load x).HasWord w) (h : ¬ s.Reaches w p) :
    s.Keeps (s.loadBlock x) p := by
  obtain ⟨hk, hb, rfl⟩ := hw
  cases p with
  | register r =>
    refine (s.getElem_loadBlock (xOf w) r).trans (if_neg fun hr => h ?_)
    rcases Fin.eq_or_lt_of_le hr with heq | hlt
    · exact .inl ⟨heq, .inr ⟨hk, by simp [hb]⟩⟩
    · exact .inr (.inr ⟨hk, hb, hlt⟩)
  | index =>
    have hindex := index_of_not_reaches (x := xOf w) h hk (.inr hb)
    simpa only [Keeps, loadBlock, advanceIndex, report] using hindex
  | _ => simp only [Keeps, loadBlock, advanceIndex, report]

/-- An instruction leaves alone what its word does not reach. -/
theorem execute_keeps {i : Instruction} (hw : i.HasWord w) (h : ¬ s.Reaches w p) :
    s.Keeps (s.execute i) p := by
  cases i with
  | machineRoutine | jump | jumpBy | skip | unknown => cases p <;> rfl
  | clear =>
    cases p with
    | screen => exact absurd (.inl hw) h
    | _ => rfl
  | ret =>
    show s.Keeps s.ret p
    rcases s.ret_cases with ⟨-, he⟩ | ⟨-, address, stack, -, he⟩
    · rw [he]
      cases p <;> rfl
    · rw [he]
      cases p with
      | stack => exact absurd (.inr hw) h
      | _ => rfl
  | call target =>
    show s.Keeps (s.call target) p
    rcases s.call_cases target with ⟨-, he⟩ | ⟨-, stack, -, he⟩
    · rw [he]
      cases p <;> rfl
    · rw [he]
      cases p with
      | stack => exact absurd (.inl hw.1) h
      | _ => rfl
  | setByte | addByte =>
    obtain ⟨hk, rfl, rfl⟩ := hw
    exact keeps_setV_destination h (.inl (by simp [hk]))
  | readDelay x =>
    obtain ⟨hk, hb, rfl⟩ := hw
    exact keeps_setV_destination h (.inr ⟨hk, by simp [hb]⟩)
  | random x mask =>
    obtain ⟨hk, rfl, rfl⟩ := hw
    have hset : s.Keeps (s.setV (xOf w) (s.key.byte &&& byteOf w)) p :=
      keeps_setV_destination h (.inl (by simp [hk]))
    cases p with
    | key => exact absurd hk h
    | _ => exact hset
  | awaitKey x =>
    obtain ⟨hk, hb, rfl⟩ := hw
    show s.Keeps (s.awaitKey (xOf w)) p
    rcases s.awaitKey_cases (xOf w) with ⟨-, he⟩ | ⟨k, -, he⟩
    · rw [he]
      cases p <;> rfl
    · rw [he]
      exact keeps_setV_destination h (.inr ⟨hk, by simp [hb]⟩)
  | compute => exact keeps_compute hw h
  | draw => exact keeps_drawSprite hw h
  | setIndex target =>
    cases p with
    | index => exact absurd (.inl hw.1) h
    | _ => rfl
  | setDelay x =>
    cases p with
    | delay => exact absurd ⟨hw.1, hw.2.1⟩ h
    | _ => rfl
  | setSound x =>
    cases p with
    | sound => exact absurd ⟨hw.1, hw.2.1⟩ h
    | _ => rfl
  | addIndex x =>
    cases p with
    | index => exact absurd (.inr ⟨hw.1, .inl hw.2.1⟩) h
    | _ => rfl
  | glyph x =>
    cases p with
    | index => exact absurd (.inr ⟨hw.1, .inr (.inl hw.2.1)⟩) h
    | _ => rfl
  | decimal => exact keeps_storeDecimal hw h
  | store => exact keeps_storeBlock hw h
  | load => exact keeps_loadBlock hw h

/-! ## One step -/

theorem step_keeps (h : ∀ w, s.dispatched? = some w → ¬ s.Reaches w p) : s.Keeps s.step p := by
  rcases s.step_cases with ⟨-, hr, hstep⟩ | ⟨-, hstep⟩
  · have hword : ¬ s.Reaches s.word p := h _ (dispatched?_eq_some_iff.2 ⟨hr, rfl⟩)
    -- a fetch changes no part, nor what the word reaches
    have hfetched : ¬ s.fetched.Reaches s.word p := by
      cases p <;> exact hword
    have hkeeps := execute_keeps (Instruction.hasWord_ofWord s.word_lt) hfetched
    rw [hstep]
    cases p <;> exact hkeeps
  · rw [hstep]
    cases p <;> rfl

theorem reaches_of_not_keeps (h : ¬ s.Keeps s.step p) :
    ∃ w, s.dispatched? = some w ∧ s.Reaches w p := by
  by_cases hreach : ∃ w, s.dispatched? = some w ∧ s.Reaches w p
  · exact hreach
  · exact absurd (step_keeps fun w hd hw => hreach ⟨w, hd, hw⟩) h

theorem not_halts_of_not_keeps (h : ¬ s.Keeps s.step p) : s.outcome.halts = false := by
  rcases s.step_cases with ⟨hgoes, -, -⟩ | ⟨-, hstep⟩
  · exact hgoes
  · refine absurd ?_ h
    rw [hstep]
    cases p <;> rfl

/-- A step that changes the screen says so. -/
theorem outcome_of_screen (h : s.step.screen ≠ s.screen) : s.outcome = .draw := by
  have hgoes := not_halts_of_not_keeps (p := .screen) h
  obtain ⟨w, hd, hw | hk⟩ := reaches_of_not_keeps (p := .screen) h
  · exact outcome_of_dispatched (i := .clear) hd hw
  · have hword : (Instruction.draw (xOf w) (yOf w) (rowsOf w)).HasWord w := ⟨hk, rfl, rfl, rfl⟩
    rw [outcome_of_dispatched hd hword] at hgoes ⊢
    simp only [reported?] at hgoes ⊢
    split at hgoes
    · cases hgoes
    · rename_i hin
      rw [if_neg hin]
      rfl

/-! ## Decimal digits -/

theorem holdsDecimal_writeBlock (m : Memory) {a : Nat} (byte : UInt8) (h : a + 2 < memorySize) :
    (m.writeBlock a (decimalDigits byte)).HoldsDecimal a byte.toNat := by
  have hread {k : Nat} (hk : k < 3) :=
    Memory.read_writeBlock_inside m (decimalDigits byte) hk (show a + k < memorySize by omega)
  have hhundreds : ((m.writeBlock a (decimalDigits byte)).read a).toNat = byte.toNat / 100 :=
    congrArg UInt8.toNat (hread (k := 0) (by decide))
  have htens : ((m.writeBlock a (decimalDigits byte)).read (a + 1)).toNat = byte.toNat / 10 % 10 :=
    congrArg UInt8.toNat (hread (k := 1) (by decide))
  have hones : ((m.writeBlock a (decimalDigits byte)).read (a + 2)).toNat = byte.toNat % 10 :=
    congrArg UInt8.toNat (hread (k := 2) (by decide))
  have hbyte := byte.toNat_lt
  constructor <;> omega

/-- A step that executes Fx33 fails, or leaves the digits of Vx in memory. -/
theorem decimal_step (hd : s.dispatched? = some w) (hk : w / 4096 = 0xF) (hb : w % 256 = 0x33) :
    (s.step.status = Status.outOfBounds.code ∧ s.step.memory = s.memory) ∨
      s.step.memory.HoldsDecimal s.i.toNat (s.v.get (xOf w)).toNat := by
  have hword : (Instruction.decimal (xOf w)).HasWord w := ⟨hk, hb, rfl⟩
  by_cases hin : memorySize ≤ s.i.toNat + 2
  · have hreport : s.fetched.reported? (.decimal (xOf w)) = some .outOfBounds := if_pos hin
    have hout : s.outcome = .outOfBounds := by
      rw [outcome_of_dispatched hd hword, hreport]
      rfl
    have hhalts : s.outcome.halts = true := by
      rw [hout]
      rfl
    rw [step_of_halts hhalts, hout]
    exact .inl ⟨rfl, rfl⟩
  · rw [step_of_dispatched hd hword (if_neg hin)]
    exact .inr (holdsDecimal_writeBlock s.memory _ (Nat.not_le.1 hin))

/-- A step changes a part of the state only if the word that it executes reaches it. The screen changes only with
the outcome DRAW, and a word Fx33 that does not fail leaves the three decimal digits of Vx at I. -/
theorem step_touches (s : State) :
    (∀ p : Part, ¬ s.Keeps s.step p → ∃ w, s.dispatched? = some w ∧ s.Reaches w p) ∧
    (s.step.screen ≠ s.screen → s.step.status = Status.draw.code) ∧
    ∀ w, s.dispatched? = some w → w / 4096 = 0xF ∧ w % 256 = 0x33 →
      (s.step.status = Status.outOfBounds.code ∧ s.step.memory = s.memory) ∨
        s.step.memory.HoldsDecimal s.i.toNat (s.v.get (xOf w)).toNat := by
  refine ⟨fun p => reaches_of_not_keeps, ?_, ?_⟩
  · intro h
    rw [step_status, outcome_of_screen h]
  · intro w hd hw
    exact decimal_step hd hw.1 hw.2

/-- The program of the one word F133, and 254 in every register. -/
def writingDigits : State :=
  { initial ⟨0, 0⟩ {} with
    memory := Memory.blank.writeBlock programStart [0xF1, 0x33]
    programEnd := 0x202
    i := 0xFFD
    v := .replicate registerCount 254 }

/-- The last of the three digits goes into the last byte of memory. -/
theorem writingDigits_touches :
    ¬ writingDigits.Keeps writingDigits.step (.cell 0xFFF) ∧
    writingDigits.Reaches 0xF133 (.cell 0xFFF) ∧
    writingDigits.step.memory.HoldsDecimal 0xFFD 254 := by
  have hdispatched : writingDigits.dispatched? = some 0xF133 := by decide +kernel
  have hchanges : ¬ writingDigits.Keeps writingDigits.step (.cell 0xFFF) := by
    show writingDigits.step.memory.read 0xFFF ≠ writingDigits.memory.read 0xFFF
    decide +kernel
  have hgoes : writingDigits.step.status ≠ Status.outOfBounds.code := by decide +kernel
  obtain ⟨hreach, -, hdecimal⟩ := step_touches writingDigits
  obtain ⟨w, hw, hcell⟩ := hreach _ hchanges
  obtain rfl : w = 0xF133 := Option.some.inj (hw.symm.trans hdispatched)
  refine ⟨hchanges, hcell, ?_⟩
  rcases hdecimal _ hw (by decide) with ⟨hfails, -⟩ | hdigits
  · exact absurd hfails hgoes
  · exact hdigits

end State

end ChipEight
