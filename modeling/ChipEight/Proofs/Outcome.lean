/-
Which outcome a step ends with. `State.EndsWith` states it from the word at the program counter, its
digits and the bounds of memory, stack, keys and font. By `signals_iff` an instruction reports what its
word gives rise to, and so the steps of the machine end, for all eight outcomes.
-/
import ChipEight.Proofs.Encoding
import ChipEight.Proofs.Step

namespace ChipEight

open Layout

namespace State

/-! ## The outcomes of a word -/

/-- The word reads or writes behind the end of memory, or asks for a key or a glyph above F. -/
def Overreaches (s : State) (w : Nat) : Prop :=
  (w / 4096 = 0xD ∧ 4096 < s.i.toNat + w % 16) ∨
  (w / 4096 = 0xE ∧ (w % 256 = 0x9E ∨ w % 256 = 0xA1) ∧ 15 < s.v[xOf w].toNat) ∨
  (w / 4096 = 0xF ∧ w % 256 = 0x29 ∧ 15 < s.v[xOf w].toNat) ∨
  (w / 4096 = 0xF ∧ w % 256 = 0x33 ∧ 0xFFF < s.i.toNat + 2) ∨
  (w / 4096 = 0xF ∧ (w % 256 = 0x55 ∨ w % 256 = 0x65) ∧ 0xFFF < s.i.toNat + w / 256 % 16)

/-- The word, once it is fetched, ends the step with an outcome other than OK. -/
def Signals (s : State) (w : Nat) : Status → Prop
  | .ok => False
  | .draw => w = 0x00E0 ∨ (w / 4096 = 0xD ∧ s.i.toNat + w % 16 ≤ 4096)
  | .waitForKey => w / 4096 = 0xF ∧ w % 256 = 0x0A ∧ ∀ k : Fin 16, s.keypad[k] = false
  | .exit => False
  | .unknownOpcode => Unrecognised w
  | .stackOverflow => w / 4096 = 0x2 ∧ s.stack.depth = 16
  | .stackUnderflow => w = 0x00EE ∧ s.stack.depth = 0
  | .outOfBounds => s.Overreaches w

/-- The outcome of the next step: of a word outside memory or outside the program, else of the word. -/
def EndsWith (s : State) (st : Status) : Prop :=
  if 4096 ≤ s.pc.toNat + 1 then st = .outOfBounds
  else if s.pc.toNat < 0x200 ∨ s.programEnd.toNat ≤ s.pc.toNat then st = .exit
  else s.Signals s.word st ∨ (st = .ok ∧ ∀ st', ¬ s.Signals s.word st')

theorem lowestKey?_eq_none_iff {s : State} :
    s.lowestKey? = none ↔ ∀ k : Fin 16, s.keypad[k] = false := by
  simp only [lowestKey?, List.find?_eq_none, List.mem_finRange, true_imp_iff, Bool.not_eq_true]

theorem reported?_ofWord {s : State} {w : Nat} {i : Instruction} {st : Status} (hw : i.HasWord w)
    (h : s.reported? i = some st) : s.reported? (.ofWord w) = some st := by
  rw [Instruction.ofWord_of_hasWord hw]
  exact h

theorem reported?_of_signals {s : State} {w : Nat} {st : Status} (h : s.Signals w st) :
    s.reported? (.ofWord w) = some st := by
  cases st with
  | ok | exit => cases h
  | draw =>
    rcases h with hw | ⟨hk, hi⟩
    · exact reported?_ofWord (i := .clear) hw rfl
    · exact reported?_ofWord (i := .draw (xOf w) (yOf w) (rowsOf w)) ⟨hk, rfl, rfl, rfl⟩
        (if_neg (Nat.not_lt.2 hi))
  | waitForKey =>
    obtain ⟨hk, hb, hup⟩ := h
    exact reported?_ofWord (i := .awaitKey (xOf w)) ⟨hk, hb, rfl⟩
      (if_pos (lowestKey?_eq_none_iff.2 hup))
  | unknownOpcode => exact reported?_ofWord (i := .unknown _) ⟨h, rfl⟩ rfl
  | stackOverflow =>
    obtain ⟨hk, hfull⟩ := h
    exact reported?_ofWord (i := .call (targetOf w)) ⟨hk, rfl⟩ (if_pos hfull)
  | stackUnderflow =>
    obtain ⟨hw, hempty⟩ := h
    exact reported?_ofWord (i := .ret) hw (if_pos hempty)
  | outOfBounds =>
    rcases h with ⟨hk, hi⟩ | ⟨hk, hb | hb, hv⟩ | ⟨hk, hb, hv⟩ | ⟨hk, hb, hi⟩ | ⟨hk, hb | hb, hi⟩
    · exact reported?_ofWord (i := .draw (xOf w) (yOf w) (rowsOf w)) ⟨hk, rfl, rfl, rfl⟩ (if_pos hi)
    · exact reported?_ofWord (i := .skip (.keyDown (xOf w))) ⟨hk, hb, rfl⟩
        (if_pos (decide_eq_true hv))
    · exact reported?_ofWord (i := .skip (.keyUp (xOf w))) ⟨hk, hb, rfl⟩ (if_pos (decide_eq_true hv))
    · exact reported?_ofWord (i := .glyph (xOf w)) ⟨hk, hb, rfl⟩ (if_pos hv)
    · exact reported?_ofWord (i := .decimal (xOf w)) ⟨hk, hb, rfl⟩ (if_pos hi)
    · exact reported?_ofWord (i := .store (xOf w)) ⟨hk, hb, rfl⟩ (if_pos hi)
    · exact reported?_ofWord (i := .load (xOf w)) ⟨hk, hb, rfl⟩ (if_pos hi)

theorem signals_of_reported? {s : State} {w : Nat} {i : Instruction} {st : Status} (hw : i.HasWord w)
    (h : s.reported? i = some st) : s.Signals w st := by
  cases i <;> simp only [reported?, Option.ite_none_right_eq_some, Option.some.injEq, reduceCtorEq] at h
  case clear =>
    subst h
    exact .inl hw
  case ret =>
    obtain ⟨hempty, rfl⟩ := h
    exact ⟨hw, hempty⟩
  case call =>
    obtain ⟨hfull, rfl⟩ := h
    exact ⟨hw.1, hfull⟩
  case skip condition =>
    obtain ⟨hv, rfl⟩ := h
    cases condition with
    | keyDown x =>
      obtain ⟨hk, hb, rfl⟩ := hw
      exact .inr (.inl ⟨hk, .inl hb, of_decide_eq_true hv⟩)
    | keyUp x =>
      obtain ⟨hk, hb, rfl⟩ := hw
      exact .inr (.inl ⟨hk, .inr hb, of_decide_eq_true hv⟩)
    | _ => cases hv
  case draw =>
    obtain ⟨hk, -, -, rfl⟩ := hw
    split at h <;> rename_i hi <;> simp only [Option.some.injEq] at h <;> subst h
    · exact .inl ⟨hk, hi⟩
    · exact .inr ⟨hk, Nat.not_lt.1 hi⟩
  case awaitKey =>
    obtain ⟨hup, rfl⟩ := h
    exact ⟨hw.1, hw.2.1, lowestKey?_eq_none_iff.1 hup⟩
  case glyph =>
    obtain ⟨hk, hb, rfl⟩ := hw
    obtain ⟨hv, rfl⟩ := h
    exact .inr (.inr (.inl ⟨hk, hb, hv⟩))
  case decimal =>
    obtain ⟨hi, rfl⟩ := h
    exact .inr (.inr (.inr (.inl ⟨hw.1, hw.2.1, hi⟩)))
  case store =>
    obtain ⟨hk, hb, rfl⟩ := hw
    obtain ⟨hi, rfl⟩ := h
    exact .inr (.inr (.inr (.inr ⟨hk, .inl hb, hi⟩)))
  case load =>
    obtain ⟨hk, hb, rfl⟩ := hw
    obtain ⟨hi, rfl⟩ := h
    exact .inr (.inr (.inr (.inr ⟨hk, .inr hb, hi⟩)))
  case unknown =>
    subst h
    exact hw.1

theorem word_lt (s : State) : s.word < 65536 := by
  unfold word
  rw [← Memory.toNat_word]
  exact (s.memory.word s.pc.toNat).toNat_lt

theorem signals_iff {s : State} {st : Status} :
    s.Signals s.word st ↔ s.fetched.reported? s.current = some st :=
  ⟨fun h => reported?_of_signals (s := s.fetched) h,
    signals_of_reported? (s := s.fetched) (Instruction.hasWord_ofWord s.word_lt)⟩

/-! ## The outcome of a step -/

theorem endsWith_iff {s : State} {st : Status} : s.EndsWith st ↔ s.outcome = st := by
  unfold EndsWith outcome
  rw [readiness_eq]
  split
  · exact eq_comm
  · split
    · exact eq_comm
    · rw [if_pos rfl]
      simp only [signals_iff]
      cases s.fetched.reported? s.current with
      | none => simp [eq_comm]
      | some reported => simp

/-- A step ends with one of the eight outcomes, and with each of them exactly where its word, or the
place of its word, gives rise to it. -/
theorem step_endsWith (s : State) :
    (∃ st : Status, s.step.status = st.code) ∧
      ∀ st : Status, s.step.status = st.code ↔ s.EndsWith st := by
  rw [step_status]
  refine ⟨⟨s.outcome, rfl⟩, fun st => ?_⟩
  rw [endsWith_iff]
  exact ⟨Status.code_inj, fun h => congrArg Status.code h⟩

end State

end ChipEight
