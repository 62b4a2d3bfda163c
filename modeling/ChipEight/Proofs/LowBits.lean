/-
What a word tells beyond its lowest sixteen bits. Its fields lie in those bits, so that a word of any size or sign
stands for the instruction of its residue; but the two instructions without operands are recognised on the whole
word, and a word that has only their lowest bits is a machine routine (`ofWord_emod_eq_iff`), which does nothing
(`executeWord_emod`).
-/
import ChipEight.Execute

namespace ChipEight

variable {w : Int}

/-- The word has the lowest sixteen bits of 00E0 or of 00EE, and is neither. -/
def Lookalike (w : Int) : Prop := (w % 65536 = 0x00E0 ∨ w % 65536 = 0x00EE) ∧ w ≠ w % 65536

/-! ## Family 0 -/

theorem opcode_of_lookalike (h : Lookalike w) : (Fields.ofWord w).opcode = 0 := by
  rw [← Fields.ofWord_emod]
  rcases h.1 with hw | hw
  · rw [hw]
    decide
  · rw [hw]
    decide

namespace Instruction

theorem ofWord_of_opcode_zero (h : (Fields.ofWord w).opcode = 0) :
    ofWord w = if w = 0x00E0 then clear else if w = 0x00EE then ret
      else machineRoutine (Fields.ofWord w).nnn := by
  simp only [ofWord, h]
  rfl

theorem ofWord_of_lookalike (h : Lookalike w) : ofWord w = machineRoutine (Fields.ofWord w).nnn := by
  rw [ofWord_of_opcode_zero (opcode_of_lookalike h)]
  obtain ⟨hlow, hne⟩ := h
  rw [if_neg (by omega), if_neg (by omega)]

/-- A word that is no lookalike is 00E0 exactly if its residue is, and likewise with 00EE. -/
theorem ofWord_emod_of_not_lookalike (h : ¬ Lookalike w) : ofWord (w % 65536) = ofWord w := by
  by_cases hop : (Fields.ofWord w).opcode = 0
  · have hop' : (Fields.ofWord (w % 65536)).opcode = 0 := by rwa [Fields.ofWord_emod]
    unfold Lookalike at h
    have hclear : w % 65536 = 0x00E0 ↔ w = 0x00E0 := by omega
    have hret : w % 65536 = 0x00EE ↔ w = 0x00EE := by omega
    rw [ofWord_of_opcode_zero hop, ofWord_of_opcode_zero hop', Fields.ofWord_emod]
    simp only [hclear, hret]
  · exact ofWord_emod hop

theorem ofWord_emod_eq_iff : ofWord (w % 65536) = ofWord w ↔ ¬ Lookalike w := by
  refine ⟨fun heq h => ?_, ofWord_emod_of_not_lookalike⟩
  rw [ofWord_of_lookalike h] at heq
  rcases h.1 with hw | hw
  · rw [hw] at heq
    cases heq
  · rw [hw] at heq
    cases heq

end Instruction

namespace State

/-- Only the lowest sixteen bits of a word matter to any state, but for the words that look like 00E0 or 00EE there.
These change nothing at all, where the words that they look like do have an effect. -/
theorem executeWord_emod (w : Int) :
    (¬ Lookalike w → ∀ s : State, s.executeWord w = s.executeWord (w % 65536)) ∧
    (Lookalike w → (∀ s : State, s.executeWord w = s) ∧ ∃ s : State, s.executeWord (w % 65536) ≠ s) := by
  constructor
  · intro h s
    rw [executeWord, executeWord, Instruction.ofWord_emod_eq_iff.2 h]
  · intro h
    refine ⟨fun s => ?_, initial ⟨0, 0⟩ {}, fun heq => ?_⟩
    · rw [executeWord, Instruction.ofWord_of_lookalike h]
      rfl
    · have hstatus := congrArg State.status heq
      rcases h.1 with hw | hw
      · rw [hw] at hstatus
        exact absurd hstatus (by decide +kernel)
      · rw [hw] at hstatus
        exact absurd hstatus (by decide +kernel)

/-- A state in which a clearing of the screen, a return and a sprite at I would all leave their mark. -/
def litBeforeGlyph : State :=
  { initial ⟨0, 0⟩ {} with i := 0x050, screen := .ofFn fun _ _ => true, status := Status.exit }

/-- A negative word that is a sprite, a negative one that looks like 00E0 and a long one that looks like 00EE. -/
theorem executeWord_emod_negative :
    ¬ Lookalike (-0x2FFB) ∧ Lookalike (-0xFF20) ∧ Lookalike 0x300EE ∧
    litBeforeGlyph.executeWord (-0x2FFB) = litBeforeGlyph.executeWord 0xD005 ∧
    litBeforeGlyph.executeWord (-0xFF20) = litBeforeGlyph ∧
    litBeforeGlyph.executeWord 0x300EE = litBeforeGlyph := by
  have hsprite : ¬ Lookalike (-0x2FFB) := by
    rintro ⟨hlow, -⟩
    exact absurd hlow (by decide)
  have hclear : Lookalike (-0xFF20) := ⟨.inl (by decide), by decide⟩
  have hret : Lookalike 0x300EE := ⟨.inr (by decide), by decide⟩
  obtain ⟨hsame, -⟩ := executeWord_emod (-0x2FFB)
  obtain ⟨-, hnothing⟩ := executeWord_emod (-0xFF20)
  obtain ⟨-, hnothing'⟩ := executeWord_emod 0x300EE
  exact ⟨hsprite, hclear, hret, hsame hsprite litBeforeGlyph, (hnothing hclear).1 litBeforeGlyph,
    (hnothing' hret).1 litBeforeGlyph⟩

end State

end ChipEight
