/-
What the text of a word tells. The formatter has its own tables, and yet it reads every word as the instruction set
does (`toList_mnemonic`). So a text begins with question marks exactly if the set does not know the word, and exactly
then the word is refused, whatever the state (`unknownOpcode_iff_mnemonic`). Words with the same text do the same, and
of the words that a fetch can give no two have the same text, so that a line of the trace shows which word was at the
program counter (`mnemonic_identifies`).
-/
import ChipEight.Proofs.Assembly
import ChipEight.Proofs.Outcome
import ChipEight.Proofs.Threshold
import Mathlib.Data.Set.Function

namespace ChipEight

open Layout Text

/-! ## The formatter and the instruction set -/

/-- The names that the formatter has are those of the operations. -/
theorem lookup_operationNames (n : Nibble) :
    operationNames.lookup n.val = (AluOp.ofDigit? n.val).map AluOp.name := by
  revert n
  decide

/-- The forms that the formatter has are those of the instructions of the family F. -/
theorem lookup_miscForms (x : Nibble) (byte : Nat) :
    (miscForms.lookup byte).map (fun form => (form.1 ++ registerName x ++ form.2).toList) =
      (Instruction.ofMisc x byte).line?.map Line.text := by
  unfold Instruction.ofMisc
  split
  case h_10 =>
    have hnone : miscForms.lookup byte = none := by
      simp only [List.lookup_eq_none_iff, miscForms, List.forall_mem_cons, bne_iff_ne]
      refine ⟨?_, ?_, ?_, ?_, ?_, ?_, ?_, ?_, ?_, nofun⟩ <;> assumption
    rw [hnone]
    rfl
  all_goals simp [miscForms, List.lookup_cons, Instruction.line?, Operand.text]

/-- The formatter and the instruction set read every word alike: its text is the line of the instruction that the
word stands for, and shows the word whole exactly where there is no such instruction. -/
theorem toList_mnemonic (w : Int) :
    (mnemonic w).toList = ((Instruction.ofWord w).line?.map Line.text).getD (unknownText w).toList := by
  by_cases hclear : w = 0x00E0
  · subst hclear
    rfl
  by_cases hret : w = 0x00EE
  · subst hret
    rfl
  have hoffset : registerName jumpOffsetRegister = "V0" := rfl
  simp only [mnemonic, Instruction.ofWord, if_neg hclear, if_neg hret]
  generalize Fields.ofWord w = f
  obtain ⟨⟨k, hk⟩, x, y, n, nn, target⟩ := f
  match k, hk with
  -- the families in which some words are unknown
  | 0x5, _ | 0x9, _ =>
    by_cases hn : n.val = 0 <;>
      simp [hn, Instruction.line?, Operand.text]
  | 0x8, _ =>
    simp only [lookup_operationNames]
    cases AluOp.ofDigit? n.val with
    | none => rfl
    | some op => simp [Instruction.line?, Operand.text]
  | 0xE, _ =>
    by_cases hdown : nn.val = 0x9E <;> by_cases hup : nn.val = 0xA1 <;>
      simp [hdown, hup, Instruction.line?, Operand.text]
  | 0xF, _ =>
    simp only [← lookup_miscForms]
    cases miscForms.lookup nn.val <;> rfl
  -- the families without an unknown word
  | 0x0, _ | 0x1, _ | 0x2, _ | 0x3, _ | 0x4, _ | 0x6, _ | 0x7, _ | 0xA, _ | 0xB, _ | 0xC, _ | 0xD, _ =>
    simp [Instruction.line?, Operand.text, hoffset]
  | k + 16, hk => omega

theorem mnemonic_cases (w : Int) :
    ((Instruction.ofWord w).isKnown = true ∧
      ∃ l, (Instruction.ofWord w).line? = some l ∧ (mnemonic w).toList = l.text) ∨
    ((Instruction.ofWord w).isKnown = false ∧ mnemonic w = "??? 0x" ++ hex 4 w) := by
  have htext := toList_mnemonic w
  rw [← Instruction.line?_isSome]
  cases hline : (Instruction.ofWord w).line? with
  | some l =>
    rw [hline] at htext
    exact .inl ⟨rfl, l, rfl, htext⟩
  | none =>
    rw [hline] at htext
    exact .inr ⟨rfl, String.toList_inj.1 htext⟩

/-! ## Words outside the set -/

namespace Instruction

/-- No line of the set begins with a question mark. -/
theorem head_of_line? {i : Instruction} {l : Line} (h : i.line? = some l) :
    l.text.head? ≠ some '?' := by
  cases i with
  | skip condition =>
    cases condition <;> cases h <;> simp
  | compute op x y =>
    cases h
    cases op <;> simp [AluOp.name]
  | unknown => cases h
  | _ =>
    cases h
    simp

end Instruction

theorem mnemonic_ne_unknown {w : Int} {l : Line} (hline : (Instruction.ofWord w).line? = some l)
    (htext : (mnemonic w).toList = l.text) (digits : String) : mnemonic w ≠ "??? 0x" ++ digits := by
  intro h
  apply Instruction.head_of_line? hline
  rw [← htext, h, String.toList_append]
  rfl

theorem mnemonic_of_unknown {w : Int} (h : (Instruction.ofWord w).isKnown = false) :
    mnemonic w = "??? 0x" ++ hex 4 w := by
  rcases mnemonic_cases w with ⟨hknown, -⟩ | ⟨-, htext⟩
  · rw [h] at hknown
    cases hknown
  · exact htext

theorem isKnown_of_mnemonic {w : Int} {digits : String} (h : mnemonic w = "??? 0x" ++ digits) :
    (Instruction.ofWord w).isKnown = false := by
  rcases mnemonic_cases w with ⟨-, l, hline, htext⟩ | ⟨hunknown, -⟩
  · exact absurd h (mnemonic_ne_unknown hline htext digits)
  · exact hunknown

namespace State

theorem reported?_unknownOpcode {s : State} {i : Instruction} :
    s.reported? i = some .unknownOpcode ↔ i.isKnown = false := by
  cases i with
  | unknown condition => exact ⟨fun _ => rfl, fun _ => rfl⟩
  | draw =>
    simp only [reported?, Instruction.isKnown]
    split <;> simp
  | _ => simp [reported?, Instruction.isKnown]

theorem executeWord_of_unknown (s : State) {w : Int} (h : (Instruction.ofWord w).isKnown = false) :
    (s.executeWord w).status = Status.unknownOpcode.code := by
  rw [executeWord, execute_status, reported?_unknownOpcode.2 h]
  rfl

theorem isKnown_of_executeWord {s : State} {w : Int} (hs : s.status ≠ Status.unknownOpcode.code)
    (h : (s.executeWord w).status = Status.unknownOpcode.code) :
    (Instruction.ofWord w).isKnown = false := by
  rw [executeWord, execute_status] at h
  cases hst : s.reported? (.ofWord w) with
  | none =>
    rw [hst] at h
    exact absurd h hs
  | some st =>
    rw [hst] at h
    rw [Status.code_inj h] at hst
    exact reported?_unknownOpcode.1 hst

/-- A word is refused as unknown exactly if its text has the form for unknown words. Whether it is does not
depend on the state: refused in one that has not recorded the refusal beforehand, it is refused in all. -/
theorem unknownOpcode_iff_mnemonic (w : Int) :
    (∀ s : State, s.status ≠ Status.unknownOpcode.code →
      ((s.executeWord w).status = Status.unknownOpcode.code ↔ ∃ digits, mnemonic w = "??? 0x" ++ digits)) ∧
    ((∃ digits, mnemonic w = "??? 0x" ++ digits) ↔ mnemonic w = "??? 0x" ++ hex 4 w) ∧
    (∀ s t : State, s.status ≠ Status.unknownOpcode.code →
      (s.executeWord w).status = Status.unknownOpcode.code →
      (t.executeWord w).status = Status.unknownOpcode.code) := by
  refine ⟨?_, ?_, ?_⟩
  · intro s hs
    constructor
    · intro h
      exact ⟨_, mnemonic_of_unknown (isKnown_of_executeWord hs h)⟩
    · rintro ⟨digits, h⟩
      exact executeWord_of_unknown s (isKnown_of_mnemonic h)
  · constructor
    · rintro ⟨digits, h⟩
      exact mnemonic_of_unknown (isKnown_of_mnemonic h)
    · intro h
      exact ⟨_, h⟩
  · intro s t hs h
    exact executeWord_of_unknown t (isKnown_of_executeWord hs h)

/-- A state in which a skip on V0 would ask for a key that the pad does not have. -/
def askingForNoKey : State := { initial ⟨0, 0⟩ {} with v := Vector.replicate 16 0xFF }

theorem unknownOpcode_askingForNoKey :
    mnemonic (-0x1F01) = "??? 0x-1F01" ∧
    askingForNoKey.status ≠ Status.unknownOpcode.code ∧
    (askingForNoKey.executeWord (-0x1F01)).status = Status.unknownOpcode.code ∧
    ((initial ⟨0, 0⟩ { jumpsByVX := true }).executeWord (-0x1F01)).status = Status.unknownOpcode.code := by
  have htext : mnemonic (-0x1F01) = "??? 0x-1F01" := by decide
  have hs : askingForNoKey.status ≠ Status.unknownOpcode.code := by decide
  obtain ⟨hiff, -, hall⟩ := unknownOpcode_iff_mnemonic (-0x1F01)
  have hrefused := (hiff askingForNoKey hs).2 ⟨"-1F01", htext⟩
  exact ⟨htext, hs, hrefused, hall askingForNoKey _ hs hrefused⟩

end State

/-! ## Words with the same text -/

/-- Words with the same text stand for the same instruction, or else are one word. -/
theorem ofWord_of_mnemonic_eq {v w : Int} (h : mnemonic v = mnemonic w) :
    Instruction.ofWord v = Instruction.ofWord w ∧ ((Instruction.ofWord v).isKnown = false → v = w) := by
  rcases mnemonic_cases v with ⟨hv, l, hline, htext⟩ | ⟨hv, htext⟩
  · rcases mnemonic_cases w with ⟨-, l', hline', htext'⟩ | ⟨-, htext'⟩
    · have hread := Instruction.read?_of_line? hline htext
      rw [h, Instruction.read?_of_line? hline' htext'] at hread
      refine ⟨(Option.some.inj hread).symm, fun hno => ?_⟩
      rw [hno] at hv
      cases hv
    · rw [← h] at htext'
      exact absurd htext' (mnemonic_ne_unknown hline htext _)
  · have hw : mnemonic w = "??? 0x" ++ hex 4 v := by rw [← h, htext]
    rw [mnemonic_of_unknown (isKnown_of_mnemonic hw), String.append_right_inj] at hw
    obtain rfl := hex_inj hw
    exact ⟨rfl, fun _ => rfl⟩

theorem mnemonic_injOn : Set.InjOn mnemonic { w | 0 ≤ w ∧ w ≤ 0xFFFF } := by
  rintro v ⟨hv0, hv1⟩ w ⟨hw0, hw1⟩ h
  obtain ⟨hsame, hunknown⟩ := ofWord_of_mnemonic_eq h
  cases hknown : (Instruction.ofWord v).isKnown with
  | false => exact hunknown hknown
  | true =>
    obtain ⟨a, rfl⟩ := Int.eq_ofNat_of_zero_le hv0
    obtain ⟨b, rfl⟩ := Int.eq_ofNat_of_zero_le hw0
    have ha := Instruction.encode?_of_hasWord (Instruction.hasWord_ofWord (w := a) (by omega)) hknown
    rw [hsame] at hknown ha
    have hb := Instruction.encode?_of_hasWord (Instruction.hasWord_ofWord (w := b) (by omega)) hknown
    rw [ha] at hb
    exact congrArg Int.ofNat (Option.some.inj hb)

/-! ## Lines of the trace -/

/-- The line of the trace for a word at an address. -/
def Entry.exec (address word : Nat) : Entry :=
  ⟨.debug, "EXEC 0x" ++ hex 3 address ++ " " ++ hex 4 word ++ " " ++ mnemonic word⟩

theorem Machine.trace_eq (m : Machine) :
    m.trace = if m.console.threshold = .debug ∧ m.state.pc.toNat + 1 < memorySize then
      [.exec m.state.pc.toNat m.state.word] else [] := by
  have hlevel : m.console.threshold.rank ≤ Level.debug.rank ↔ m.console.threshold = .debug := by
    cases m.console.threshold <;> decide
  unfold trace State.fetchesOutside
  simp only [note_eq, hlevel, decide_eq_true_eq, Memory.toNat_word]
  by_cases hpc : m.state.pc.toNat + 1 < memorySize
  · rw [if_neg (Nat.not_le.2 hpc)]
    simp only [hpc, and_true]
    rfl
  · rw [if_pos (Nat.not_lt.1 hpc), if_neg (fun h => hpc h.2)]

/-- A line is written for a word inside memory only, whose address fits the three digits of its column. -/
theorem message_of_mem_trace {m : Machine} {e : Entry} (h : e ∈ m.trace) :
    m.state.pc.toNat < 0x1000 ∧
    e.message = "EXEC 0x" ++ hex 3 m.state.pc.toNat ++ " " ++ hex 4 m.state.word ++ " " ++
      mnemonic m.state.word := by
  rw [Machine.trace_eq] at h
  split at h
  · rename_i hline
    rw [List.mem_singleton.1 h]
    exact ⟨Nat.lt_of_succ_lt hline.2, rfl⟩
  · cases h

theorem length_hex {width n : Nat} (hw : 0 < width) (h : n < 16 ^ width) :
    (hex width n).toList.length = width := by
  rw [toList_hex_natCast, length_leftpad_of_lt hw h]

/-- A line of the trace shows the word at the program counter. -/
theorem mnemonic_of_trace_eq {m m' : Machine} {e e' : Entry} (h : e ∈ m.trace) (h' : e' ∈ m'.trace)
    (hmessage : e.message = e'.message) : mnemonic m.state.word = mnemonic m'.state.word := by
  obtain ⟨hpc, hm⟩ := message_of_mem_trace h
  obtain ⟨hpc', hm'⟩ := message_of_mem_trace h'
  rw [hm, hm', ← String.toList_inj] at hmessage
  simp only [String.toList_append, List.append_assoc, List.append_right_inj] at hmessage
  have hcolumn : (hex 3 m.state.pc.toNat).toList.length = (hex 3 m'.state.pc.toNat).toList.length := by
    rw [length_hex (by decide) hpc, length_hex (by decide) hpc']
  have hcolumn' : (hex 4 m.state.word).toList.length = (hex 4 m'.state.word).toList.length := by
    rw [length_hex (by decide) m.state.word_lt, length_hex (by decide) m'.state.word_lt]
  have hrest := (List.append_inj hmessage hcolumn).2
  rw [List.append_right_inj] at hrest
  have htext := (List.append_inj hrest hcolumn').2
  rw [List.append_right_inj] at htext
  exact String.toList_inj.1 htext

/-- Words with the same text have the same effect on every state, of the words of sixteen bits no two have the
same text, and a line of the trace belongs to one word. -/
theorem mnemonic_identifies :
    (∀ v w : Int, mnemonic v = mnemonic w → ∀ s : State, s.executeWord v = s.executeWord w) ∧
    Set.InjOn mnemonic { w | 0 ≤ w ∧ w ≤ 0xFFFF } ∧
    ∀ (m m' : Machine) (e e' : Entry), e ∈ m.trace → e' ∈ m'.trace → e.message = e'.message →
      m.state.word = m'.state.word := by
  refine ⟨?_, mnemonic_injOn, ?_⟩
  · intro v w h s
    rw [State.executeWord, (ofWord_of_mnemonic_eq h).1, State.executeWord]
  · intro m m' e e' he he' hmessage
    have hrange (s : State) : 0 ≤ (s.word : Int) ∧ (s.word : Int) ≤ 0xFFFF := by
      have hlt := s.word_lt
      constructor <;> omega
    have htext := mnemonic_of_trace_eq he he' hmessage
    exact Int.ofNat.inj (mnemonic_injOn (hrange m.state) (hrange m'.state) htext)

/-- A machine that writes its trace, before the word 6001. -/
def tracing : Machine where
  state := { State.initial ⟨0, 0⟩ {} with
    memory := Memory.blank.writeBlock programStart [0x60, 0x01], programEnd := 0x202 }
  clock := ⟨600, 60, by decide⟩
  console := ⟨"chip8", .debug, false, none⟩

theorem mnemonic_identifies_tracing :
    mnemonic 0x16001 = mnemonic 0x6001 ∧
    State.askingForNoKey.executeWord 0x16001 = State.askingForNoKey.executeWord 0x6001 ∧
    mnemonic 0x6001 ≠ mnemonic 0x7001 ∧
    ⟨.debug, "EXEC 0x200 6001 LD V0, 0x01"⟩ ∈ tracing.trace ∧
    ⟨.debug, "EXEC 0x200 6001 LD V0, 0x01"⟩ ∈ (tracing.press 3).machine.trace ∧
    tracing.state.word = (tracing.press 3).machine.state.word := by
  have htext : mnemonic 0x16001 = mnemonic 0x6001 := by decide
  have hset : (0 : Int) ≤ 0x6001 ∧ (0x6001 : Int) ≤ 0xFFFF := by decide
  have hadd : (0 : Int) ≤ 0x7001 ∧ (0x7001 : Int) ≤ 0xFFFF := by decide
  have hline : ⟨.debug, "EXEC 0x200 6001 LD V0, 0x01"⟩ ∈ tracing.trace := by decide +kernel
  have hline' : ⟨.debug, "EXEC 0x200 6001 LD V0, 0x01"⟩ ∈ (tracing.press 3).machine.trace := by
    decide +kernel
  obtain ⟨hsame, hinj, htrace⟩ := mnemonic_identifies
  refine ⟨htext, hsame _ _ htext State.askingForNoKey, fun h => ?_, hline, hline',
    htrace _ _ _ _ hline hline' rfl⟩
  exact absurd (hinj hset hadd h) (by decide)

end ChipEight
