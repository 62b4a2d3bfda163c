/-
Lines of assembly language read back. The text of an instruction is a name and a list of operands, set apart
by spaces and commas, which occur in neither. So the line can be cut up again (`Line.read_text`), each operand
is known by its first characters (`Operand.read_text`), and a name with its operands belongs to one
instruction: `Instruction.read?` finds back every instruction of the set from its text.
-/
import ChipEight.Instruction.Mnemonic
import ChipEight.Layout
import ChipEight.Proofs.Encoding
import ChipEight.Proofs.Hexadecimal

namespace ChipEight

open Layout Text

/-- The text has no character that sets the parts of a line apart. -/
def Unbroken (text : List Char) : Prop := ' ' ∉ text ∧ ',' ∉ text

instance (text : List Char) : Decidable (Unbroken text) := inferInstanceAs (Decidable (_ ∧ _))

theorem unbroken_of_digits {digits : List Char} (h : ∀ c ∈ digits, c ∈ hexAlphabet) : Unbroken digits := by
  have hspace : ' ' ∉ hexAlphabet := by decide
  have hcomma : ',' ∉ hexAlphabet := by decide
  exact ⟨fun hc => hspace (h _ hc), fun hc => hcomma (h _ hc)⟩

theorem unbroken_cons {c : Char} {text : List Char} (hspace : ' ' ≠ c) (hcomma : ',' ≠ c)
    (h : Unbroken text) : Unbroken (c :: text) :=
  ⟨List.not_mem_cons_of_ne_of_not_mem hspace h.1, List.not_mem_cons_of_ne_of_not_mem hcomma h.2⟩

/-! ## Operands -/

/-- What an operation is applied to. -/
inductive Operand
  | register (x : Nibble)
  | byte (byte : UInt8)
  | target (target : Target)
  | count (rows : Nibble)
  | index
  /-- The memory at I. -/
  | block
  | delay
  | sound
  | key
  | glyph
  | decimal
deriving DecidableEq

namespace Operand

def text : Operand → String
  | register x => registerName x
  | byte b => byteText b.toNat
  | target t => targetText t
  | count rows => toString rows.val
  | index => "I"
  | block => "[I]"
  | delay => "DT"
  | sound => "ST"
  | key => "K"
  | glyph => "F"
  | decimal => "B"

/-- The operand of a text. Of the numbers, those in hexadecimal are told apart by their width. -/
def read : List Char → Operand
  | 'V' :: digits => register (rowsOf (hexValue digits))
  | '0' :: 'x' :: digits =>
    if digits.length = 2 then byte (byteOf (hexValue digits)) else target (targetOf (hexValue digits))
  | ['I'] => index
  | ['[', 'I', ']'] => block
  | ['D', 'T'] => delay
  | ['S', 'T'] => sound
  | ['K'] => key
  | ['F'] => glyph
  | ['B'] => decimal
  | digits => count (rowsOf (Nat.ofDigitChars 10 digits 0))

theorem toList_byteText (b : Nat) :
    (byteText b).toList = '0' :: 'x' :: List.leftpad 2 '0' (hexDigits b) := by
  rw [byteText, String.toList_append, toList_hex_natCast]
  rfl

theorem toList_targetText (t : Target) :
    (targetText t).toList = '0' :: 'x' :: List.leftpad 3 '0' (hexDigits t.val) := by
  rw [targetText, String.toList_append, toList_hex_natCast]
  rfl

theorem byteOf_toNat (b : UInt8) : byteOf b.toNat = b := by
  rw [byteOf, Nat.mod_eq_of_lt b.toNat_lt, UInt8.ofNat_toNat]

theorem targetOf_val (t : Target) : targetOf t.val = t := Fin.ext (Nat.mod_eq_of_lt t.isLt)

theorem read_text (o : Operand) : read o.text.toList = o := by
  cases o with
  | register x =>
    revert x
    decide
  | byte b =>
    have hlength := length_leftpad_of_lt (show 0 < 2 by decide) b.toNat_lt
    rw [text, toList_byteText, read, if_pos hlength, hexValue_leftpad, byteOf_toNat]
  | target t =>
    have hlength := length_leftpad_of_lt (show 0 < 3 by decide) t.isLt
    rw [text, toList_targetText, read, if_neg (by rw [hlength]; decide), hexValue_leftpad, targetOf_val]
  | count rows =>
    revert rows
    decide
  | _ => rfl

theorem unbroken_number {width : Nat} (n : Nat) :
    Unbroken ('0' :: 'x' :: List.leftpad width '0' (hexDigits n)) := by
  have hdigits : Unbroken (List.leftpad width '0' (hexDigits n)) :=
    unbroken_of_digits fun c hc => mem_leftpad hc
  exact unbroken_cons (by decide) (by decide) (unbroken_cons (by decide) (by decide) hdigits)

theorem text_unbroken (o : Operand) : Unbroken o.text.toList := by
  cases o with
  | register x =>
    revert x
    decide
  | byte b =>
    rw [text, toList_byteText]
    exact unbroken_number b.toNat
  | target t =>
    rw [text, toList_targetText]
    exact unbroken_number t.val
  | count rows =>
    revert rows
    decide
  | _ => decide

end Operand

/-! ## Lines -/

/-- The parts of the text of an instruction. -/
structure Line where
  name : String
  operands : List Operand

namespace Line

/-- The operands as they stand in a line, all but the last with a comma behind them. -/
def listed : List Operand → List (List Char)
  | [] => []
  | [o] => [o.text.toList]
  | o :: rest => (o.text.toList ++ [',']) :: listed rest

def text (l : Line) : List Char := [' '].intercalate (l.name.toList :: listed l.operands)

@[simp] theorem text_alone (name : String) : text ⟨name, []⟩ = name.toList := by
  simp [text, listed]

@[simp] theorem text_one (name : String) (o : Operand) :
    text ⟨name, [o]⟩ = name.toList ++ ' ' :: o.text.toList := by
  simp [text, listed]

@[simp] theorem text_two (name : String) (o o' : Operand) :
    text ⟨name, [o, o']⟩ = name.toList ++ ' ' :: (o.text.toList ++ ',' :: ' ' :: o'.text.toList) := by
  simp [text, listed]

@[simp] theorem text_three (name : String) (o o' last : Operand) :
    text ⟨name, [o, o', last]⟩ = name.toList ++ ' ' ::
      (o.text.toList ++ ',' :: ' ' :: (o'.text.toList ++ ',' :: ' ' :: last.text.toList)) := by
  simp [text, listed]

/-- Cuts a text at its spaces, and each part at its comma if it has one. -/
def read (text : List Char) : Line :=
  match (text.splitOn ' ').map (·.takeWhile (· != ',')) with
  | [] => ⟨"", []⟩
  | name :: operands => ⟨String.ofList name, operands.map Operand.read⟩

/-- An unbroken text is what stands before a comma behind it, if there is one. -/
theorem takeWhile_comma {text : List Char} (h : Unbroken text) :
    (text ++ [',']).takeWhile (· != ',') = text ∧ text.takeWhile (· != ',') = text := by
  have hall : ∀ c ∈ text, (c != ',') = true := by
    intro c hc
    exact bne_iff_ne.2 fun hcomma => h.2 (hcomma ▸ hc)
  constructor
  · rw [List.takeWhile_append_of_pos hall]
    exact List.append_nil text
  · have hend : (text ++ []).takeWhile (· != ',') = text ++ [] := List.takeWhile_append_of_pos hall
    rwa [List.append_nil] at hend

theorem space_notMem_listed (operands : List Operand) : ∀ part ∈ listed operands, ' ' ∉ part := by
  fun_induction listed operands with
  | case1 => simp
  | case2 o => simpa using o.text_unbroken.1
  | case3 o rest _ ih =>
    intro part hpart
    rcases List.mem_cons.1 hpart with rfl | hpart
    · simpa using o.text_unbroken.1
    · exact ih part hpart

theorem read_listed (operands : List Operand) :
    (listed operands).map (fun part => Operand.read (part.takeWhile (· != ','))) = operands := by
  fun_induction listed operands with
  | case1 => rfl
  | case2 o =>
    rw [List.map_singleton, (takeWhile_comma o.text_unbroken).2, Operand.read_text]
  | case3 o rest _ ih =>
    rw [List.map_cons, (takeWhile_comma o.text_unbroken).1, Operand.read_text, ih]

theorem read_text {l : Line} (hname : Unbroken l.name.toList) : read l.text = l := by
  have hparts : ∀ part ∈ l.name.toList :: listed l.operands, ' ' ∉ part := by
    intro part hpart
    rcases List.mem_cons.1 hpart with rfl | hpart
    · exact hname.1
    · exact space_notMem_listed l.operands part hpart
  rw [read, text, List.splitOn_intercalate ' ' hparts (List.cons_ne_nil _ _), List.map_cons]
  simp only [List.map_map, Function.comp_def]
  rw [read_listed, (takeWhile_comma hname).2, String.ofList_toList]

end Line

/-! ## Instructions -/

namespace AluOp

def all : List AluOp := [set, or, and, xor, add, sub, shiftRight, subFrom, shiftLeft]

def name : AluOp → String
  | set => "LD"
  | or => "OR"
  | and => "AND"
  | xor => "XOR"
  | add => "ADD"
  | sub => "SUB"
  | shiftRight => "SHR"
  | subFrom => "SUBN"
  | shiftLeft => "SHL"

def ofName? (text : String) : Option AluOp := all.find? fun op => op.name = text

end AluOp

namespace Instruction

/-- The line of an instruction that the set knows. -/
def line? : Instruction → Option Line
  | clear => some ⟨"CLS", []⟩
  | ret => some ⟨"RET", []⟩
  | machineRoutine t => some ⟨"SYS", [.target t]⟩
  | jump t => some ⟨"JP", [.target t]⟩
  | call t => some ⟨"CALL", [.target t]⟩
  | skip (.byteEqual x b) => some ⟨"SE", [.register x, .byte b]⟩
  | skip (.byteUnequal x b) => some ⟨"SNE", [.register x, .byte b]⟩
  | skip (.equal x y) => some ⟨"SE", [.register x, .register y]⟩
  | skip (.unequal x y) => some ⟨"SNE", [.register x, .register y]⟩
  | skip (.keyDown x) => some ⟨"SKP", [.register x]⟩
  | skip (.keyUp x) => some ⟨"SKNP", [.register x]⟩
  | setByte x b => some ⟨"LD", [.register x, .byte b]⟩
  | addByte x b => some ⟨"ADD", [.register x, .byte b]⟩
  | compute op x y => some ⟨op.name, [.register x, .register y]⟩
  | setIndex t => some ⟨"LD", [.index, .target t]⟩
  | jumpBy t => some ⟨"JP", [.register jumpOffsetRegister, .target t]⟩
  | random x mask => some ⟨"RND", [.register x, .byte mask]⟩
  | draw x y rows => some ⟨"DRW", [.register x, .register y, .count rows]⟩
  | readDelay x => some ⟨"LD", [.register x, .delay]⟩
  | awaitKey x => some ⟨"LD", [.register x, .key]⟩
  | setDelay x => some ⟨"LD", [.delay, .register x]⟩
  | setSound x => some ⟨"LD", [.sound, .register x]⟩
  | addIndex x => some ⟨"ADD", [.index, .register x]⟩
  | glyph x => some ⟨"LD", [.glyph, .register x]⟩
  | decimal x => some ⟨"LD", [.decimal, .register x]⟩
  | store x => some ⟨"LD", [.block, .register x]⟩
  | load x => some ⟨"LD", [.register x, .block]⟩
  | unknown _ => none

/-- The instruction of a line. What a name means depends on the operands behind it. -/
def ofLine? (l : Line) : Option Instruction :=
  match l.name, l.operands with
  | "CLS", [] => some clear
  | "RET", [] => some ret
  | "SYS", [.target t] => some (machineRoutine t)
  | "JP", [.target t] => some (jump t)
  | "JP", [.register _, .target t] => some (jumpBy t)
  | "CALL", [.target t] => some (call t)
  | "SE", [.register x, .byte b] => some (skip (.byteEqual x b))
  | "SNE", [.register x, .byte b] => some (skip (.byteUnequal x b))
  | "SE", [.register x, .register y] => some (skip (.equal x y))
  | "SNE", [.register x, .register y] => some (skip (.unequal x y))
  | "SKP", [.register x] => some (skip (.keyDown x))
  | "SKNP", [.register x] => some (skip (.keyUp x))
  | "LD", [.register x, .byte b] => some (setByte x b)
  | "ADD", [.register x, .byte b] => some (addByte x b)
  | "RND", [.register x, .byte mask] => some (random x mask)
  | "DRW", [.register x, .register y, .count rows] => some (draw x y rows)
  | "LD", [.index, .target t] => some (setIndex t)
  | "LD", [.register x, .delay] => some (readDelay x)
  | "LD", [.register x, .key] => some (awaitKey x)
  | "LD", [.delay, .register x] => some (setDelay x)
  | "LD", [.sound, .register x] => some (setSound x)
  | "ADD", [.index, .register x] => some (addIndex x)
  | "LD", [.glyph, .register x] => some (glyph x)
  | "LD", [.decimal, .register x] => some (decimal x)
  | "LD", [.block, .register x] => some (store x)
  | "LD", [.register x, .block] => some (load x)
  | name, [.register x, .register y] => (AluOp.ofName? name).map (compute · x y)
  | _, _ => none

/-- The instruction that a text is the text of. -/
def read? (text : String) : Option Instruction := ofLine? (.read text.toList)

theorem line?_isSome (i : Instruction) : i.line?.isSome = i.isKnown := by
  cases i with
  | skip condition => cases condition <;> rfl
  | _ => rfl

theorem ofLine?_of_line? {i : Instruction} {l : Line} (h : i.line? = some l) : ofLine? l = some i := by
  cases i with
  | skip condition =>
    cases condition <;> cases h <;> rfl
  | compute op x y =>
    cases op <;> cases h <;> rfl
  | unknown => cases h
  | _ =>
    cases h
    rfl

theorem unbroken_name {i : Instruction} {l : Line} (h : i.line? = some l) : Unbroken l.name.toList := by
  cases i with
  | skip condition =>
    cases condition <;> cases h <;> dsimp only <;> decide
  | compute op x y =>
    cases h
    cases op <;> dsimp only <;> decide
  | unknown => cases h
  | _ =>
    cases h
    dsimp only
    decide

/-- Every instruction of the set can be read back from its line. -/
theorem read?_of_line? {i : Instruction} {l : Line} {text : String} (h : i.line? = some l)
    (htext : text.toList = l.text) : read? text = some i := by
  rw [read?, htext, Line.read_text (unbroken_name h), ofLine?_of_line? h]

end Instruction

end ChipEight
