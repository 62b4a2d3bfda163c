/-
The text of an instruction word in assembly language. It is read off the fields of the word, family by
family, with tables of its own for the families 8 and F, and without regard to what the word does.
-/
import ChipEight.Instruction.Fields
import ChipEight.Text.Basic

namespace ChipEight

open Text

/-! ## Parts of a line -/

/-- The register of a field: V and one digit. -/
def registerName (x : Nibble) : String := "V" ++ hex 1 x.val

def byteText (byte : Nat) : String := "0x" ++ hex 2 byte

def targetText (target : Target) : String := "0x" ++ hex 3 target.val

/-- The names of the operations on two registers, by the last digit of the word. -/
def operationNames : List (Nat × String) :=
  [ (0x0, "LD"), (0x1, "OR"), (0x2, "AND"), (0x3, "XOR"), (0x4, "ADD"),
    (0x5, "SUB"), (0x6, "SHR"), (0x7, "SUBN"), (0xE, "SHL") ]

/-- The lines of the family F, by the lowest byte of the word: what stands before the register and behind it. -/
def miscForms : List (Nat × String × String) :=
  [ (0x07, "LD ", ", DT"),
    (0x0A, "LD ", ", K"),
    (0x15, "LD DT, ", ""),
    (0x18, "LD ST, ", ""),
    (0x1E, "ADD I, ", ""),
    (0x29, "LD F, ", ""),
    (0x33, "LD B, ", ""),
    (0x55, "LD [I], ", ""),
    (0x65, "LD ", ", [I]") ]

/-! ## Lines -/

/-- The text of a word that the formatter does not know, which shows the word whole. -/
def unknownText (w : Int) : String := "??? 0x" ++ hex 4 w

/-- The text of any word. The two instructions without operands are looked for before the family. -/
def mnemonic (w : Int) : String :=
  let f := Fields.ofWord w
  let x := registerName f.x
  let y := registerName f.y
  if w = 0x00E0 then "CLS"
  else if w = 0x00EE then "RET"
  else match f.opcode.val with
  | 0x0 => "SYS " ++ targetText f.nnn
  | 0x1 => "JP " ++ targetText f.nnn
  | 0x2 => "CALL " ++ targetText f.nnn
  | 0x3 => "SE " ++ x ++ ", " ++ byteText f.nn
  | 0x4 => "SNE " ++ x ++ ", " ++ byteText f.nn
  | 0x5 => if f.n.val = 0 then "SE " ++ x ++ ", " ++ y else unknownText w
  | 0x6 => "LD " ++ x ++ ", " ++ byteText f.nn
  | 0x7 => "ADD " ++ x ++ ", " ++ byteText f.nn
  | 0x8 =>
    match operationNames.lookup f.n.val with
    | some name => name ++ " " ++ x ++ ", " ++ y
    | none => unknownText w
  | 0x9 => if f.n.val = 0 then "SNE " ++ x ++ ", " ++ y else unknownText w
  | 0xA => "LD I, " ++ targetText f.nnn
  | 0xB => "JP V0, " ++ targetText f.nnn
  | 0xC => "RND " ++ x ++ ", " ++ byteText f.nn
  | 0xD => "DRW " ++ x ++ ", " ++ y ++ ", " ++ toString f.n.val
  | 0xE =>
    if f.nn.val = 0x9E then "SKP " ++ x
    else if f.nn.val = 0xA1 then "SKNP " ++ x
    else unknownText w
  | _ =>
    match miscForms.lookup f.nn.val with
    | some (before, behind) => before ++ x ++ behind
    | none => unknownText w

end ChipEight
