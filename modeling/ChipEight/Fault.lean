/-
What can go wrong: faults of a program, which name the instruction at fault, and failures of a call
by the host, of which a fault is one.
-/
import ChipEight.Status
import ChipEight.Text.Basic

namespace ChipEight

open Text

/-- A fatal error of a program or of loading one. -/
inductive Fault
  | general (message : String)
  | tooLarge (size capacity : Int)
  | unknownOpcode (opcode address : Int)
  | stackOverflow (address : Int)
  | stackUnderflow (address : Int)
  | outOfBounds (address index : Int)
deriving DecidableEq

/-- The text of a fault: addresses in three hexadecimal digits, words and the index in four. -/
def Fault.message : Fault → String
  | general message => message
  | tooLarge size capacity =>
    "Program of " ++ toString size ++ " bytes exceeds the " ++ toString capacity ++ " bytes available"
  | unknownOpcode opcode address =>
    "Unknown instruction 0x" ++ hex 4 opcode ++ " at 0x" ++ hex 3 address
  | stackOverflow address => "Stack overflow at 0x" ++ hex 3 address
  | stackUnderflow address => "Stack underflow at 0x" ++ hex 3 address
  | outOfBounds address index =>
    "Out of bounds memory access at 0x" ++ hex 3 address ++ " (I=0x" ++ hex 4 index ++ ")"

/-- The reason why a call by the host has no result. -/
inductive Failure
  | fault (f : Fault)
  | invalidStatus (code : Int)
  | noSuchKey (key : Int)
  | noTimerRate
deriving DecidableEq

def Failure.message : Failure → String
  | fault f => f.message
  | invalidStatus code => toString code ++ " is not a valid StepStatus"
  | noSuchKey key => "Key must be in range 0x0-0xF, got " ++ toString key
  | noTimerRate => "integer division or modulo by zero"

/-- The outcome that a number stands for; a number that stands for none is refused. -/
def Status.ofCode (code : Int) : Except Failure Status :=
  match Status.ofCode? code with
  | some st => .ok st
  | none => .error (.invalidStatus code)

end ChipEight
