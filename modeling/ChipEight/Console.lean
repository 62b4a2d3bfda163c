/-
A console that prints messages from a level on, with the level in front and, if wanted, the time
since the console was set up and colours.
-/
import ChipEight.Text.Basic
import ChipEight.Text.Fixed

namespace ChipEight

open Text

/-! ## Levels -/

inductive Level
  | debug
  | info
  | warning
  | error
  | critical
deriving DecidableEq

namespace Level

def all : List Level := [debug, info, warning, error, critical]

def name : Level → String
  | debug => "DEBUG"
  | info => "INFO"
  | warning => "WARNING"
  | error => "ERROR"
  | critical => "CRITICAL"

def rank : Level → Nat
  | debug => 0
  | info => 1
  | warning => 2
  | error => 3
  | critical => 4

/-- The number of the level's colour in the escape code of a terminal. -/
def colour : Level → Nat
  | debug => 36
  | info => 32
  | warning => 33
  | error => 31
  | critical => 35

end Level

/--
The capital of a letter whose capital is a letter of ASCII: the small letters of ASCII, the dotless
i and the long s. Other characters, no matter what their capital is, cannot be part of a level's
name and stay as they are.
-/
def asciiCapital (c : Char) : Char :=
  if c = 'ı' then 'I' else if c = 'ſ' then 'S' else c.toUpper

/-- Whether two texts agree up to the case of their letters; `name` is in capitals. -/
def spells (label name : String) : Bool := label.toList.map asciiCapital = name.toList

def Level.ofName? (label : String) : Option Level := all.find? fun l => spells label l.name

/-- A level by the name it is called with, which need not be one of the five. -/
def rankOf (label : String) : Nat := ((Level.ofName? label).getD .info).rank

/-! ## Consoles -/

structure Console where
  name : String
  /-- Messages below this level are not printed. -/
  threshold : Level
  coloured : Bool
  /-- The time that stamps count from; without it lines have no stamp. -/
  since? : Option Float

namespace Console

structure UnknownLevel where
  label : String
deriving DecidableEq

def UnknownLevel.message (e : UnknownLevel) : String :=
  "Unknown log level '" ++ e.label ++ "'. Available: [" ++
    ", ".intercalate (Level.all.map fun l => "'" ++ l.name ++ "'") ++ "]"

/--
A console whose threshold is given by name, set up at the time `now`. Its lines have colours if they
are wanted and the console is a terminal, and stamps if they are wanted.
-/
def create (name threshold : String) (colours terminal stamps : Bool) (now : Float) :
    Except UnknownLevel Console :=
  match Level.ofName? threshold with
  | some level =>
    .ok { name, threshold := level, coloured := colours && terminal,
          since? := if stamps then some now else none }
  | none => .error ⟨threshold⟩

/-- Whether messages of the level are printed; a name that is no level counts as INFO. -/
def enables (c : Console) (label : String) : Bool := c.threshold.rank ≤ rankOf label

/-! ## Lines -/

def escape (colour : Nat) : String := "\x1b[" ++ toString colour ++ "m"

/-- The code that ends a colour. It also starts one, the plain one, for messages called RESET. -/
def plainColour : Nat := 0

def colourOf? (label : String) : Option Nat :=
  match Level.ofName? label with
  | some level => some level.colour
  | none => if spells label "RESET" then some plainColour else none

/-- The level in brackets, as it was called, aligned to the longest name of a level. -/
def tag (c : Console) (label : String) : String :=
  let bracketed := "[" ++ alignRight 8 label ++ "]"
  if c.coloured then
    ((colourOf? label).map escape).getD "" ++ bracketed ++ escape plainColour
  else bracketed

/-- The time since the console was set up, in seconds with two places. -/
def stamp (c : Console) (now : Float) : String :=
  match c.since? with
  | some since => "[" ++ alignRight 8 (fixed 2 (now - since)) ++ "s]"
  | none => ""

def line (c : Console) (now : Float) (label message : String) : String :=
  c.stamp now ++ c.tag label ++ "[" ++ c.name ++ "] " ++ message

/-- What is printed for a message: its line, if the level is enabled, and else nothing. -/
def print (c : Console) (now : Float) (label message : String) : String :=
  if c.enables label then c.line now label message ++ "\n" else ""

end Console

/-! ## Names and levels -/

theorem Level.ofName?_name (l : Level) : ofName? l.name = some l := by
  cases l <;> decide

end ChipEight
