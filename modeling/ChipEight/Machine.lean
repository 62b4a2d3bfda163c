/-
The machine as its host sees it: a state, a clock and a console. Every operation gives its result,
or the failure that stands in its place, the machine after it, and the messages that the console
has let through.
-/
import ChipEight.Console
import ChipEight.Cycle
import ChipEight.Instruction.Mnemonic

namespace ChipEight

open Layout Text

/-! ## Clock -/

/-- The rates of execution and of the timers, in hertz; the timers are not the faster ones. -/
structure Clock where
  instructionHz : Int
  timerHz : Int
  timerHz_le : timerHz ≤ instructionHz
deriving DecidableEq

namespace Clock

/-- The refusal of a rate of execution below that of the timers. -/
structure TooSlow where
  instructionHz : Int
  timerHz : Int
deriving DecidableEq

def TooSlow.message (e : TooSlow) : String :=
  "instruction_frequency (" ++ toString e.instructionHz ++ ") must be at least timer_frequency (" ++
    toString e.timerHz ++ ")"

def ofRates (instructionHz timerHz : Int) : Except TooSlow Clock :=
  if h : timerHz ≤ instructionHz then .ok ⟨instructionHz, timerHz, h⟩
  else .error ⟨instructionHz, timerHz⟩

/-- The number of instructions between two ticks, rounded down; a rate of zero has no ticks. -/
def frameLength? (c : Clock) : Option Int :=
  if c.timerHz = 0 then none else some (c.instructionHz.fdiv c.timerHz)

end Clock

/-! ## Machines -/

structure Machine where
  state : State
  clock : Clock
  console : Console

structure Entry where
  level : Level
  message : String
deriving DecidableEq

/-- The effect of an operation of the host. -/
structure Outcome (α : Type) where
  result : Except Failure α
  machine : Machine
  log : List Entry

namespace Machine

inductive SetupError
  | rates (e : Clock.TooSlow)
  | seed (given : Int)
deriving DecidableEq

/-- A machine at its start. The rates are looked at before the seed. -/
def create (console : Console) (dialect : Dialect) (instructionHz timerHz seed : Int) :
    Except SetupError Machine :=
  match Clock.ofRates instructionHz timerHz, Threefry.Key.ofSeed? seed with
  | .error e, _ => .error (.rates e)
  | .ok _, none => .error (.seed seed)
  | .ok clock, some key => .ok { state := .initial key dialect, clock, console }

/-! ## Messages -/

/-- The entry of a message, if the console lets it through. -/
def note (m : Machine) (level : Level) (message : String) : List Entry :=
  if m.console.enables level.name then [⟨level, message⟩] else []

/-- The text that the console shows for an entry; lines without stamps do not depend on the time. -/
def lineOf (m : Machine) (now : Float) (e : Entry) : String :=
  m.console.line now e.level.name e.message

/-- The word at the program counter with its text, unless it reaches past the end of memory. -/
def trace (m : Machine) : List Entry :=
  if m.state.fetchesOutside then []
  else
    let word := (m.state.memory.word m.state.pc.toNat).toNat
    m.note .debug
      ("EXEC 0x" ++ hex 3 m.state.pc.toNat ++ " " ++ hex 4 word ++ " " ++ mnemonic word)

def complain (m : Machine) : Except Failure Status → List Entry
  | .error (.fault f) => m.note .error f.message
  | _ => []

/-! ## Operations -/

/-- Loads a program; one that is too large leaves the machine as it is. -/
def load (m : Machine) (program : List UInt8) : Outcome Unit :=
  match m.state.load program with
  | .ok state =>
    ⟨.ok (), { m with state },
      m.note .info ("Loaded program of " ++ toString program.length ++ " bytes")⟩
  | .error f => ⟨.error (.fault f), m, m.note .error f.message⟩

def step (m : Machine) : Outcome Status :=
  let after := { m with state := m.state.step }
  let verdict := after.state.verdict
  ⟨verdict, after, m.trace ++ after.complain verdict⟩

def tick (m : Machine) : Machine := { m with state := m.state.tick }

/-- Executes the instructions between two ticks, and then ticks, unless they end in an error. -/
def frame (m : Machine) : Outcome Status :=
  match m.clock.frameLength? with
  | none => ⟨.error .noTimerRate, m, []⟩
  | some n =>
    let batch := m.state.run n
    let after := { m with state := batch.state }
    let verdict := after.state.verdict
    let log := m.note .debug ("Frame executed " ++ toString batch.executed ++ " instructions")
    ⟨verdict, if verdict.isOk then after.tick else after, log ++ after.complain verdict⟩

def reset (m : Machine) : Outcome Unit :=
  ⟨.ok (), { m with state := m.state.reset }, m.note .info "Machine reset"⟩

/-- Marks a key as held down or as released; there are no keys but 0 to 15. -/
def setKey (m : Machine) (key : Int) (down : Bool) : Outcome Unit :=
  if h : 0 ≤ key ∧ key < keyCount then
    let k : Fin keyCount := ⟨key.toNat, by omega⟩
    ⟨.ok (), { m with state := m.state.setKey k down },
      m.note .debug ((if down then "KEY PRESS: " else "KEY RELEASE: ") ++ hex 1 key)⟩
  else ⟨.error (.noSuchKey key), m, []⟩

def press (m : Machine) (key : Int) : Outcome Unit := m.setKey key true

def release (m : Machine) (key : Int) : Outcome Unit := m.setKey key false

/-! ## Queries -/

def frameLength (m : Machine) : Except Failure Int :=
  match m.clock.frameLength? with
  | some n => .ok n
  | none => .error .noTimerRate

/-- A tone sounds while the sound timer runs. -/
def soundActive (m : Machine) : Bool := 0 < m.state.sound

/-- The outcome of the last step. -/
def status (m : Machine) : Except Failure Status := Status.ofCode m.state.status.toNat

end Machine

end ChipEight
