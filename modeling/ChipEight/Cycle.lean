/-
The cycle of the machine: fetching a word, making a step, running a batch of steps and ticking the
timers. A step that ends in an error has no effect but its outcome. A run is a loop over a number of
turns, of which those behind the first outcome that is neither OK nor DRAW do nothing.
-/
import ChipEight.Execute

namespace ChipEight

open Layout

/-! ## Loops -/

section

variable {σ β γ : Type}

/-- One turn of a loop, with what the turns before it have put out. -/
def scanTurn (body : σ → β → σ × γ) (r : σ × Array γ) (x : β) : σ × Array γ :=
  let next := body r.1 x
  (next.1, r.2.push next.2)

/-- Runs `body` over the elements: the state behind the last turn, and what the turns put out. -/
def scan (body : σ → β → σ × γ) (xs : List β) (s : σ) : σ × List γ :=
  let r := xs.foldl (scanTurn body) (s, #[])
  (r.1, r.2.toList)

theorem foldl_scanTurn (body : σ → β → σ × γ) (xs : List β) (s : σ) (outputs : Array γ) :
    xs.foldl (scanTurn body) (s, outputs) =
      ((scan body xs s).1, outputs ++ (scan body xs s).2.toArray) := by
  induction xs generalizing s outputs with
  | nil => simp [scan]
  | cons x xs ih =>
    simp only [scan, List.foldl_cons, scanTurn]
    rw [ih, ih _ (#[].push _)]
    simp

theorem scan_nil (body : σ → β → σ × γ) (s : σ) : scan body [] s = (s, []) := rfl

theorem scan_cons (body : σ → β → σ × γ) (x : β) (xs : List β) (s : σ) :
    scan body (x :: xs) s =
      ((scan body xs (body s x).1).1, (body s x).2 :: (scan body xs (body s x).1).2) := by
  rw [scan, List.foldl_cons, scanTurn, foldl_scanTurn]
  simp

theorem scan_map {δ : Type} (body : σ → β → σ × γ) (f : δ → β) (xs : List δ) (s : σ) :
    scan body (xs.map f) s = scan (fun s x => body s (f x)) xs s := by
  simp only [scan, List.foldl_map]
  rfl

end

namespace State

/-! ## Fetching -/

/-- Whether the word at the program counter reaches past the end of memory. -/
def fetchesOutside (s : State) : Bool := memorySize ≤ s.pc.toNat + 1

/-- The word at the program counter, and the state with the program counter behind it. -/
def fetch (s : State) : UInt16 × State :=
  (s.memory.word s.pc.toNat, { s with pc := s.pc + 2 }.report s.fetchesOutside .outOfBounds)

/-! ## Stepping -/

/-- What is known of a step before anything is fetched: whether its word lies in the program. -/
def readiness (s : State) : Status :=
  if s.fetchesOutside then .outOfBounds
  else if s.pc.toNat < programStart ∨ s.programEnd ≤ s.pc then .exit
  else .ok

/-- Fetches and executes one instruction. -/
def cycle [RandomSource] (s : State) : State := s.fetch.2.executeWord s.fetch.1.toNat

/-- One step: an error, or a word outside the program, leaves all but the outcome as it was. -/
def step [RandomSource] (s : State) : State :=
  let s := { s with status := Status.ok }
  if s.readiness = .ok then
    let t := s.cycle
    if Status.unknownOpcode.code ≤ t.status then { s with status := t.status } else t
  else { s with status := s.readiness }

/-- The outcome recorded before a step has no bearing on it. -/
theorem step_withStatus [RandomSource] (s : State) (code : UInt8) :
    { s with status := code }.step = s.step := rfl

/-! ## Running -/

/-- Whether the last step lets a run go on. -/
def running (s : State) : Bool := s.status ≤ Status.draw

/-- One turn of a run: a step, unless the run has ended before. It puts out whether the run goes on. -/
def turn [RandomSource] (s : State) : State × Bool :=
  let t := if s.running then s.step else s
  (t, s.running && t.running)

/-- A state reached by a run, with the number of steps that the run has counted. -/
structure Batch where
  state : State
  executed : Nat
deriving DecidableEq

/-- What a run comes to: the state behind the last turn, and how many turns let it go on. -/
def Batch.ofTurns (r : State × List Bool) : Batch := ⟨r.1, r.2.count true⟩

/-- Runs up to `n` instructions. -/
def run [RandomSource] (s : State) (n : Int) : Batch :=
  .ofTurns (scan (fun s _ => s.turn) (List.range n.toNat) { s with status := Status.ok })

/-! ## Timers -/

/-- Both timers count down and stop at zero. -/
def tick (s : State) : State :=
  { s with
    delay := if s.delay = 0 then 0 else s.delay - 1
    sound := if s.sound = 0 then 0 else s.sound - 1 }

end State

end ChipEight
