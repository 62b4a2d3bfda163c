/-
A progress bar over a loop whose number of turns is known. The bar is opened before the first turn,
moved forward once for every full chunk of turns, and after the last turn moved forward by the rest
and closed. The loop is decorated with it: its body keeps what it computes and what it puts out.
-/
import ChipEight.Cycle
import ChipEight.Text.Basic

namespace ChipEight

open Text

/-- The setting that a bar decides on its own, and that cannot be given twice. -/
def ProgressBar.unitSetting : String := "unit"

def ProgressBar.unitName : String := "step"

/-- A bar over `total` turns. The settings for its looks have values of type `α`. -/
structure ProgressBar (α : Type) where
  total : Nat
  /-- The number of turns in a chunk. -/
  rate : Nat
  rate_pos : 0 < rate
  caption : String
  looks : List (String × α)
  /-- A bar that is opened is not given a unit beside its own. -/
  unit_once : 0 < total → ProgressBar.unitSetting ∉ looks.map Prod.fst

namespace ProgressBar

variable {α β γ σ : Type}

inductive Event (α : Type)
  | opened (total : Nat) (caption : String) (looks : List (String × α))
  | advanced (turns : Nat)
  | closed
deriving DecidableEq

/-! ## Settings -/

/-- The settings that are dropped. -/
def dropped : List String := ["total", "mininterval", "maxinterval", "miniters"]

/-- The chunk for a loop of `total` turns: a twentieth of them, at least 1 and at most 50. -/
def usualRate (total : Nat) : Nat := max 1 (min (total / 20) 50)

/-- A chunk that was asked for, brought between 1 and the number of turns. -/
def clampedRate (rate : Int) (total : Nat) : Nat := max 1 (min rate total).toNat

def chosenRate (total : Nat) : Option Int → Nat
  | none => usualRate total
  | some rate => clampedRate rate total

theorem chosenRate_pos (total : Nat) (rate? : Option Int) : 0 < chosenRate total rate? := by
  cases rate? <;> simp only [chosenRate, usualRate, clampedRate] <;> omega

/-- The bar of usual looks over `n` turns, or over none where `n` is negative. -/
def plain (n : Int) (rate? : Option Int) (caption? : Option String) : ProgressBar α where
  total := n.toNat
  rate := chosenRate n.toNat rate?
  rate_pos := chosenRate_pos _ _
  caption := caption?.getD ("Running (" ++ grouped n ++ " steps)")
  looks := []
  unit_once := fun _ => List.not_mem_nil

/-- The refusal of a setting that would be given twice. -/
structure RepeatedSetting where
  name : String
deriving DecidableEq

/-- The bar over `n` turns with further settings. It is refused if it would be opened with a second unit. -/
def ofCount (n : Int) (rate? : Option Int) (caption? : Option String) (settings : List (String × α)) :
    Except RepeatedSetting (ProgressBar α) :=
  let bar : ProgressBar α := plain n rate? caption?
  let looks := settings.filter fun setting => setting.1 ∉ dropped
  if h : 0 < bar.total → unitSetting ∉ looks.map Prod.fst then
    .ok { bar with looks, unit_once := h }
  else .error ⟨unitSetting⟩

/-! ## Elements -/

/-- What a loop runs over: the numbers of its turns, each alone or at the head of a tuple. -/
inductive Element (β : Type)
  | number (turn : Nat)
  | tuple (turn : Nat) (rest : β)

namespace Element

def turn : Element β → Nat
  | number turn => turn
  | tuple turn _ => turn

end Element

/-! ## Events -/

/-- The turns behind the last full chunk. -/
def rest (b : ProgressBar α) : Nat := b.total % b.rate

/-- What happens to the bar before the turn `i`. -/
def before (b : ProgressBar α) (i : Nat) : List (Event α) :=
  if i = 0 then [.opened b.total b.caption b.looks] else []

/-- What happens to the bar after the turn `i`. -/
def after (b : ProgressBar α) (i : Nat) : List (Event α) :=
  (if i % b.rate = b.rate - 1 then [.advanced b.rate] else []) ++
    (if i + 1 = b.total then [.advanced b.rest, .closed] else [])

/-! ## Loops -/

/-- The body of a loop, with the events of the bar around it beside the state that it carries. -/
def decorate (b : ProgressBar α) (body : σ → Element β → σ × γ) (r : σ × Array (Event α))
    (x : Element β) : (σ × Array (Event α)) × γ :=
  let next := body r.1 x
  ((next.1, r.2 ++ b.before x.turn ++ b.after x.turn), next.2)

/-- The loop with its bar: what it comes to, and the events. -/
def scan (b : ProgressBar α) (body : σ → Element β → σ × γ) (xs : List (Element β)) (s : σ) :
    (σ × List γ) × List (Event α) :=
  let r := ChipEight.scan (b.decorate body) xs (s, #[])
  ((r.1.1, r.2), r.1.2.toList)

end ProgressBar

def State.runWithBar [RandomSource] {α : Type} (s : State) (n : Int) :
    Batch × List (ProgressBar.Event α) :=
  let caption := "Executing (" ++ grouped n ++ " instructions)"
  let turns : List (ProgressBar.Element Unit) := (List.range n.toNat).map .number
  let r := (ProgressBar.plain n none (some caption)).scan (fun t _ => t.turn) turns
    { s with status := Status.ok }
  (.ofTurns r.1, r.2)

end ChipEight
