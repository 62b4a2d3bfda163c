/-
The threshold of the console decides what is printed and nothing else. A call on a machine whose threshold is
raised has the outcome of the same call on the machine as it was, less the entries below the new threshold
(`perform_withThreshold`), although a step reads and formats the word at the program counter only where
DEBUG is printed. So along any sequence of calls a higher threshold filters the log (`threshold_filters`).
-/
import ChipEight.Proofs.Frame
import ChipEight.Proofs.HostCall

namespace ChipEight

open Layout

/-- The level of the entry is the given one or above it. -/
def Entry.reaches (l : Level) (e : Entry) : Bool := l.rank ≤ e.level.rank

namespace Machine

/-- The machine with another threshold on its console. -/
def withThreshold (m : Machine) (l : Level) : Machine :=
  { m with console := { m.console with threshold := l } }

end Machine

/-- What is left of an outcome if the threshold is raised to the level. -/
def Outcome.raised {α : Type} (l : Level) (o : Outcome α) : Outcome α :=
  ⟨o.result, o.machine.withThreshold l, o.log.filter (·.reaches l)⟩

namespace Machine

variable {m : Machine} {l : Level}

/-! ## Messages -/

theorem note_eq (m : Machine) (level : Level) (message : String) :
    m.note level message =
      if m.console.threshold.rank ≤ level.rank then [⟨level, message⟩] else [] := by
  have hrank : rankOf level.name = level.rank := by
    rw [rankOf, Level.ofName?_name, Option.getD_some]
  simp only [note, Console.enables, hrank, decide_eq_true_eq]

theorem note_withThreshold (h : m.console.threshold.rank ≤ l.rank) (level : Level) (message : String) :
    (m.withThreshold l).note level message = (m.note level message).filter (·.reaches l) := by
  have hthreshold : (m.withThreshold l).console.threshold = l := rfl
  rw [note_eq, note_eq, hthreshold]
  by_cases hl : l.rank ≤ level.rank
  · have hreaches : Entry.reaches l ⟨level, message⟩ = true := decide_eq_true hl
    rw [if_pos hl, if_pos (Nat.le_trans h hl), List.filter_cons_of_pos hreaches, List.filter_nil]
  · have hreaches : ¬ Entry.reaches l ⟨level, message⟩ = true := by simpa [Entry.reaches] using hl
    rw [if_neg hl]
    split
    · rw [List.filter_cons_of_neg hreaches, List.filter_nil]
    · rfl

theorem trace_withThreshold (h : m.console.threshold.rank ≤ l.rank) :
    (m.withThreshold l).trace = m.trace.filter (·.reaches l) := by
  have hstate : (m.withThreshold l).state = m.state := rfl
  unfold trace
  rw [hstate]
  split
  · rfl
  · exact note_withThreshold h _ _

theorem complain_withThreshold (h : m.console.threshold.rank ≤ l.rank)
    (verdict : Except Failure Status) :
    (m.withThreshold l).complain verdict = (m.complain verdict).filter (·.reaches l) := by
  unfold complain
  split
  · exact note_withThreshold h _ _
  · rfl

/-! ## Calls -/

theorem load_withThreshold (h : m.console.threshold.rank ≤ l.rank) (program : List UInt8) :
    (m.withThreshold l).load program = (m.load program).raised l := by
  have hstate : (m.withThreshold l).state = m.state := rfl
  unfold load
  rw [hstate]
  split
  · simp only [Outcome.raised, note_withThreshold h]
    rfl
  · simp only [Outcome.raised, note_withThreshold h]

theorem step_withThreshold (h : m.console.threshold.rank ≤ l.rank) :
    (m.withThreshold l).step = m.step.raised l := by
  let after : Machine := { m with state := m.state.step }
  have hcomplain : (after.withThreshold l).complain after.state.verdict =
      (after.complain after.state.verdict).filter (·.reaches l) := complain_withThreshold h _
  have hlog : (m.withThreshold l).trace ++ (after.withThreshold l).complain after.state.verdict =
      (m.trace ++ after.complain after.state.verdict).filter (·.reaches l) := by
    rw [List.filter_append, trace_withThreshold h, hcomplain]
  exact congrArg (Outcome.mk after.state.verdict (after.withThreshold l)) hlog

theorem frame_withThreshold (h : m.console.threshold.rank ≤ l.rank) :
    (m.withThreshold l).frame = m.frame.raised l := by
  have hclock : (m.withThreshold l).clock = m.clock := rfl
  unfold frame
  rw [hclock]
  cases m.clock.frameLength? with
  | none => rfl
  | some n =>
    let after : Machine := { m with state := (m.state.run n).state }
    let text := "Frame executed " ++ toString (m.state.run n).executed ++ " instructions"
    have hcomplain : (after.withThreshold l).complain after.state.verdict =
        (after.complain after.state.verdict).filter (·.reaches l) := complain_withThreshold h _
    have hlog : (m.withThreshold l).note .debug text ++ (after.withThreshold l).complain after.state.verdict =
        (m.note .debug text ++ after.complain after.state.verdict).filter (·.reaches l) := by
      rw [List.filter_append, note_withThreshold h, hcomplain]
    have hmachine : (if after.state.verdict.isOk then (after.withThreshold l).tick
          else after.withThreshold l) =
        (if after.state.verdict.isOk then after.tick else after).withThreshold l := by
      split <;> rfl
    show Outcome.mk after.state.verdict
      (if after.state.verdict.isOk then (after.withThreshold l).tick else after.withThreshold l) _ = _
    rw [hmachine]
    exact congrArg (Outcome.mk after.state.verdict _) hlog

theorem reset_withThreshold (h : m.console.threshold.rank ≤ l.rank) :
    (m.withThreshold l).reset = m.reset.raised l := by
  simp only [reset, Outcome.raised, note_withThreshold h]
  rfl

theorem setKey_withThreshold (h : m.console.threshold.rank ≤ l.rank) (key : Int) (down : Bool) :
    (m.withThreshold l).setKey key down = (m.setKey key down).raised l := by
  unfold setKey
  split
  · simp only [Outcome.raised, note_withThreshold h]
    rfl
  · rfl

theorem map_raised {α β : Type} (g : α → β) (o : Outcome α) : (o.raised l).map g = (o.map g).raised l := rfl

theorem perform_withThreshold (h : m.console.threshold.rank ≤ l.rank) (call : HostCall) :
    (m.withThreshold l).perform call = (m.perform call).raised l := by
  cases call with
  | load program => rw [perform, load_withThreshold h, map_raised, ← perform]
  | step => rw [perform, step_withThreshold h, map_raised, ← perform]
  | frame => rw [perform, frame_withThreshold h, map_raised, ← perform]
  | tick => rfl
  | reset => rw [perform, reset_withThreshold h, map_raised, ← perform]
  | press key => rw [perform, press, setKey_withThreshold h, map_raised]; rfl
  | release key => rw [perform, release, setKey_withThreshold h, map_raised]; rfl

/-! ## Sequences of calls -/

/-- The outcomes of a sequence of calls, in order. -/
def outcomes (m : Machine) : List HostCall → List (Outcome (Option Status))
  | [] => []
  | call :: calls => m.perform call :: (m.perform call).machine.outcomes calls

theorem outcomes_withThreshold (h : m.console.threshold.rank ≤ l.rank) (calls : List HostCall) :
    (m.withThreshold l).outcomes calls = (m.outcomes calls).map (·.raised l) := by
  induction calls generalizing m with
  | nil => rfl
  | cons call calls ih =>
    have hconsole : (m.perform call).machine.console.threshold.rank ≤ l.rank := by
      rw [(m.perform_fixed call).2]
      exact h
    rw [outcomes, outcomes, List.map_cons, perform_withThreshold h, ← ih hconsole]
    rfl

/-- Two machines that differ in the threshold of their consoles alone give the same results to any sequence of
calls, failures included, go through the same states and answer every query alike. The one with the higher
threshold prints what the other prints at that level or above it, in the same order and in the same lines. -/
theorem threshold_filters (m : Machine) {l₁ l₂ : Level} (h : l₁.rank ≤ l₂.rank) (calls : List HostCall) :
    let low := (m.withThreshold l₁).outcomes calls
    let high := (m.withThreshold l₂).outcomes calls
    high.map (·.result) = low.map (·.result) ∧
    high.map (·.machine.state) = low.map (·.machine.state) ∧
    high.map (fun o => (o.machine.status, o.machine.soundActive, o.machine.frameLength)) =
      low.map (fun o => (o.machine.status, o.machine.soundActive, o.machine.frameLength)) ∧
    high.flatMap (·.log) = (low.flatMap (·.log)).filter (fun e => l₂.rank ≤ e.level.rank) ∧
    ∀ now e, (m.withThreshold l₂).lineOf now e = (m.withThreshold l₁).lineOf now e := by
  intro low high
  have hhigh : high = low.map (·.raised l₂) := outcomes_withThreshold (m := m.withThreshold l₁) h calls
  rw [hhigh]
  refine ⟨?_, ?_, ?_, ?_, ?_⟩
  · rw [List.map_map]
    rfl
  · rw [List.map_map]
    rfl
  · rw [List.map_map]
    rfl
  · rw [List.flatMap_map, List.filter_flatMap]
    rfl
  · intro now e
    rfl

/-- The calls of a host behind which `failingStore` has met an error and a key that there is not. -/
def mishaps : List HostCall := [.step, .frame, .press 3, .press 16, .reset]

theorem failingStore_filtered :
    Level.debug.rank ≤ Level.error.rank ∧
    (((failingStore.withThreshold .debug).outcomes mishaps).flatMap (·.log)).map (·.level) =
      [.debug, .debug, .error, .debug, .info] ∧
    (((failingStore.withThreshold .error).outcomes mishaps).flatMap (·.log)).map (·.level) = [.error] ∧
    let low := (failingStore.withThreshold .debug).outcomes mishaps
    let high := (failingStore.withThreshold .error).outcomes mishaps
    high.map (·.result) = low.map (·.result) ∧
    high.map (·.machine.state) = low.map (·.machine.state) ∧
    high.map (fun o => (o.machine.status, o.machine.soundActive, o.machine.frameLength)) =
      low.map (fun o => (o.machine.status, o.machine.soundActive, o.machine.frameLength)) ∧
    high.flatMap (·.log) = (low.flatMap (·.log)).filter (fun e => Level.error.rank ≤ e.level.rank) ∧
    ∀ now e, (failingStore.withThreshold .error).lineOf now e =
      (failingStore.withThreshold .debug).lineOf now e := by
  have h : Level.debug.rank ≤ Level.error.rank := by decide
  exact ⟨h, by decide +kernel, by decide +kernel, threshold_filters failingStore h mishaps⟩

end Machine

end ChipEight
