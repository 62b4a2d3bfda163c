/-
What a verdict says of the step that it is passed on. It is passed on the state behind the step, and reads
the address, the word and the index anew from there; since a step that fails leaves all three as it found
them, they are those of the instruction at fault (`verdict_step`). Of a run that is the last instruction
that it got to (`verdict_blames`).
-/
import ChipEight.Proofs.History
import ChipEight.Proofs.Verdict

namespace ChipEight

open Layout

namespace State

/-- The verdict is the one that a step made in the state deserves, if it ends with the outcome: a fault at
its program counter for an error, and the outcome itself for any other. -/
def Blames (s : State) (verdict : Except Failure Status) : Status → Prop
  -- the word that was dispatched, both bytes of it cells of memory
  | .unknownOpcode => ∃ w high low, s.dispatched? = some w ∧
      s.memory.cells[s.pc.toNat]? = some high ∧ s.memory.cells[s.pc.toNat + 1]? = some low ∧
      w = 256 * high.toNat + low.toNat ∧ verdict = .error (.fault (.unknownOpcode w s.pc.toNat))
  | .stackOverflow => verdict = .error (.fault (.stackOverflow s.pc.toNat))
  | .stackUnderflow => verdict = .error (.fault (.stackUnderflow s.pc.toNat))
  | .outOfBounds => verdict = .error (.fault (.outOfBounds s.pc.toNat s.i.toNat))
  | st => verdict = .ok st

variable {s : State}

/-! ## Verdicts on steps -/

/-- Only a word that was fetched can be unknown. -/
theorem ready_of_unknownOpcode (h : s.outcome = .unknownOpcode) : s.readiness = .ok := by
  by_cases hready : s.readiness = .ok
  · exact hready
  · rw [outcome, if_neg hready, readiness_eq] at h
    split at h
    · cases h
    · split at h <;> cases h

theorem verdict_step (s : State) : s.Blames s.step.verdict s.outcome := by
  have hstatus := s.step_status
  -- an error is recorded in a state that is otherwise the one before the step
  have hsame (herror : s.outcome.isError = true) : s.step = { s with status := s.outcome.code } :=
    step_of_halts (Status.halts_of_isError herror)
  cases ho : s.outcome with
  | unknownOpcode =>
    have hready := ready_of_unknownOpcode ho
    have hinside := (readiness_eq_ok_iff.1 hready).1
    refine ⟨s.word, s.memory.read s.pc.toNat, s.memory.read (s.pc.toNat + 1),
      dispatched?_eq_some_iff.2 ⟨hready, rfl⟩, Memory.getElem?_cells _ (by omega),
      Memory.getElem?_cells _ hinside, rfl, ?_⟩
    rw [ho] at hstatus hsame
    rw [verdict_of_unknownOpcode hstatus, hsame rfl]
    rfl
  | stackOverflow =>
    rw [ho] at hstatus hsame
    rw [Blames, verdict_of_stackOverflow hstatus, hsame rfl]
  | stackUnderflow =>
    rw [ho] at hstatus hsame
    rw [Blames, verdict_of_stackUnderflow hstatus, hsame rfl]
  | outOfBounds =>
    rw [ho] at hstatus hsame
    rw [Blames, verdict_of_outOfBounds hstatus, hsame rfl]
  | ok | draw | waitForKey | exit =>
    rw [ho] at hstatus
    exact verdict_of_not_isError hstatus rfl

/-- A step that fails is reported at its own program counter, with its own word or with I as it was before
it, and one that does not fail by its outcome. The verdict on a run is the one on the last step that it
makes, and OK where it makes none. -/
theorem verdict_blames :
    (∀ s : State, ∃ st : Status, s.step.status = st.code ∧ s.Blames s.step.verdict st) ∧
    (∀ (s : State) (n : Int) (t : State), (s.starts n.toNat).getLast? = some t →
      (s.run n).state = t.step ∧
      ∃ st : Status, (s.run n).state.status = st.code ∧ t.Blames (s.run n).state.verdict st) ∧
    ∀ (s : State) (n : Int), (s.starts n.toNat).getLast? = none → (s.run n).state.verdict = .ok .ok := by
  have hstep (s : State) : ∃ st : Status, s.step.status = st.code ∧ s.Blames s.step.verdict st :=
    ⟨s.outcome, s.step_status, s.verdict_step⟩
  refine ⟨hstep, ?_, ?_⟩
  · intro s n t ht
    have hrun : (s.run n).state = t.step := by
      rw [run_state_eq, ht]
      rfl
    rw [hrun]
    exact ⟨rfl, hstep t⟩
  · intro s n hnone
    rw [run_state_eq, hnone]
    exact verdict_of_not_isError rfl rfl

/-- The program of the words 6105 and 5111: the second is unknown, but skips before it fails. -/
def skippingUnknown : State :=
  (initial ⟨0, 0⟩ {}).perform (.load [0x61, 0x05, 0x51, 0x11])

theorem skippingUnknown_blamed :
    (skippingUnknown.starts (5 : Int).toNat).getLast? = some skippingUnknown.step ∧
    skippingUnknown.step.pc = 0x202 ∧ skippingUnknown.step.dispatched? = some 0x5111 ∧
    (skippingUnknown.run 5).state.verdict = .error (.fault (.unknownOpcode 0x5111 0x202)) := by
  have hfirst : skippingUnknown.step.GoesOn := by decide +kernel
  have hsecond : ¬ skippingUnknown.step.step.GoesOn := by decide +kernel
  have hlast : (skippingUnknown.starts (5 : Int).toNat).getLast? = some skippingUnknown.step := by
    show (skippingUnknown.starts (3 + 1 + 1)).getLast? = _
    rw [starts_of_goesOn hfirst, starts_of_halts hsecond]
    rfl
  have hpc : skippingUnknown.step.pc = 0x202 := by decide +kernel
  have hword : skippingUnknown.step.dispatched? = some 0x5111 := by decide +kernel
  obtain ⟨hrun, st, hst, hblames⟩ := verdict_blames.2.1 skippingUnknown 5 skippingUnknown.step hlast
  obtain rfl : st = .unknownOpcode := by
    apply Status.code_inj
    rw [← hst, hrun]
    decide +kernel
  obtain ⟨w, -, -, hw, -, -, -, hverdict⟩ := hblames
  obtain rfl : 0x5111 = w := Option.some.inj (hword.symm.trans hw)
  refine ⟨hlast, hpc, hword, ?_⟩
  rw [hverdict, hpc]
  rfl

end State

end ChipEight
