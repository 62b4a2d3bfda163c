/-
The two clocks of the machine are independent. Three words look at a timer or set one (`usesTimer`); no other
notices a tick, and so a tick and a step may change places, whether the step succeeds, waits or fails
(`step_tick`). The same holds of a tick and a run of such steps: neither the state behind both nor the count
tells which of them came first (`run_tick`).
-/
import ChipEight.Proofs.Alteration
import ChipEight.Proofs.History
import ChipEight.Proofs.Outcome

namespace ChipEight

open Layout

/-- Whether the word reads the delay timer, as Fx07 does, or sets a timer, as Fx15 and Fx18 do. -/
def usesTimer (w : Nat) : Bool :=
  w / 4096 == 0xF && (w % 256 == 0x07 || w % 256 == 0x15 || w % 256 == 0x18)

theorem usesTimer_iff {w : Nat} :
    usesTimer w = true ↔ w / 4096 = 0xF ∧ (w % 256 = 0x07 ∨ w % 256 = 0x15 ∨ w % 256 = 0x18) := by
  simp only [usesTimer, Bool.and_eq_true, Bool.or_eq_true, beq_iff_eq, or_assoc]

namespace State

variable {s : State} {i : Instruction} {w n : Nat}

/-! ## One tick and one step -/

def countDown (left : UInt8) : UInt8 := if left = 0 then 0 else left - 1

/-- A tick, as a change to the timers. -/
def ticking : Alteration := { delay := countDown, sound := countDown }

theorem unnoticedBy_ticking (hw : i.HasWord w) (h : usesTimer w = false) : ticking.UnnoticedBy s i := by
  have hno (hk : w / 4096 = 0xF) (hb : w % 256 = 0x07 ∨ w % 256 = 0x15 ∨ w % 256 = 0x18) : False := by
    rw [usesTimer_iff.2 ⟨hk, hb⟩] at h
    cases h
  apply ticking.unnoticedBy_of_same_dialect rfl
  · rintro x rfl
    exact (hno hw.1 (.inl hw.2.1)).elim
  · rintro x rfl
    exact (hno hw.1 (.inr (.inl hw.2.1))).elim
  · rintro x rfl
    exact (hno hw.1 (.inr (.inr hw.2.1))).elim

theorem step_tick (h : ∀ w, s.dispatched? = some w → usesTimer w = false) : s.tick.step = s.step.tick := by
  apply ticking.step_apply (s := s)
  intro hready
  have hdispatched : s.dispatched? = some s.word := dispatched?_eq_some_iff.2 ⟨hready, rfl⟩
  exact unnoticedBy_ticking (Instruction.hasWord_ofWord s.word_lt) (h _ hdispatched)

/-! ## Runs -/

/-- Behind a tick the loop goes through the same states, each one tick ahead. -/
theorem trail_tick (h : ∀ w ∈ s.script n, usesTimer w = false) : s.tick.trail n = (s.trail n).map tick := by
  induction n generalizing s with
  | zero => rfl
  | succ n ih =>
    rw [script] at h
    have hnext : s.tick.step = s.step.tick := by
      apply step_tick
      intro w hw
      exact h w (List.mem_append_left _ (Option.mem_toList.2 hw))
    by_cases hgoes : s.step.GoesOn
    · have hgoes' : s.tick.step.GoesOn := hnext ▸ hgoes
      have hrest : ∀ w ∈ s.step.script n, usesTimer w = false := by
        intro w hw
        rw [if_pos hgoes] at h
        exact h w (List.mem_append_right _ hw)
      rw [trail_of_goesOn hgoes, trail_of_goesOn hgoes', hnext, ih hrest, List.map_cons]
    · have hhalts : ¬ s.tick.step.GoesOn := hnext ▸ hgoes
      rw [trail_of_halts hgoes, trail_of_halts hhalts, hnext]
      rfl

/-- A run that executes no word which looks at a timer or sets one may change places with a tick: the state
behind both is the same, and so is the count, also where the run ends early. -/
theorem run_tick (s : State) (n : Nat) (h : ∀ w ∈ s.script n, usesTimer w = false) :
    (s.tick.run n).state = (s.run n).state.tick ∧ (s.tick.run n).executed = (s.run n).executed := by
  rw [run_eq_trail, run_eq_trail, trail_tick h]
  constructor
  · rw [List.getLast?_map]
    cases (s.trail n).getLast? <;> rfl
  · rw [List.countP_map]
    rfl

/-- A program of the words 6A02 and F10A, without a key held down and with both timers about to end. -/
def runningOut : State :=
  { initial ⟨0, 0⟩ {} with
    memory := Memory.blank.writeBlock programStart [0x6A, 0x02, 0xF1, 0x0A]
    programEnd := 0x204
    delay := 1
    sound := 2 }

/-- The run ends early, at the wait, and the tick counts the timers down to zero and to one, before the run and
behind it. -/
theorem run_tick_runningOut :
    (∀ w ∈ runningOut.script 5, usesTimer w = false) ∧ (runningOut.run 5).executed = 1 ∧
    (runningOut.run 5).state.status = Status.waitForKey.code ∧
    runningOut.tick.delay = 0 ∧ runningOut.tick.sound = 1 ∧
    (runningOut.run 5).state.tick.delay = 0 ∧ (runningOut.run 5).state.tick.sound = 1 ∧
    (runningOut.tick.run 5).state = (runningOut.run 5).state.tick ∧
    (runningOut.tick.run 5).executed = (runningOut.run 5).executed := by
  have h : ∀ w ∈ runningOut.script 5, usesTimer w = false := by decide +kernel
  exact ⟨h, by decide +kernel, by decide +kernel, rfl, rfl, by decide +kernel, by decide +kernel,
    run_tick runningOut 5 h⟩

end State

end ChipEight
