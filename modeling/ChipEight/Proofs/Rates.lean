/-
What the two rates of a machine make of its frames. A machine is refused a rate of execution below that of its timers,
since a frame would have no instructions; but nothing asks whether the timers have a positive rate. At a rate of zero
there are no frames at all, and at a negative one a frame has no instructions, unless the two rates are the same
(`frame_of_rates`).
-/
import ChipEight.Proofs.Frame

namespace ChipEight

open Layout

/-! ## Rates and the length of a frame -/

namespace Clock

variable {c : Clock}

theorem rates_of_ofRates {instructionHz timerHz : Int} (h : ofRates instructionHz timerHz = .ok c) :
    c.instructionHz = instructionHz ∧ c.timerHz = timerHz := by
  unfold ofRates at h
  split at h
  · cases h
    exact ⟨rfl, rfl⟩
  · cases h

theorem frameLength?_eq_none_iff : c.frameLength? = none ↔ c.timerHz = 0 := by
  unfold frameLength?
  split <;> simp_all

/-- A quotient rounded down is positive where both numbers lie on the divisor's side of zero, the divisor not farther
out. -/
theorem one_le_fdiv_iff {a b : Int} (hb : b ≠ 0) : 1 ≤ a.fdiv b ↔ 0 < b ∧ b ≤ a ∨ b < 0 ∧ a ≤ b := by
  rcases Int.lt_or_gt_of_ne hb with hneg | hpos
  · rw [← Int.neg_fdiv_neg, Int.fdiv_eq_ediv_of_nonneg (-a) (by omega), Int.le_ediv_iff_mul_le (by omega)]
    omega
  · rw [Int.fdiv_eq_ediv_of_nonneg a (by omega), Int.le_ediv_iff_mul_le hpos]
    omega

/-- Of two rates below zero that of the timers is not the nearer one, so that only equal ones make an instruction. -/
theorem one_le_frameLength_iff {k : Int} (hk : c.frameLength? = some k) :
    1 ≤ k ↔ 0 < c.timerHz ∨ c.timerHz < 0 ∧ c.instructionHz = c.timerHz := by
  have hle := c.timerHz_le
  unfold frameLength? at hk
  split at hk
  · cases hk
  · rename_i hne
    rw [← Option.some.inj hk, one_le_fdiv_iff hne]
    omega

end Clock

namespace Machine

variable {m : Machine}

theorem rates_of_create {console : Console} {dialect : Dialect} {instructionHz timerHz seed : Int}
    (h : create console dialect instructionHz timerHz seed = .ok m) :
    m.clock.instructionHz = instructionHz ∧ m.clock.timerHz = timerHz := by
  unfold create at h
  split at h
  · cases h
  · cases h
  · rename_i hclock _
    cases h
    exact Clock.rates_of_ofRates hclock

/-! ## The instructions of a frame -/

/-- The states in which a frame attempts an instruction, in order. -/
def attempts (m : Machine) : List State :=
  match m.clock.frameLength? with
  | none => []
  | some n => m.state.starts n.toNat

theorem attempts_of_frameLength {k : Int} (hk : m.frameLength = .ok k) :
    m.attempts = m.state.starts k.toNat := by
  simp only [attempts, frameLength_eq_ok_iff.1 hk]

theorem attempts_of_pos {k : Int} (hk : m.frameLength = .ok k) (h : 1 ≤ k) :
    ∃ rest last, m.attempts = m.state :: rest ∧ m.attempts.getLast? = some last := by
  obtain ⟨n, hn⟩ := Int.eq_ofNat_of_zero_le (show 0 ≤ k - 1 by omega)
  obtain rfl : k = (n + 1 : Nat) := by omega
  rw [attempts_of_frameLength hk, Int.toNat_natCast, State.starts]
  exact ⟨_, _, rfl, List.getLast?_cons⟩

/-- A frame ends behind the last instruction that it attempts. -/
theorem frame_of_attempts {last : State} (h : m.attempts.getLast? = some last) :
    m.frame.result = last.step.verdict ∧
    m.frame.machine =
      { m with state := if m.frame.result.isOk then last.step.tick else last.step } := by
  cases hlength : m.clock.frameLength? with
  | none =>
    simp only [attempts, hlength] at h
    cases h
  | some k =>
    have hk : m.frameLength = .ok k := frameLength_eq_ok_iff.2 hlength
    rw [attempts_of_frameLength hk] at h
    have hrun : (m.state.run k).state = last.step := by
      rw [State.run_state_eq, h]
      rfl
    refine ⟨by rw [frame_result hk, hrun], ?_⟩
    rw [frame_machine hk, hrun]
    split <;> rfl

/-- A frame without instructions only ticks. -/
theorem frame_of_nonpos {k : Int} (hk : m.frameLength = .ok k) (h : k ≤ 0) :
    m.attempts = [] ∧ m.frame.result = .ok .ok ∧
    m.frame.machine = { m with state := { m.state with status := Status.ok }.tick } := by
  have hzero : k.toNat = 0 := Int.toNat_of_nonpos h
  have hrun : (m.state.run k).state = { m.state with status := Status.ok } := by
    rw [State.run_state_eq, hzero]
    rfl
  have hresult : m.frame.result = .ok .ok := by
    rw [frame_result hk, hrun]
    rfl
  refine ⟨by rw [attempts_of_frameLength hk, hzero]; rfl, hresult, ?_⟩
  rw [frame_machine hk, hresult, hrun]
  rfl

theorem frame_of_no_rate (h : m.clock.timerHz = 0) :
    m.frameLength = .error .noTimerRate ∧ m.frame = ⟨.error .noTimerRate, m, []⟩ := by
  have hnone : m.clock.frameLength? = none := Clock.frameLength?_eq_none_iff.2 h
  simp only [frameLength, frame, hnone, and_self]

/-! ## Accepted rates -/

/-- A machine may be set up with any two rates of which the timers' is not the larger one, and be in any state. Its
frames have a length of at least one instruction exactly if the timers' rate is positive, or negative and the same as
that of execution; they then attempt an instruction in that very state, and end behind the last one that they attempt.
At a rate of zero there is no length, and a frame is refused. At any other rates a frame has no instructions, ends
OK whatever comes next, and ticks. -/
theorem frame_of_rates {console : Console} {dialect : Dialect} {instructionHz timerHz seed : Int}
    {built : Machine} (h : create console dialect instructionHz timerHz seed = .ok built) (s : State) :
    let m : Machine := { built with state := s }
    ((∃ k, m.frameLength = .ok k ∧ 1 ≤ k) ↔ 0 < timerHz ∨ timerHz < 0 ∧ instructionHz = timerHz) ∧
    (0 < timerHz ∨ timerHz < 0 ∧ instructionHz = timerHz →
      ∃ rest last, m.attempts = s :: rest ∧ m.attempts.getLast? = some last ∧
        m.frame.result = last.step.verdict ∧
        m.frame.machine =
          { m with state := if m.frame.result.isOk then last.step.tick else last.step }) ∧
    (timerHz = 0 →
      m.frameLength = .error .noTimerRate ∧ m.frame = ⟨.error .noTimerRate, m, []⟩) ∧
    (timerHz < 0 → instructionHz ≠ timerHz →
      (∃ k, m.frameLength = .ok k ∧ k ≤ 0) ∧ m.attempts = [] ∧ m.frame.result = .ok .ok ∧
        m.frame.machine = { m with state := { s with status := Status.ok }.tick }) := by
  intro m
  -- the length depends on the clock alone, and the clock on the two rates alone
  obtain ⟨hinstruction, htimer⟩ := rates_of_create h
  have hlength {k : Int} (hk : m.frameLength = .ok k) :
      1 ≤ k ↔ 0 < timerHz ∨ timerHz < 0 ∧ instructionHz = timerHz := by
    rw [← hinstruction, ← htimer]
    exact Clock.one_le_frameLength_iff (c := m.clock) (frameLength_eq_ok_iff.1 hk)
  have hdefined (hne : timerHz ≠ 0) : ∃ k, m.frameLength = .ok k := by
    cases hk : m.clock.frameLength? with
    | none => exact absurd (htimer.symm.trans (Clock.frameLength?_eq_none_iff.1 hk)) hne
    | some k => exact ⟨k, frameLength_eq_ok_iff.2 hk⟩
  refine ⟨⟨?_, ?_⟩, ?_, ?_, ?_⟩
  · rintro ⟨k, hk, hpos⟩
    exact (hlength hk).1 hpos
  · intro hrates
    obtain ⟨k, hk⟩ := hdefined (by omega)
    exact ⟨k, hk, (hlength hk).2 hrates⟩
  · intro hrates
    obtain ⟨k, hk⟩ := hdefined (by omega)
    obtain ⟨rest, last, hattempts, hlast⟩ := attempts_of_pos hk ((hlength hk).2 hrates)
    obtain ⟨hresult, hmachine⟩ := frame_of_attempts hlast
    exact ⟨rest, last, hattempts, hlast, hresult, hmachine⟩
  · intro hzero
    exact frame_of_no_rate (htimer.trans hzero)
  · intro hneg hne
    obtain ⟨k, hk⟩ := hdefined (by omega)
    have hnonpos : k ≤ 0 := by
      have hrates := hlength hk
      omega
    exact ⟨⟨k, hk, hnonpos⟩, frame_of_nonpos hk hnonpos⟩

/-- A machine at its start, set up with the seed 0. -/
def started (clock : Clock) : Machine := ⟨.initial ⟨0, 0⟩ {}, clock, failingStore.console⟩

/-- The same machine with the program of the one word 00EE, a return from no subroutine. -/
def atReturn (clock : Clock) : Machine :=
  { started clock with state := (started clock).state.loaded [0x00, 0xEE] }

/-- At equal rates below zero a frame has its instruction. -/
theorem frame_of_rates_negative :
    create failingStore.console {} (-7) (-7) 0 = .ok (started ⟨-7, -7, by decide⟩) ∧
    ((0 : Int) < -7 ∨ (-7 : Int) < 0 ∧ (-7 : Int) = -7) ∧
    (atReturn ⟨-7, -7, by decide⟩).frameLength = .ok 1 ∧
    ∃ rest last, (atReturn ⟨-7, -7, by decide⟩).attempts = (atReturn ⟨-7, -7, by decide⟩).state :: rest ∧
      (atReturn ⟨-7, -7, by decide⟩).attempts.getLast? = some last ∧
      (atReturn ⟨-7, -7, by decide⟩).frame.result = last.step.verdict := by
  have hcreate : create failingStore.console {} (-7) (-7) 0 = .ok (started ⟨-7, -7, by decide⟩) := rfl
  have hrates : (0 : Int) < -7 ∨ (-7 : Int) < 0 ∧ (-7 : Int) = -7 := by decide
  obtain ⟨-, hattempts, -⟩ := frame_of_rates hcreate (atReturn ⟨-7, -7, by decide⟩).state
  obtain ⟨rest, last, hrest, hlast, hresult, -⟩ := hattempts hrates
  exact ⟨hcreate, hrates, rfl, rest, last, hrest, hlast, hresult⟩

/-- Whatever its clock, the machine fails at its first instruction. -/
theorem step_atReturn (clock : Clock) :
    (atReturn clock).step.result = .error (.fault (.stackUnderflow 0x200)) := by
  let s := (State.initial ⟨0, 0⟩ {}).loaded [0x00, 0xEE]
  have hstatus : s.step.status = Status.stackUnderflow.code := by decide +kernel
  have hpc : s.step.pc = 0x200 := by decide +kernel
  show s.step.verdict = _
  rw [State.verdict_of_stackUnderflow hstatus, hpc]
  rfl

/-- But a frame does not get there: with a rate of zero for the timers, which is accepted, it has no length, and with
a negative one, which is accepted too, it has no instructions. -/
theorem frame_atReturn :
    create failingStore.console {} 700 0 0 = .ok (started ⟨700, 0, by decide⟩) ∧
    (atReturn ⟨700, 0, by decide⟩).frameLength = .error .noTimerRate ∧
    (atReturn ⟨700, 0, by decide⟩).step.result = .error (.fault (.stackUnderflow 0x200)) ∧
    (atReturn ⟨700, 0, by decide⟩).frame.result = .error .noTimerRate ∧
    create failingStore.console {} 700 (-60) 0 = .ok (started ⟨700, -60, by decide⟩) ∧
    (atReturn ⟨700, -60, by decide⟩).frameLength = .ok (-12) ∧
    (atReturn ⟨700, -60, by decide⟩).step.result = .error (.fault (.stackUnderflow 0x200)) ∧
    (atReturn ⟨700, -60, by decide⟩).frame.result = .ok .ok :=
  ⟨rfl, rfl, step_atReturn _, rfl, rfl, rfl, step_atReturn _, rfl⟩

end Machine

end ChipEight
