/-
One step of the machine. The outcome of a step is known beforehand (`step_status`). With OK or DRAW
the step executes the instruction at the program counter; with any other outcome it leaves all but
the recorded outcome as it was (`step_cases`), and the next step does the same once more.
-/
import ChipEight.Cycle
import ChipEight.Proofs.Effect

namespace ChipEight

open Layout

/-! ## Outcomes -/

namespace Status

/-- Whether a run ends at the outcome. -/
def halts : Status → Bool
  | ok | draw => false
  | _ => true

theorem code_inj {st st' : Status} (h : st.code = st'.code) : st = st' := by
  apply Option.some.inj
  rw [← ofCode?_code st, h, ofCode?_code]

theorem isError_iff {st : Status} : unknownOpcode.code ≤ st.code ↔ st.isError = true := by
  simp only [isError, decide_eq_true_eq]

theorem le_draw_iff {st : Status} : st.code ≤ draw.code ↔ st.halts = false := by
  cases st <;> decide

theorem halts_of_isError {st : Status} (h : st.isError = true) : st.halts = true := by
  revert h
  cases st <;> decide

end Status

namespace State

/-! ## The instruction of a step -/

/-- The word at the program counter, high byte first. -/
def word (s : State) : Nat :=
  256 * (s.memory.read s.pc.toNat).toNat + (s.memory.read (s.pc.toNat + 1)).toNat

def current (s : State) : Instruction := .ofWord s.word

/-- The state in which a step executes its instruction. -/
def fetched (s : State) : State := { s with pc := s.pc + 2, status := Status.ok }

/-- The outcome of the next step. -/
def outcome (s : State) : Status :=
  if s.readiness = .ok then (s.fetched.reported? s.current).getD .ok else s.readiness

theorem readiness_eq (s : State) :
    s.readiness = if memorySize ≤ s.pc.toNat + 1 then .outOfBounds
      else if s.pc.toNat < programStart ∨ s.programEnd.toNat ≤ s.pc.toNat then .exit else .ok := by
  simp only [readiness, fetchesOutside, decide_eq_true_eq, UInt16.le_iff_toNat_le]

theorem readiness_eq_ok_iff {s : State} :
    s.readiness = .ok ↔
      s.pc.toNat + 1 < memorySize ∧ programStart ≤ s.pc.toNat ∧ s.pc.toNat < s.programEnd.toNat := by
  rw [readiness_eq]
  split
  · simp only [reduceCtorEq, false_iff]
    omega
  · split <;> simp only [reduceCtorEq, false_iff, true_iff] <;> omega

theorem halts_readiness {s : State} (h : s.readiness ≠ .ok) : s.readiness.halts = true := by
  rw [readiness_eq] at h ⊢
  split
  · rfl
  · split
    · rfl
    · rename_i h1 h2
      rw [if_neg h1, if_neg h2] at h
      exact absurd rfl h

/-- Inside memory a fetch reports nothing. -/
theorem fetch_of_inside {s : State} (h : s.pc.toNat + 1 < memorySize) :
    s.fetch = (s.memory.word s.pc.toNat, { s with pc := s.pc + 2 }) := by
  have hin : s.fetchesOutside = false := decide_eq_false (Nat.not_le.2 h)
  unfold fetch
  rw [hin]
  rfl

theorem cycle_eq_execute [RandomSource] {s : State} (h : s.readiness = .ok) :
    { s with status := Status.ok }.cycle = s.fetched.execute s.current := by
  have hfetch := fetch_of_inside (s := { s with status := Status.ok }) (readiness_eq_ok_iff.1 h).1
  unfold cycle executeWord
  rw [hfetch]
  show s.fetched.execute (.ofWord ((s.memory.word s.pc.toNat).toNat : Nat)) = _
  rw [Memory.toNat_word]
  rfl

theorem status_execute_fetched [RandomSource] {s : State} (h : s.readiness = .ok) :
    (s.fetched.execute s.current).status = s.outcome.code := by
  rw [execute_status, outcome, if_pos h]
  cases s.fetched.reported? s.current <;> rfl

/-! ## Steps by their outcome -/

theorem step_of_not_ready [RandomSource] {s : State} (h : s.readiness ≠ .ok) :
    s.step = { s with status := s.outcome.code } := by
  rw [outcome, if_neg h]
  exact if_neg h

theorem step_of_ready [RandomSource] {s : State} (h : s.readiness = .ok) :
    s.step = if s.outcome.isError then { s with status := s.outcome.code }
      else s.fetched.execute s.current := by
  have hstep : s.step =
      if Status.unknownOpcode.code ≤ { s with status := Status.ok }.cycle.status then
        { s with status := { s with status := Status.ok }.cycle.status }
      else { s with status := Status.ok }.cycle := if_pos h
  rw [hstep, cycle_eq_execute h, status_execute_fetched h]
  simp only [Status.isError_iff]

theorem step_status [RandomSource] (s : State) : s.step.status = s.outcome.code := by
  by_cases h : s.readiness = .ok
  · rw [step_of_ready h]
    split
    · rfl
    · exact status_execute_fetched h
  · rw [step_of_not_ready h]

/-- The outcomes that end a run are, as far as an instruction reports them, the errors and the wait. -/
theorem reported?_halts {s : State} {i : Instruction} {st : Status} (h : s.reported? i = some st)
    (hst : st.halts = true) :
    st.isError = true ∨ (st = .waitForKey ∧ s.lowestKey? = none ∧ ∃ x, i = .awaitKey x) := by
  cases i <;> simp only [reported?, Option.ite_none_right_eq_some, Option.some.injEq,
    reduceCtorEq] at h
  case clear => subst h; cases hst
  case awaitKey x => exact .inr ⟨h.2.symm, h.1, x, rfl⟩
  case draw =>
    split at h <;> simp only [Option.some.injEq] at h <;> subst h
    · exact .inl rfl
    · cases hst
  case unknown => subst h; exact .inl rfl
  all_goals
    rw [← h.2]
    exact .inl rfl

theorem execute_awaitKey_fetched [RandomSource] {s : State} (x : Nibble) (h : s.lowestKey? = none) :
    s.fetched.execute (.awaitKey x) = { s with status := Status.waitForKey.code } := by
  rcases s.fetched.awaitKey_cases x with ⟨-, he⟩ | ⟨k, hk, -⟩
  · show s.fetched.awaitKey x = _
    rw [he]
    simp only [fetched, UInt16.add_sub_cancel]
  · rw [show s.fetched.lowestKey? = s.lowestKey? from rfl, h] at hk
    cases hk

theorem step_of_halts [RandomSource] {s : State} (h : s.outcome.halts = true) :
    s.step = { s with status := s.outcome.code } := by
  by_cases hr : s.readiness = .ok
  · rw [step_of_ready hr]
    split
    · rfl
    · rename_i he
      rw [outcome, if_pos hr] at h he ⊢
      cases hi : s.fetched.reported? s.current with
      | none => rw [hi] at h; cases h
      | some st =>
        rw [hi] at h he
        -- short of an error only a wait halts, and it goes back to the word that was fetched
        rcases reported?_halts hi h with he' | ⟨rfl, hk, x, hx⟩
        · exact absurd he' he
        · have hup : s.lowestKey? = none := hk
          rw [hx, execute_awaitKey_fetched x hup]
          rfl
  · exact step_of_not_ready hr

/-- A step executes the instruction at the program counter, or it only records why it does not. -/
theorem step_cases [RandomSource] (s : State) :
    (s.outcome.halts = false ∧ s.readiness = .ok ∧ s.step = s.fetched.execute s.current) ∨
    (s.outcome.halts = true ∧ s.step = { s with status := s.outcome.code }) := by
  cases h : s.outcome.halts with
  | true => exact .inr ⟨rfl, step_of_halts h⟩
  | false =>
    have hr : s.readiness = .ok := by
      by_cases hr : s.readiness = .ok
      · exact hr
      · rw [outcome, if_neg hr, halts_readiness hr] at h
        cases h
    refine .inl ⟨rfl, hr, ?_⟩
    rw [step_of_ready hr, if_neg]
    intro he
    rw [Status.halts_of_isError he] at h
    cases h

/-! ## Two states with the same step ahead -/

theorem outcome_congr {s t : State} (hready : t.readiness = s.readiness) (hcurrent : t.current = s.current)
    (hreported : t.fetched.reported? s.current = s.fetched.reported? s.current) :
    t.outcome = s.outcome := by
  simp only [outcome, hready, hcurrent, hreported]

/-- Of two states with the same outcome ahead, both execute their instruction, or both only record it. -/
theorem step_cases_of_outcome_eq [RandomSource] {s t : State} (h : t.outcome = s.outcome) :
    (s.outcome.halts = false ∧ s.readiness = .ok ∧ s.step = s.fetched.execute s.current ∧
      t.step = t.fetched.execute t.current) ∨
    (s.outcome.halts = true ∧ s.step = { s with status := s.outcome.code } ∧
      t.step = { t with status := s.outcome.code }) := by
  rcases s.step_cases with ⟨hgoes, hready, hstep⟩ | ⟨hhalts, hstep⟩
  · rcases t.step_cases with ⟨-, -, hstep'⟩ | ⟨hhalts', -⟩
    · exact .inl ⟨hgoes, hready, hstep, hstep'⟩
    · rw [h, hgoes] at hhalts'
      cases hhalts'
  · have hhalts' : t.outcome.halts = true := by rw [h, hhalts]
    refine .inr ⟨hhalts, hstep, ?_⟩
    rw [step_of_halts hhalts', h]

/-! ## Steps that end a run -/

theorem running_step [RandomSource] (s : State) : s.step.running = !s.outcome.halts := by
  have h : s.step.running = true ↔ s.outcome.halts = false := by
    rw [running, decide_eq_true_eq, step_status, Status.le_draw_iff]
  cases hh : s.outcome.halts with
  | true => simpa [hh] using h
  | false => simpa [hh] using h

theorem step_step_of_halts [RandomSource] {s : State} (h : s.outcome.halts = true) :
    s.step.step = s.step := by
  rw [step_of_halts h, step_withStatus, step_of_halts h]

/-- A step that ends with an outcome other than OK and DRAW has no effect but to record it, and taken
again it ends in the same state. -/
theorem step_without_effect [RandomSource] (s : State) (hok : s.step.status ≠ Status.ok.code)
    (hdraw : s.step.status ≠ Status.draw.code) :
    s.step = { s with status := s.step.status } ∧ s.step.step = s.step := by
  rw [step_status] at hok hdraw
  have h : s.outcome.halts = true := by
    cases ho : s.outcome with
    | ok => exact absurd (congrArg Status.code ho) hok
    | draw => exact absurd (congrArg Status.code ho) hdraw
    | _ => rfl
  refine ⟨?_, step_step_of_halts h⟩
  rw [step_status]
  exact step_of_halts h

/-- The program of the one word F155 with I on the last byte: the store fails after its first byte. -/
def storingBehindMemory : State :=
  { initial ⟨0, 0⟩ {} with
    memory := Memory.blank.writeBlock programStart [0xF1, 0x55], i := 0xFFF, programEnd := 0x202 }

theorem step_storingBehindMemory :
    storingBehindMemory.step.status ≠ Status.ok.code ∧
    storingBehindMemory.step.status ≠ Status.draw.code ∧
    storingBehindMemory.step = { storingBehindMemory with status := storingBehindMemory.step.status } ∧
    storingBehindMemory.step.step = storingBehindMemory.step := by
  have hok : storingBehindMemory.step.status ≠ Status.ok.code := by decide +kernel
  have hdraw : storingBehindMemory.step.status ≠ Status.draw.code := by decide +kernel
  exact ⟨hok, hdraw, step_without_effect storingBehindMemory hok hdraw⟩

end State

end ChipEight
