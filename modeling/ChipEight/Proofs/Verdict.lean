/-
What a host makes of a recorded outcome. An error becomes a fault (`verdict_of_isError`), nothing else
does (`isError_of_verdict`), and every other outcome is handed on (`verdict_of_not_isError`).
-/
import ChipEight.Proofs.Step

namespace ChipEight

open Layout

theorem Status.ofCode_code (st : Status) : Status.ofCode st.code.toNat = .ok st := by
  rw [Status.ofCode, Status.ofCode?_code]

theorem Status.eq_code_of_ofCode {b : UInt8} {st : Status} (h : Status.ofCode b.toNat = .ok st) :
    b = st.code := by
  unfold Status.ofCode at h
  split at h
  · rename_i st' hst
    cases h
    have hb := Status.ofCode?_eq_some_iff.1 hst
    exact UInt8.toNat_inj.1 (by omega)
  · cases h

theorem Status.ofCode_ne_fault {n : Int} {f : Fault} : Status.ofCode n ≠ .error (.fault f) := by
  unfold Status.ofCode
  split <;> simp

namespace State

variable {s : State} {st : Status}

theorem verdict_of_not_isError (h : s.status = st.code) (hst : st.isError = false) :
    s.verdict = .ok st := by
  unfold verdict
  rw [h, Status.ofCode_code]
  cases st with
  | ok | draw | waitForKey | exit => rfl
  | _ => cases hst

theorem verdict_of_isError (h : s.status = st.code) (hst : st.isError = true) :
    ∃ f, s.verdict = .error (.fault f) := by
  unfold verdict
  rw [h, Status.ofCode_code]
  cases st with
  | ok | draw | waitForKey | exit => cases hst
  | _ => exact ⟨_, rfl⟩

theorem verdict_of_unknownOpcode (h : s.status = Status.unknownOpcode.code) :
    s.verdict = .error (.fault (.unknownOpcode s.word s.pc.toNat)) := by
  unfold verdict
  rw [h, Status.ofCode_code, Memory.toNat_word]
  rfl

theorem verdict_of_stackOverflow (h : s.status = Status.stackOverflow.code) :
    s.verdict = .error (.fault (.stackOverflow s.pc.toNat)) := by
  unfold verdict
  rw [h, Status.ofCode_code]

theorem verdict_of_stackUnderflow (h : s.status = Status.stackUnderflow.code) :
    s.verdict = .error (.fault (.stackUnderflow s.pc.toNat)) := by
  unfold verdict
  rw [h, Status.ofCode_code]

theorem verdict_of_outOfBounds (h : s.status = Status.outOfBounds.code) :
    s.verdict = .error (.fault (.outOfBounds s.pc.toNat s.i.toNat)) := by
  unfold verdict
  rw [h, Status.ofCode_code]

theorem isError_of_verdict {f : Fault} (h : s.verdict = .error (.fault f)) :
    ∃ st : Status, s.status = st.code ∧ st.isError = true := by
  unfold verdict at h
  split at h
  case h_1 hst | h_2 hst | h_3 hst | h_4 hst => exact ⟨_, Status.eq_code_of_ofCode hst, rfl⟩
  case h_5 => exact absurd h Status.ofCode_ne_fault

theorem verdict_eq_ok_iff (hst : st.isError = false) : s.verdict = .ok st ↔ s.status = st.code := by
  refine ⟨fun h => ?_, fun h => verdict_of_not_isError h hst⟩
  unfold verdict at h
  split at h
  case h_5 => exact Status.eq_code_of_ofCode h
  all_goals cases h

/-- Where one of the eight outcomes is recorded, only a fault stands in its place. -/
theorem eq_fault_of_verdict {e : Failure} (h : s.status = st.code) (he : s.verdict = .error e) :
    ∃ f, e = .fault f := by
  cases hst : st.isError with
  | false =>
    rw [verdict_of_not_isError h hst] at he
    cases he
  | true =>
    obtain ⟨f, hf⟩ := verdict_of_isError h hst
    rw [hf] at he
    cases he
    exact ⟨f, rfl⟩

end State

end ChipEight
