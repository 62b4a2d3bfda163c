/-
What the trace of a step tells. A step asked for its trace prints the word at the program counter wherever that word
lies inside memory, before it looks whether the program reaches that far (`trace_eq`), and none of its complaints
reads like a line of the trace (`filter_step_log`). So a word that is executed has its one line, but a step that ends
in EXIT prints a line for a word that it never fetches: trace and execution agree exactly unless the outcome is
EXIT (`trace_agrees`).
-/
import ChipEight.Proofs.Mnemonic
import ChipEight.Proofs.ProgramBounds

namespace ChipEight

open Layout Text

/-! ## Lines of the trace -/

namespace Entry

/-- The entry reads like a line of the trace, of whatever level it is. -/
def isExec (e : Entry) : Bool := "EXEC ".toList.isPrefixOf e.message.toList

theorem isExec_exec (address word : Nat) : (exec address word).isExec = true := by
  have hhead : "EXEC 0x".toList = "EXEC ".toList ++ "0x".toList := rfl
  rw [isExec, List.isPrefixOf_iff_prefix]
  simp only [exec, String.toList_append, hhead, List.append_assoc]
  exact List.prefix_append _ _

theorem not_isExec_of_head {e : Entry} (h : e.message.toList.head? ≠ some 'E') : e.isExec = false := by
  rw [isExec, Bool.eq_false_iff, Ne, List.isPrefixOf_iff_prefix]
  rintro ⟨rest, hrest⟩
  rw [← hrest] at h
  exact h rfl

end Entry

/-- No fault that a state reports reads like a line of the trace. -/
theorem State.not_isExec_of_verdict {s : State} {f : Fault} (h : s.verdict = .error (.fault f))
    (level : Level) : Entry.isExec ⟨level, f.message⟩ = false := by
  unfold verdict at h
  split at h
  case h_5 => exact absurd h Status.ofCode_ne_fault
  all_goals
    rw [← Failure.fault.inj (Except.error.inj h)]
    refine Entry.not_isExec_of_head ?_
    unfold Fault.message
    simp

namespace Machine

variable {m : Machine}

theorem not_isExec_of_complaint {e : Entry} (h : e ∈ m.complain m.state.verdict) : e.isExec = false := by
  unfold complain at h
  split at h
  · rename_i f hverdict
    rw [note_eq] at h
    split at h
    · rw [List.mem_singleton.1 h]
      exact State.not_isExec_of_verdict hverdict _
    · cases h
  · cases h

/-- The lines of the trace among those that a step prints. -/
theorem filter_step_log (m : Machine) : m.step.log.filter Entry.isExec = m.trace := by
  let after : Machine := { m with state := m.state.step }
  have htrace : m.trace.filter Entry.isExec = m.trace := by
    rw [List.filter_eq_self]
    intro e he
    rw [trace_eq] at he
    split at he
    · rw [List.mem_singleton.1 he]
      exact Entry.isExec_exec _ _
    · cases he
  have hcomplaints : (after.complain after.state.verdict).filter Entry.isExec = [] := by
    rw [List.filter_eq_nil_iff]
    intro e he
    rw [not_isExec_of_complaint he]
    exact Bool.false_ne_true
  show (m.trace ++ after.complain after.state.verdict).filter Entry.isExec = m.trace
  rw [List.filter_append, htrace, hcomplaints, List.append_nil]

end Machine

/-! ## Steps that end in EXIT -/

namespace State

variable {s : State}

theorem reported?_ne_exit (s : State) (i : Instruction) : s.reported? i ≠ some .exit := by
  intro h
  rcases reported?_halts h rfl with herror | ⟨hwait, -⟩
  · cases herror
  · cases hwait

theorem readiness_eq_exit_iff :
    s.readiness = .exit ↔ s.dispatched? = none ∧ s.pc.toNat + 1 < memorySize := by
  rw [dispatched?_eq_none_iff, readiness_eq]
  split
  · rename_i houtside
    simp [Nat.not_lt.2 houtside]
  · rename_i hinside
    have hinside := Nat.not_le.1 hinside
    split <;> simp [hinside]

/-- No instruction reports EXIT: it is the outcome of a word in memory that is not one of the program. -/
theorem outcome_eq_exit_iff :
    s.outcome = .exit ↔ s.dispatched? = none ∧ s.pc.toNat + 1 < memorySize := by
  rw [← readiness_eq_exit_iff]
  unfold outcome
  split
  · rename_i hready
    rw [hready]
    cases h : s.fetched.reported? s.current with
    | none => simp
    | some st =>
      have hne : st ≠ .exit := fun hst => reported?_ne_exit _ _ (hst ▸ h)
      simp [hne]
  · rfl

end State

namespace Machine

variable {m : Machine}

theorem step_result_eq_exit_iff :
    m.step.result = .ok .exit ↔ m.state.dispatched? = none ∧ m.state.pc.toNat + 1 < memorySize := by
  have hresult : m.step.result = .ok .exit ↔ m.state.step.status = Status.exit.code :=
    State.verdict_eq_ok_iff rfl
  rw [hresult, State.step_status, ← State.outcome_eq_exit_iff]
  exact ⟨Status.code_inj, congrArg Status.code⟩

/-! ## Trace and execution -/

/-- With the threshold at DEBUG, a step that executes a word prints one line of the trace, with the address, the
word and its text. A step that executes none prints a line all the same if there is a word in memory at the
program counter. So the trace lists what is executed exactly if the step does not end in EXIT. -/
theorem trace_agrees (m : Machine) (h : m.console.threshold = .debug) :
    let lines := m.step.log.filter Entry.isExec
    (∀ w, m.state.dispatched? = some w → lines = [.exec m.state.pc.toNat w]) ∧
    (m.state.dispatched? = none →
      lines = if m.state.pc.toNat + 1 < 4096 then [.exec m.state.pc.toNat m.state.word] else []) ∧
    (lines = (m.state.dispatched?.map (Entry.exec m.state.pc.toNat)).toList ↔ m.step.result ≠ .ok .exit) := by
  intro lines
  have hlines : lines = if m.state.pc.toNat + 1 < memorySize then
      [.exec m.state.pc.toNat m.state.word] else [] := by
    show m.step.log.filter Entry.isExec = _
    rw [filter_step_log, trace_eq]
    simp only [h, true_and]
  have hexecuted (w : Nat) (hw : m.state.dispatched? = some w) : lines = [.exec m.state.pc.toNat w] := by
    obtain ⟨hready, rfl⟩ := State.dispatched?_eq_some_iff.1 hw
    rw [hlines, if_pos (State.readiness_eq_ok_iff.1 hready).1]
  refine ⟨hexecuted, fun _ => hlines, ?_⟩
  rw [Ne, step_result_eq_exit_iff]
  cases hw : m.state.dispatched? with
  | some w => simp [hexecuted w hw]
  | none =>
    rw [hlines]
    by_cases hpc : m.state.pc.toNat + 1 < memorySize <;> simp [hpc]

theorem trace_agrees_tracing :
    tracing.console.threshold = .debug ∧
    tracing.step.log.filter Entry.isExec = [⟨.debug, "EXEC 0x200 6001 LD V0, 0x01"⟩] := by
  have hdebug : tracing.console.threshold = .debug := rfl
  obtain ⟨hexecuted, -, -⟩ := trace_agrees tracing hdebug
  exact ⟨hdebug, hexecuted 0x6001 (by decide +kernel)⟩

/-- The machine whose program is the one word 1050, a jump to the glyphs, after that jump. -/
def strayed : Machine :=
  (({ tracing with state := .initial ⟨0, 0⟩ {} } : Machine).load [0x10, 0x50]).machine.step.machine

/-- Its next step ends the program and fetches nothing, but prints the glyph as if it were executed. -/
theorem strayed_traced :
    strayed.console.threshold = .debug ∧ strayed.state.pc = 0x050 ∧ strayed.state.programEnd = 0x202 ∧
    strayed.state.dispatched? = none ∧ strayed.step.result = .ok .exit ∧
    strayed.step.log = [⟨.debug, "EXEC 0x050 F090 ??? 0xF090"⟩] := by
  decide +kernel

end Machine

end ChipEight
