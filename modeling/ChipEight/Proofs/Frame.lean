/-
A frame against single steps. `Machine.steps` is the loop of a host that makes its steps one at a time
and looks at the result of each, where a frame makes them in one run and looks at the end. The results
that the host sees are the verdicts on the states of the run (`map_steps`), so both stop at the same
step, with the same result and in the same state, and `frame_eq_steps` follows.
-/
import ChipEight.Machine
import ChipEight.Proofs.Loop
import ChipEight.Proofs.Verdict

namespace ChipEight

open Layout

/-- The step was neither refused nor ended otherwise than OK or DRAW. -/
def Outcome.goesOn (o : Outcome Status) : Bool :=
  match o.result with
  | .ok .ok | .ok .draw => true
  | _ => false

theorem Outcome.goesOn_iff {o : Outcome Status} :
    o.goesOn = true ↔ o.result = .ok .ok ∨ o.result = .ok .draw := by
  unfold goesOn
  split <;> simp_all

namespace Machine

/-! ## The host's loop -/

/-- The steps of the host, in order: up to `n` of them, each made only if the one before it went on. -/
def steps (m : Machine) : Nat → List (Outcome Status)
  | 0 => []
  | n + 1 => m.step :: if m.step.goesOn then m.step.machine.steps n else []

theorem goesOn_step {m : Machine} : m.step.goesOn = true ↔ m.state.step.GoesOn := by
  rw [Outcome.goesOn_iff]
  exact or_congr (State.verdict_eq_ok_iff rfl) (State.verdict_eq_ok_iff rfl)

/-- The host sees the verdicts on the states that the plain loop goes through. -/
theorem map_steps (m : Machine) (n : Nat) :
    (m.steps n).map (fun o => (o.result, o.machine)) =
      (m.state.trail n).map fun t => (t.verdict, { m with state := t }) := by
  induction n generalizing m with
  | zero => rfl
  | succ n ih =>
    by_cases hstep : m.state.step.GoesOn
    · rw [steps, if_pos (goesOn_step.2 hstep), State.trail_of_goesOn hstep, List.map_cons,
        List.map_cons, ih]
      rfl
    · rw [steps, if_neg (mt goesOn_step.1 hstep), State.trail_of_halts hstep]
      rfl

/-! ## Frames -/

theorem frameLength_eq_ok_iff {m : Machine} {k : Int} :
    m.frameLength = .ok k ↔ m.clock.frameLength? = some k := by
  unfold frameLength
  cases m.clock.frameLength? <;> simp

theorem frame_result {m : Machine} {k : Int} (hk : m.frameLength = .ok k) :
    m.frame.result = (m.state.run k).state.verdict := by
  simp only [frame, frameLength_eq_ok_iff.1 hk]

theorem frame_machine {m : Machine} {k : Int} (hk : m.frameLength = .ok k) :
    m.frame.machine =
      if m.frame.result.isOk then { m with state := (m.state.run k).state.tick }
      else { m with state := (m.state.run k).state } := by
  rw [frame_result hk]
  simp only [frame, frameLength_eq_ok_iff.1 hk]
  rfl

/-- A frame of at least one instruction has the result of the last step that the host's loop makes. If it
is a failure, the fault of an instruction, the machine is left as that step left it; if it is an outcome,
the timers have ticked once. -/
theorem frame_eq_steps {m : Machine} {k : Int} (hk : m.frameLength = .ok k) (hpos : 1 ≤ k) :
    ∃ last, (m.steps k.toNat).getLast? = some last ∧
      m.frame.result = last.result ∧
      (∀ e, last.result = .error e → (∃ f, e = .fault f) ∧ m.frame.machine = last.machine) ∧
      (∀ st, last.result = .ok st → m.frame.machine = last.machine.tick) := by
  obtain ⟨n, hn⟩ := Int.eq_ofNat_of_zero_le (show 0 ≤ k - 1 by omega)
  obtain rfl : k = (n + 1 : Nat) := by omega
  rw [Int.toNat_natCast]
  -- the last state of the plain loop is the one that the run ends in
  obtain ⟨t, ht⟩ : ∃ t, (m.state.trail (n + 1)).getLast? = some t := by
    rw [State.trail]
    exact ⟨_, List.getLast?_cons⟩
  have hrun : (m.state.run (n + 1 : Nat)).state = t := by
    rw [State.run_eq_trail, ht]
    rfl
  -- and the last result that the host sees is the verdict on it
  have hlast := congrArg List.getLast? (m.map_steps (n + 1))
  rw [List.getLast?_map, List.getLast?_map, ht] at hlast
  obtain ⟨last, hmem, heq⟩ := Option.map_eq_some_iff.1 hlast
  obtain ⟨hresult, hmachine⟩ := Prod.mk.inj heq
  have hframe : m.frame.result = last.result := by rw [frame_result hk, hrun, hresult]
  refine ⟨last, hmem, hframe, fun e he => ⟨?_, ?_⟩, fun st hst => ?_⟩
  · obtain ⟨st, hst⟩ := m.state.run_status (n + 1 : Nat)
    rw [hrun] at hst
    exact State.eq_fault_of_verdict hst (hresult.symm.trans he)
  · rw [frame_machine hk, hframe, he, hrun, hmachine]
    rfl
  · rw [frame_machine hk, hframe, hst, hrun, hmachine]
    rfl

/-- At the usual rates, the program of the words 6A01 and F155 with I on the last byte: the second of the
eleven instructions of a frame fails. -/
def failingStore : Machine where
  state := { State.initial ⟨0, 0⟩ {} with
    memory := Memory.blank.writeBlock programStart [0x6A, 0x01, 0xF1, 0x55], i := 0xFFF,
    programEnd := 0x204 }
  clock := ⟨700, 60, by decide⟩
  console := ⟨"chip8", .info, false, none⟩

theorem failingStore_frame :
    failingStore.frameLength = .ok 11 ∧ (1 : Int) ≤ 11 ∧ failingStore.frame.result.isOk = false ∧
    ∃ last, (failingStore.steps (11 : Int).toNat).getLast? = some last ∧
      failingStore.frame.result = last.result ∧
      (∀ e, last.result = .error e →
        (∃ f, e = .fault f) ∧ failingStore.frame.machine = last.machine) ∧
      (∀ st, last.result = .ok st → failingStore.frame.machine = last.machine.tick) := by
  have hk : failingStore.frameLength = .ok 11 := rfl
  have hpos : (1 : Int) ≤ 11 := by decide
  exact ⟨hk, hpos, by decide +kernel, frame_eq_steps hk hpos⟩

end Machine

end ChipEight
