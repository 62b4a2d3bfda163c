/-
Runs of several steps. What every step keeps, a run keeps (`run_invariant`), and what steps keep between two
states, two runs keep between theirs (`run_related`). The outcome that ends a run does not stand in the way
of the next run, which starts with the same step and ends at once in the same state (`Settled`). So a run
may be made in two parts, whatever the first part ends with.
-/
import ChipEight.Proofs.Step

namespace ChipEight

open Layout

namespace State

/-! ## Turns -/

theorem turn_of_halted [RandomSource] {s : State} (h : s.running = false) : s.turn = (s, false) := by
  simp only [turn, h, Bool.false_eq_true, if_false, Bool.false_and]

theorem turn_of_running [RandomSource] {s : State} (h : s.running = true) :
    s.turn = (s.step, s.step.running) := by
  simp only [turn, h, if_true, Bool.true_and]

/-- One turn of a run, counted if the run goes on after it. -/
def Batch.advance [RandomSource] (b : Batch) : Batch :=
  ⟨b.state.turn.1, if b.state.turn.2 then b.executed + 1 else b.executed⟩

/-- A run before its first turn. -/
def begin (s : State) : Batch := ⟨{ s with status := Status.ok }, 0⟩

theorem repeat_succ_turns [RandomSource] (n : Nat) (b : Batch) :
    (n + 1).repeat Batch.advance b = n.repeat Batch.advance b.advance := by
  induction n with
  | zero => rfl
  | succ n ih => exact congrArg Batch.advance ih

theorem repeat_add_turns [RandomSource] (n m : Nat) (b : Batch) :
    (n + m).repeat Batch.advance b = m.repeat Batch.advance (n.repeat Batch.advance b) := by
  induction m with
  | zero => rfl
  | succ m ih => exact congrArg Batch.advance ih

theorem advance_of_halted [RandomSource] {b : Batch} (h : b.state.running = false) : b.advance = b := by
  simp only [Batch.advance, turn_of_halted h, Bool.false_eq_true, if_false]

theorem advance_of_running [RandomSource] {b : Batch} (h : b.state.running = true) :
    b.advance = ⟨b.state.step, if b.state.step.running then b.executed + 1 else b.executed⟩ := by
  simp only [Batch.advance, turn_of_running h]

theorem advance_executed [RandomSource] (t : State) (c : Nat) :
    Batch.advance ⟨t, c⟩ = ⟨(Batch.advance ⟨t, 0⟩).state, c + (Batch.advance ⟨t, 0⟩).executed⟩ := by
  cases h : t.running with
  | false => rw [advance_of_halted (b := ⟨t, c⟩) h, advance_of_halted (b := ⟨t, 0⟩) h]; rfl
  | true =>
    rw [advance_of_running (b := ⟨t, c⟩) h, advance_of_running (b := ⟨t, 0⟩) h]
    cases t.step.running <;> simp

theorem repeat_executed [RandomSource] (n : Nat) (t : State) (c : Nat) :
    n.repeat Batch.advance ⟨t, c⟩ =
      ⟨(n.repeat Batch.advance ⟨t, 0⟩).state, c + (n.repeat Batch.advance ⟨t, 0⟩).executed⟩ := by
  induction n generalizing t c with
  | zero => rfl
  | succ n ih =>
    rw [repeat_succ_turns, repeat_succ_turns, advance_executed, ih,
      ih (Batch.advance ⟨t, 0⟩).state (Batch.advance ⟨t, 0⟩).executed, Nat.add_assoc]

/-- A loop of turns makes them one by one and counts the flags that they put out. -/
theorem scan_turn_eq_repeat [RandomSource] {β : Type} (xs : List β) (s : State) (c : Nat) :
    (⟨(scan (fun t _ => t.turn) xs s).1, c + (scan (fun t _ => t.turn) xs s).2.count true⟩ : Batch) =
      xs.length.repeat Batch.advance ⟨s, c⟩ := by
  induction xs generalizing s c with
  | nil => rfl
  | cons x xs ih =>
    have hturn : Batch.advance ⟨s, c⟩ = ⟨s.turn.1, c + [s.turn.2].count true⟩ := by
      cases hgoes : s.turn.2 <;> simp [Batch.advance, hgoes]
    rw [scan_cons, List.length_cons, repeat_succ_turns, hturn, ← ih, List.count_cons, Nat.add_assoc,
      List.count_singleton, Nat.add_comm (List.count _ _)]

theorem run_eq_repeat [RandomSource] (s : State) (n : Int) :
    s.run n = n.toNat.repeat Batch.advance s.begin := by
  have hturns := scan_turn_eq_repeat (List.range n.toNat) { s with status := Status.ok } 0
  rwa [List.length_range, Nat.zero_add] at hturns

theorem run_natCast [RandomSource] (s : State) (n : Nat) :
    s.run n = n.repeat Batch.advance s.begin := s.run_eq_repeat n

theorem run_toNat [RandomSource] (s : State) (n : Int) : s.run n.toNat = s.run n := by
  simp only [run, Int.toNat_natCast]

theorem running_begin (s : State) : s.begin.state.running = true := rfl

/-- What holds at the start of a run and is kept by every step holds at its end. -/
theorem run_invariant [RandomSource] {P : State → Prop} {s : State} (hbegin : P s.begin.state)
    (hstep : ∀ t, P t → P t.step) (n : Int) : P (s.run n).state := by
  have hturns (k : Nat) : P (k.repeat Batch.advance s.begin).state := by
    induction k with
    | zero => exact hbegin
    | succ k ih =>
      show P (Batch.advance (k.repeat Batch.advance s.begin)).state
      cases hr : (k.repeat Batch.advance s.begin).state.running with
      | false => rwa [advance_of_halted hr]
      | true =>
        rw [advance_of_running hr]
        exact hstep _ ih
  rw [run_eq_repeat]
  exact hturns n.toNat

/-- Two runs side by side: a relation between states with the same outcome that holds at the start and that
steps on both sides keep holds at the end, and the runs count alike. -/
theorem run_related [RandomSource] {R : State → State → Prop} (hstatus : ∀ a b, R a b → a.status = b.status)
    (hstep : ∀ a b, R a b → R a.step b.step) {s t : State} (hbegin : R s.begin.state t.begin.state)
    (n : Int) : R (s.run n).state (t.run n).state ∧ (s.run n).executed = (t.run n).executed := by
  have hrunning {a b : State} (h : R a b) : a.running = b.running := by
    unfold running
    rw [hstatus a b h]
  have hturns (k : Nat) : R (k.repeat Batch.advance s.begin).state (k.repeat Batch.advance t.begin).state ∧
      (k.repeat Batch.advance s.begin).executed = (k.repeat Batch.advance t.begin).executed := by
    induction k with
    | zero => exact ⟨hbegin, rfl⟩
    | succ k ih =>
      obtain ⟨hstate, hcount⟩ := ih
      show R (Batch.advance (k.repeat Batch.advance s.begin)).state
          (Batch.advance (k.repeat Batch.advance t.begin)).state ∧
        (Batch.advance (k.repeat Batch.advance s.begin)).executed =
          (Batch.advance (k.repeat Batch.advance t.begin)).executed
      cases hr : (k.repeat Batch.advance s.begin).state.running with
      | false =>
        have hr' := (hrunning hstate).symm.trans hr
        rw [advance_of_halted hr, advance_of_halted hr']
        exact ⟨hstate, hcount⟩
      | true =>
        have hr' := (hrunning hstate).symm.trans hr
        have hnext := hstep _ _ hstate
        rw [advance_of_running hr, advance_of_running hr', hrunning hnext, hcount]
        exact ⟨hnext, rfl⟩
  rw [run_eq_repeat, run_eq_repeat]
  exact hturns n.toNat

theorem run_status [RandomSource] (s : State) (n : Int) : ∃ st : Status, (s.run n).state.status = st.code :=
  run_invariant (P := fun t => ∃ st : Status, t.status = st.code) ⟨.ok, rfl⟩
    (fun t _ => ⟨t.outcome, t.step_status⟩) n

/-! ## Settled states -/

/-- A state that ends a run is one that another step does not change. -/
def Settled [RandomSource] (s : State) : Prop := s.running = false → s.step = s

theorem settled_step [RandomSource] (s : State) : s.step.Settled := by
  intro h
  rw [running_step, Bool.not_eq_false'] at h
  exact step_step_of_halts h

theorem settled_run [RandomSource] (s : State) (n : Int) : (s.run n).state.Settled := by
  refine run_invariant ?_ (fun t _ => settled_step t) n
  intro h
  cases (running_begin s).symm.trans h

/-- The first turn of a run does not see the outcome of the run before. -/
theorem advance_begin [RandomSource] {t : State} (ht : t.Settled) :
    Batch.advance t.begin = Batch.advance ⟨t, 0⟩ := by
  rw [advance_of_running (running_begin t)]
  have hstep : t.begin.state.step = t.step := t.step_withStatus Status.ok.code
  rw [hstep]
  cases hr : t.running with
  | true => rw [advance_of_running hr]; rfl
  | false =>
    rw [advance_of_halted (b := ⟨t, 0⟩) hr, ht hr, hr]
    rfl

/-! ## Runs in two parts -/

theorem run_run [RandomSource] (s : State) (n k : Nat) :
    (s.run n).state.run (k + 1 : Nat) = (k + 1).repeat Batch.advance ⟨(s.run n).state, 0⟩ := by
  rw [run_natCast, repeat_succ_turns, advance_begin (settled_run s n), ← repeat_succ_turns]

/-- A run of `n + m` steps is a run of `n` steps and then one of `m` steps, with the same final state
and the sum of the counts, also where the first of the two ends early. -/
theorem run_add [RandomSource] (s : State) {n m : Int} (hn : 0 ≤ n) (hm : 1 ≤ m) :
    (s.run (n + m)).state = ((s.run n).state.run m).state ∧
    (s.run (n + m)).executed = (s.run n).executed + ((s.run n).state.run m).executed := by
  obtain ⟨n, rfl⟩ := Int.eq_ofNat_of_zero_le hn
  obtain ⟨k, hk⟩ := Int.eq_ofNat_of_zero_le (show 0 ≤ m - 1 by omega)
  obtain rfl : m = (k + 1 : Nat) := by omega
  -- the second run goes on as if it had not begun anew, but needs a turn to do so
  have hparts : s.run (n + (k + 1 : Nat)) =
      (k + 1).repeat Batch.advance ⟨(s.run n).state, (s.run n).executed⟩ := by
    rw [← Int.natCast_add, run_natCast, repeat_add_turns, run_natCast]
  rw [hparts, run_run, repeat_executed]
  exact ⟨rfl, rfl⟩

theorem run_add_storingBehindMemory :
    (0 : Int) ≤ 2 ∧ (1 : Int) ≤ 3 ∧
    (storingBehindMemory.run 2).state.status = Status.outOfBounds.code ∧
    (storingBehindMemory.run (2 + 3)).state = ((storingBehindMemory.run 2).state.run 3).state ∧
    (storingBehindMemory.run (2 + 3)).executed =
      (storingBehindMemory.run 2).executed + ((storingBehindMemory.run 2).state.run 3).executed := by
  have hn : (0 : Int) ≤ 2 := by decide
  have hm : (1 : Int) ≤ 3 := by decide
  exact ⟨hn, hm, by decide +kernel, run_add storingBehindMemory hn hm⟩

end State

end ChipEight
