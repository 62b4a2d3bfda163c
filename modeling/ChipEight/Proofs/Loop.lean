/-
Runs against the plain loop of steps. `State.trail` makes steps one by one and makes no more after the
first that ends otherwise than OK or DRAW. A run does not stop there, but has turns left that do nothing,
and it counts by a flag of each turn; `run_eq_loop` shows that it still ends where the loop ends and
counts the steps of the loop that ended OK or DRAW, which are all of them but one that halts.
-/
import ChipEight.Proofs.Run

namespace ChipEight

open Layout

namespace State

/-! ## The loop -/

/-- The last step ended OK or DRAW. -/
def GoesOn (s : State) : Prop := s.status = Status.ok.code ∨ s.status = Status.draw.code

instance (s : State) : Decidable s.GoesOn := inferInstanceAs (Decidable (_ ∨ _))

/-- The states behind the steps of the loop, in order: up to `n` steps, each made only if the one before
it ended OK or DRAW. -/
def trail [RandomSource] (s : State) : Nat → List State
  | 0 => []
  | n + 1 => s.step :: if s.step.GoesOn then s.step.trail n else []

theorem running_iff {s : State} : s.running = true ↔ s.GoesOn := by
  unfold running GoesOn
  rw [decide_eq_true_iff, UInt8.le_iff_toNat_le, ← UInt8.toNat_inj, ← UInt8.toNat_inj]
  show s.status.toNat ≤ 1 ↔ s.status.toNat = 0 ∨ s.status.toNat = 1
  omega

theorem not_running {s : State} (h : ¬ s.GoesOn) : s.running = false :=
  Bool.eq_false_iff.2 fun hr => h (running_iff.1 hr)

theorem goesOn_step_iff [RandomSource] {s : State} : s.step.GoesOn ↔ s.outcome.halts = false := by
  rw [← running_iff, running_step, Bool.not_eq_true']

theorem trail_of_goesOn [RandomSource] {s : State} (h : s.step.GoesOn) (n : Nat) :
    s.trail (n + 1) = s.step :: s.step.trail n := by
  rw [trail, if_pos h]

theorem trail_of_halts [RandomSource] {s : State} (h : ¬ s.step.GoesOn) (n : Nat) :
    s.trail (n + 1) = [s.step] := by
  rw [trail, if_neg h]

/-- The loop does not see the outcome of what came before it. -/
theorem trail_withStatus [RandomSource] (s : State) (code : UInt8) (n : Nat) :
    { s with status := code }.trail n = s.trail n := by
  have hstep : { s with status := code }.step = s.step := s.step_withStatus code
  cases n with
  | zero => rfl
  | succ n => rw [trail, trail, hstep]

/-- The states in which the loop makes its steps, in order. -/
def starts [RandomSource] (s : State) : Nat → List State
  | 0 => []
  | n + 1 => s :: if s.step.GoesOn then s.step.starts n else []

theorem starts_of_goesOn [RandomSource] {s : State} (h : s.step.GoesOn) (n : Nat) :
    s.starts (n + 1) = s :: s.step.starts n := by
  rw [starts, if_pos h]

theorem starts_of_halts [RandomSource] {s : State} (h : ¬ s.step.GoesOn) (n : Nat) :
    s.starts (n + 1) = [s] := by
  rw [starts, if_neg h]

theorem trail_eq_map [RandomSource] (s : State) (n : Nat) : s.trail n = (s.starts n).map step := by
  induction n generalizing s with
  | zero => rfl
  | succ n ih =>
    by_cases hstep : s.step.GoesOn
    · rw [trail_of_goesOn hstep, starts_of_goesOn hstep, List.map_cons, ih]
    · rw [trail_of_halts hstep, starts_of_halts hstep]
      rfl

/-! ## Turns against the loop -/

theorem repeat_of_halted [RandomSource] {b : Batch} (h : b.state.running = false) (n : Nat) :
    n.repeat Batch.advance b = b := by
  induction n with
  | zero => rfl
  | succ n ih => rw [repeat_succ_turns, advance_of_halted h, ih]

theorem advance_counted [RandomSource] {s : State} (hs : s.GoesOn) (hstep : s.step.GoesOn) (c : Nat) :
    Batch.advance ⟨s, c⟩ = ⟨s.step, c + 1⟩ := by
  have hrun : s.running = true := running_iff.2 hs
  have hrun' : s.step.running = true := running_iff.2 hstep
  rw [advance_of_running hrun, if_pos hrun']

theorem advance_halting [RandomSource] {s : State} (hs : s.GoesOn) (hstep : ¬ s.step.GoesOn) (c : Nat) :
    Batch.advance ⟨s, c⟩ = ⟨s.step, c⟩ := by
  have hrun : s.running = true := running_iff.2 hs
  have hrun' : s.step.running = false := not_running hstep
  rw [advance_of_running hrun, if_neg (Bool.eq_false_iff.1 hrun')]

/-- The invariant of a run: from a state that goes on, `n` turns end where the loop of `n` steps ends,
and count those of its steps that went on. -/
theorem repeat_eq_trail [RandomSource] {s : State} (hs : s.GoesOn) (n c : Nat) :
    n.repeat Batch.advance ⟨s, c⟩ =
      ⟨(s.trail n).getLast?.getD s, c + (s.trail n).countP (·.GoesOn)⟩ := by
  induction n generalizing s c with
  | zero => rfl
  | succ n ih =>
    rw [repeat_succ_turns]
    by_cases hstep : s.step.GoesOn
    · have hcount : (s.step :: s.step.trail n).countP (·.GoesOn) =
          (s.step.trail n).countP (·.GoesOn) + 1 := List.countP_cons_of_pos (decide_eq_true hstep)
      rw [advance_counted hs hstep, ih hstep, trail_of_goesOn hstep, List.getLast?_cons, hcount,
        Option.getD_some, Nat.add_assoc, Nat.add_comm 1]
    · have hcount : [s.step].countP (·.GoesOn) = 0 := List.countP_cons_of_neg (by simpa using hstep)
      -- the turns left do nothing
      rw [advance_halting hs hstep, repeat_of_halted (not_running hstep), trail_of_halts hstep, hcount]
      rfl

/-- The steps of the loop fall into those that went on and then at most one that halts; without it
all `n` steps are made. -/
theorem trail_split [RandomSource] (s : State) (n : Nat) :
    ∃ counted halting : List State, s.trail n = counted ++ halting ∧
      (∀ t ∈ counted, t.GoesOn) ∧ (∀ t ∈ halting, ¬ t.GoesOn) ∧
      halting.length ≤ 1 ∧ (halting = [] → counted.length = n) := by
  induction n generalizing s with
  | zero => exact ⟨[], [], by simp [trail]⟩
  | succ n ih =>
    by_cases hstep : s.step.GoesOn
    · obtain ⟨counted, halting, heq, hcounted, hhalting, hlen, hall⟩ := ih s.step
      refine ⟨s.step :: counted, halting, ?_, ?_, hhalting, hlen, fun h => ?_⟩
      · rw [trail_of_goesOn hstep, heq, List.cons_append]
      · rintro t (_ | ⟨_, ht⟩)
        · exact hstep
        · exact hcounted t ht
      · rw [List.length_cons, hall h]
    · refine ⟨[], [s.step], ?_, ?_, ?_, Nat.le_refl _, ?_⟩
      · rw [trail_of_halts hstep, List.nil_append]
      · simp
      · simpa using hstep
      · simp

theorem countP_append_of_split {counted halting : List State} (hcounted : ∀ t ∈ counted, t.GoesOn)
    (hhalting : ∀ t ∈ halting, ¬ t.GoesOn) :
    (counted ++ halting).countP (·.GoesOn) = counted.length := by
  have hall : counted.countP (·.GoesOn) = counted.length :=
    List.countP_eq_length.2 (by simpa using hcounted)
  have hnone : halting.countP (·.GoesOn) = 0 := List.countP_eq_zero.2 (by simpa using hhalting)
  rw [List.countP_append, hall, hnone, Nat.add_zero]

/-! ## Runs against the loop -/

theorem run_eq_trail [RandomSource] (s : State) (n : Nat) :
    s.run n =
      ⟨(s.trail n).getLast?.getD { s with status := Status.ok }, (s.trail n).countP (·.GoesOn)⟩ := by
  have hgo : s.begin.state.GoesOn := .inl rfl
  have hturns := repeat_eq_trail hgo n 0
  have htrail : s.begin.state.trail n = s.trail n := s.trail_withStatus Status.ok.code n
  rw [htrail, Nat.zero_add] at hturns
  rw [run_natCast]
  exact hturns

/-- A run ends where the last step that it makes leads to. -/
theorem run_state_eq [RandomSource] (s : State) (n : Int) :
    (s.run n).state =
      ((s.starts n.toNat).getLast?.map step).getD { s with status := Status.ok } := by
  rw [← s.run_toNat, run_eq_trail, trail_eq_map, List.getLast?_map]

/-- Each step may be given a record of what it does. What holds of a state and the records of the steps that
led to it, and goes on holding over one step and its record, holds behind a run with the records of its steps. -/
theorem run_record [RandomSource] {α : Type} {R : State → List α → Prop} {record : State → List α}
    (hstep : ∀ (t : State) (earlier : List α), R t earlier → R t.step (earlier ++ record t))
    {s : State} {earlier : List α} (hs : R s earlier) (hok : R { s with status := Status.ok } earlier)
    (n : Int) : R (s.run n).state (earlier ++ (s.starts n.toNat).flatMap record) := by
  have htrail (k : Nat) {s d : State} {earlier : List α} (hs : R s earlier) (hd : R d earlier) :
      R ((s.trail k).getLast?.getD d) (earlier ++ (s.starts k).flatMap record) := by
    induction k generalizing s d earlier with
    | zero => rwa [starts, List.flatMap_nil, List.append_nil]
    | succ k ih =>
      have hnext := hstep s earlier hs
      by_cases hgoes : s.step.GoesOn
      · rw [trail_of_goesOn hgoes, starts_of_goesOn hgoes, List.getLast?_cons, List.flatMap_cons,
          ← List.append_assoc]
        exact ih hnext hnext
      · rw [trail_of_halts hgoes, starts_of_halts hgoes, List.flatMap_singleton]
        exact hnext
  rw [← s.run_toNat, run_eq_trail]
  exact htrail n.toNat hs hok

/-- A run of `n` instructions ends behind the last step of the loop, and counts the steps of the loop
that ended OK or DRAW: these come first, and at most one step, which halts the loop, comes after them. -/
theorem run_eq_loop [RandomSource] (s : State) (n : Nat) :
    (s.run n).state =
      ({ s with status := Status.ok }.trail n).getLast?.getD { s with status := Status.ok } ∧
    (s.run n).executed = ({ s with status := Status.ok }.trail n).countP (GoesOn ·) ∧
    ∃ counted halting : List State,
      { s with status := Status.ok }.trail n = counted ++ halting ∧
      (∀ t ∈ counted, t.GoesOn) ∧ (∀ t ∈ halting, ¬ t.GoesOn) ∧ halting.length ≤ 1 ∧
      (halting = [] → counted.length = n) ∧ (s.run n).executed = counted.length := by
  have htrail : { s with status := Status.ok }.trail n = s.trail n := s.trail_withStatus Status.ok.code n
  have hcount : (s.run n).executed = (s.trail n).countP (·.GoesOn) :=
    congrArg Batch.executed (s.run_eq_trail n)
  obtain ⟨counted, halting, heq, hcounted, hhalting, hlen, hall⟩ := s.trail_split n
  rw [htrail]
  refine ⟨congrArg Batch.state (s.run_eq_trail n), hcount, counted, halting, heq, hcounted, hhalting,
    hlen, hall, ?_⟩
  rw [hcount, heq, countP_append_of_split hcounted hhalting]

end State

end ChipEight
