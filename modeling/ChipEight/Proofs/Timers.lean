/-
The timers along the life of a machine. Among the instructions only Fx15 and Fx18 touch a timer, each
its own (`step_timer`); all else that changes one is a tick or a reset. So a timer shows the value that was
stored in it last, less one for each tick since then, and zero once these have used it up: the invariant
`Timer.Shows` holds at the start, each of the three events keeps it, and so do steps, runs and all calls of
a host, failing ones included (`timer_performAll`).
-/
import ChipEight.Proofs.Frame
import ChipEight.Proofs.History
import ChipEight.Proofs.HostCall
import ChipEight.Proofs.Outcome
import Mathlib.Data.List.DropRight

namespace ChipEight

open Layout

/-! ## Events of a timer -/

/-- The timer that programs can read, and the one that sounds the tone. -/
inductive Timer
  | delay
  | sound
deriving DecidableEq

inductive TimerEvent
  /-- An instruction stores a value in the timer. -/
  | stored (value : UInt8)
  | ticked
  /-- The machine starts over. -/
  | restarted
deriving DecidableEq

namespace TimerEvent

def isTick : TimerEvent → Bool
  | ticked => true
  | _ => false

/-- The number of ticks behind the last event that is none. -/
def ticksSince (events : List TimerEvent) : Nat := (events.rtakeWhile isTick).length

/-- The value stored last, or zero where none has been stored since the start. -/
def lastStored (events : List TimerEvent) : UInt8 :=
  match (events.rdropWhile isTick).getLast? with
  | some (.stored value) => value
  | _ => 0

/-- What is left of the value stored last. -/
def left (events : List TimerEvent) : Nat := (lastStored events).toNat - ticksSince events

variable (events : List TimerEvent)

theorem left_nil : left [] = 0 := rfl

theorem left_stored (value : UInt8) : left (events ++ [.stored value]) = value.toNat := by
  have htick : ¬ (stored value).isTick = true := Bool.false_ne_true
  simp only [left, lastStored, ticksSince, List.rdropWhile_concat_neg _ _ _ htick,
    List.rtakeWhile_concat_neg _ _ _ htick, List.getLast?_concat, List.length_nil, Nat.sub_zero]

theorem left_restarted : left (events ++ [.restarted]) = 0 := by
  have htick : ¬ restarted.isTick = true := Bool.false_ne_true
  simp only [left, lastStored, ticksSince, List.rdropWhile_concat_neg _ _ _ htick,
    List.rtakeWhile_concat_neg _ _ _ htick, List.getLast?_concat, List.length_nil, Nat.sub_zero]
  rfl

theorem left_ticked : left (events ++ [.ticked]) = left events - 1 := by
  have htick : ticked.isTick = true := rfl
  simp only [left, lastStored, ticksSince, List.rdropWhile_concat_pos _ _ _ htick,
    List.rtakeWhile_concat_pos _ _ _ htick, List.length_append, List.length_singleton, Nat.sub_sub]

end TimerEvent

namespace Timer

def value (s : State) : Timer → UInt8
  | delay => s.delay
  | sound => s.sound

/-- Whether the word sets the timer, as Fx15 does the one and Fx18 the other. -/
def setBy (timer : Timer) (w : Nat) : Bool :=
  w / 4096 == 0xF && w % 256 == match timer with
    | delay => 0x15
    | sound => 0x18

/-- The instruction that sets the timer to Vx. -/
def setter (x : Nibble) : Timer → Instruction
  | delay => .setDelay x
  | sound => .setSound x

theorem setter_hasWord_iff {timer : Timer} {x : Nibble} {w : Nat} :
    (timer.setter x).HasWord w ↔ timer.setBy w = true ∧ x = xOf w := by
  simp only [setBy, Bool.and_eq_true, beq_iff_eq, and_assoc]
  cases timer <;> exact Iff.rfl

end Timer

namespace State

/-! ## Steps -/

/-- The value that the next step stores in the timer, if its instruction is one that does. -/
def stored? (s : State) (timer : Timer) : Option UInt8 :=
  s.dispatched?.bind fun w => if timer.setBy w then some (s.v.get (xOf w)) else none

/-- The events of the next step. -/
def timerEvents (s : State) (timer : Timer) : List TimerEvent :=
  ((s.stored? timer).map TimerEvent.stored).toList

/-- The events of the steps of a run. -/
def runTimerEvents (s : State) (timer : Timer) (n : Nat) : List TimerEvent :=
  (s.starts n).flatMap (·.timerEvents timer)

variable {s : State} {timer : Timer} {w : Nat}

theorem value_setter (s : State) (timer : Timer) (x : Nibble) :
    timer.value (s.execute (timer.setter x)) = s.v[x] := by
  cases timer <;> rfl

/-- An instruction that does not set the timer leaves it alone. -/
theorem value_execute {i : Instruction} (hi : ∀ x, i ≠ timer.setter x) :
    timer.value (s.execute i) = timer.value s := by
  cases i with
  | setDelay x =>
    cases timer with
    | delay => exact absurd rfl (hi x)
    | sound => rfl
  | setSound x =>
    cases timer with
    | delay => rfl
    | sound => exact absurd rfl (hi x)
  | call target =>
    rcases s.call_cases target with ⟨-, h⟩ | ⟨-, stack, -, h⟩ <;>
      cases timer <;> simp only [Timer.value, execute, h, report]
  | ret =>
    rcases s.ret_cases with ⟨-, h⟩ | ⟨-, address, stack, -, h⟩ <;>
      cases timer <;> simp only [Timer.value, execute, h, report]
  | awaitKey x =>
    rcases s.awaitKey_cases x with ⟨-, h⟩ | ⟨k, -, h⟩ <;>
      cases timer <;> simp only [Timer.value, execute, h, setV]
  | load x => cases timer <;> simp only [Timer.value, execute, loadBlock, advanceIndex, report]
  | _ => cases timer <;> rfl

/-- A step that sets the timer never fails. -/
theorem value_step_of_setBy (hd : s.dispatched? = some w) (hset : timer.setBy w = true) :
    timer.value s.step = s.v[xOf w] := by
  have hword := Timer.setter_hasWord_iff.2 ⟨hset, rfl⟩
  have hquiet : s.fetched.reported? (timer.setter (xOf w)) = none := by
    cases timer <;> rfl
  rw [step_of_dispatched hd hword hquiet, value_setter]
  rfl

theorem value_step_of_not_setBy (hd : s.dispatched? = some w) (hset : timer.setBy w = false) :
    timer.value s.step = timer.value s := by
  have hother : ∀ x, s.current ≠ timer.setter x := by
    intro x hx
    obtain ⟨-, rfl⟩ := dispatched?_eq_some_iff.1 hd
    have hword := (Instruction.ofWord_eq_iff s.word_lt).1 hx
    rw [(Timer.setter_hasWord_iff.1 hword).1] at hset
    cases hset
  rcases s.step_cases with ⟨-, -, hstep⟩ | ⟨-, hstep⟩
  · rw [hstep, value_execute hother]
    cases timer <;> rfl
  · rw [hstep]
    cases timer <;> rfl

/-- A step stores a value in the timer or leaves it as it was. -/
theorem step_timer (s : State) (timer : Timer) :
    timer.value s.step = (s.stored? timer).getD (timer.value s) := by
  unfold stored?
  cases hd : s.dispatched? with
  | none =>
    rw [step_of_not_ready (dispatched?_eq_none_iff.1 hd)]
    cases timer <;> rfl
  | some w =>
    rw [Option.bind_some]
    cases hset : timer.setBy w with
    | true => exact value_step_of_setBy hd hset
    | false => exact value_step_of_not_setBy hd hset

end State

/-! ## The invariant -/

namespace Timer

/-- The timer shows what the events have left of the value stored last. -/
def Shows (timer : Timer) (s : State) (events : List TimerEvent) : Prop :=
  (timer.value s).toNat = TimerEvent.left events

variable {timer : Timer} {s : State} {events : List TimerEvent}

theorem shows_initial (timer : Timer) (key : Threefry.Key) (dialect : Dialect) :
    timer.Shows (.initial key dialect) [] := by
  rw [Shows, TimerEvent.left_nil]
  cases timer <;> rfl

theorem shows_reset (timer : Timer) (s : State) (events : List TimerEvent) :
    timer.Shows s.reset (events ++ [.restarted]) := by
  rw [Shows, TimerEvent.left_restarted]
  cases timer <;> rfl

theorem Shows.congr {t : State} (h : timer.Shows s events) (ht : timer.value t = timer.value s) :
    timer.Shows t (events ++ []) := by
  rw [Shows, ht, List.append_nil]
  exact h

/-- A tick takes one away, and nothing from zero. -/
theorem Shows.tick (h : timer.Shows s events) : timer.Shows s.tick (events ++ [.ticked]) := by
  have hdown (v : UInt8) : (if v = 0 then 0 else v - 1).toNat = v.toNat - 1 := by
    split
    · rename_i hv
      rw [hv]
      rfl
    · rename_i hv
      have hpos : 1 ≤ v.toNat := by
        have hne : v.toNat ≠ 0 := fun h0 => hv (UInt8.toNat_inj.1 h0)
        omega
      exact UInt8.toNat_sub_of_le v 1 (UInt8.le_iff_toNat_le.2 hpos)
  have htick : (timer.value s.tick).toNat = (timer.value s).toNat - 1 := by
    cases timer with
    | delay => exact hdown s.delay
    | sound => exact hdown s.sound
  rw [Shows, TimerEvent.left_ticked, ← h, htick]

theorem Shows.step (h : timer.Shows s events) :
    timer.Shows s.step (events ++ s.timerEvents timer) := by
  rw [Shows, s.step_timer, State.timerEvents]
  cases s.stored? timer with
  | none =>
    rw [Option.map_none, Option.toList_none, List.append_nil]
    exact h
  | some value =>
    rw [Option.map_some, Option.toList_some, TimerEvent.left_stored]
    rfl

theorem Shows.run (h : timer.Shows s events) (n : Int) :
    timer.Shows (s.run n).state (events ++ s.runTimerEvents timer n.toNat) := by
  have hok : timer.Shows { s with status := Status.ok } events := by
    cases timer <;> exact h
  exact State.run_record (fun t earlier ht => ht.step) h hok n

end Timer

/-! ## Calls of a host -/

namespace Machine

/-- The events of a call. A frame that does not fail ticks behind its instructions. -/
def timerEvents (m : Machine) (timer : Timer) : HostCall → List TimerEvent
  | .step => m.state.timerEvents timer
  | .frame =>
    m.state.runTimerEvents timer (m.clock.frameLength?.getD 0).toNat ++
      if m.frame.result.isOk then [.ticked] else []
  | .tick => [.ticked]
  | .reset => [.restarted]
  | .load _ | .press _ | .release _ => []

/-- The events of a sequence of calls, in order. -/
def timerHistory (m : Machine) (timer : Timer) : List HostCall → List TimerEvent
  | [] => []
  | call :: calls => m.timerEvents timer call ++ (m.perform call).machine.timerHistory timer calls

end Machine

namespace Timer

variable {timer : Timer} {m : Machine} {events : List TimerEvent}

theorem value_load (m : Machine) (program : List UInt8) :
    timer.value (m.load program).machine.state = timer.value m.state := by
  rcases m.load_machine_cases program with hload | hload <;> rw [hload]
  cases timer <;> rfl

theorem value_setKey (m : Machine) (key : Int) (down : Bool) :
    timer.value (m.setKey key down).machine.state = timer.value m.state := by
  unfold Machine.setKey
  split
  · cases timer <;> rfl
  · rfl

theorem Shows.frame (h : timer.Shows m.state events) :
    timer.Shows m.frame.machine.state (events ++ m.timerEvents timer .frame) := by
  rw [Machine.timerEvents, ← List.append_assoc]
  cases hk : m.clock.frameLength? with
  | none =>
    have hframe : m.frame = ⟨.error .noTimerRate, m, []⟩ := by
      rw [Machine.frame, hk]
    rw [hframe, Option.getD_none]
    have hsame : timer.Shows m.state (events ++ []) := h.congr rfl
    exact hsame.congr rfl
  | some k =>
    have hrun := h.run k
    rw [Machine.frame_machine (Machine.frameLength_eq_ok_iff.2 hk), Option.getD_some]
    split
    · exact hrun.tick
    · exact hrun.congr rfl

theorem Shows.perform (h : timer.Shows m.state events) (call : HostCall) :
    timer.Shows (m.perform call).machine.state (events ++ m.timerEvents timer call) := by
  cases call with
  | load program => exact h.congr (value_load m program)
  | step => exact h.step
  | frame => exact h.frame
  | tick => exact h.tick
  | reset => exact shows_reset timer m.state events
  | press key => exact h.congr (value_setKey m key true)
  | release key => exact h.congr (value_setKey m key false)

theorem Shows.performAll (h : timer.Shows m.state events) (calls : List HostCall) :
    timer.Shows (m.performAll calls).state (events ++ m.timerHistory timer calls) := by
  induction calls generalizing m events with
  | nil => exact h.congr rfl
  | cons call calls ih =>
    rw [Machine.timerHistory, ← List.append_assoc]
    exact ih (h.perform call)

end Timer

namespace Machine

/-- Whatever calls have been made since a machine was set up, each timer shows the value that was stored
in it last, since the start or the last reset, less one for each tick since then, and never less than zero.
A step does not count it down: it stores Vx where it executes the word that sets the timer, and otherwise
leaves the timer alone. -/
theorem timer_performAll (key : Threefry.Key) (dialect : Dialect) (clock : Clock) (console : Console)
    (timer : Timer) (calls : List HostCall) :
    let m : Machine := { state := .initial key dialect, clock, console }
    let events := m.timerHistory timer calls
    (((timer.value (m.performAll calls).state).toNat : Int) =
      max 0 ((TimerEvent.lastStored events).toNat - TimerEvent.ticksSince events)) ∧
    ∀ s : State, timer.value s.step = (s.stored? timer).getD (timer.value s) := by
  intro m events
  refine ⟨?_, fun s => s.step_timer timer⟩
  have hstart : timer.Shows m.state [] := timer.shows_initial key dialect
  have hnow : (timer.value (m.performAll calls).state).toNat = TimerEvent.left events :=
    hstart.performAll calls
  rw [hnow, TimerEvent.left]
  omega

-- the program of the words 6A05 and FA18, in a frame of two instructions
example :
    let m : Machine :=
      { state := .initial ⟨0, 0⟩ {}
        clock := ⟨120, 60, by decide⟩
        console := ⟨"chip8", .info, false, none⟩ }
    let calls := [.load [0x6A, 0x05, 0xFA, 0x18], .frame, .tick]
    m.timerHistory .sound calls = [.stored 5, .ticked, .ticked] ∧
      (m.performAll calls).state.sound = 3 := by
  decide +kernel

end Machine

end ChipEight
