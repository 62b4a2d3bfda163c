/-
The account that a progress bar gives of its loop. When a turn begins, the bar has been opened and has been moved
forward by its rate once for each chunk of turns that is complete (`history_before`); the last turn adds the rest and
closes the bar. So the bar is never ahead of the loop nor a whole chunk behind it, and ends at the number of turns
(`scan_accounts`). The loop does not notice its bar, nor the bar what the loop computes (`scan_eq`), and so a run of
the machine shows the same bar wherever it halts (`runWithBar_transparent`). A bar that would be opened with two units
is refused beforehand (`ofCount_of_repeated`).
-/
import ChipEight.Proofs.Run
import ChipEight.ProgressBar

namespace ChipEight

namespace ProgressBar

variable {α β γ σ : Type} {b : ProgressBar α} {i : Nat}

/-! ## Loops and their bars -/

/-- What happens to the bar over the first `i` turns. -/
def history (b : ProgressBar α) (i : Nat) : List (Event α) :=
  (List.range i).flatMap fun turn => b.before turn ++ b.after turn

theorem history_succ (b : ProgressBar α) (i : Nat) :
    b.history (i + 1) = b.history i ++ b.before i ++ b.after i := by
  simp only [history, List.range_succ, List.flatMap_append, List.flatMap_singleton, List.append_assoc]

theorem history_prefix (b : ProgressBar α) {i n : Nat} (h : i ≤ n) : b.history i <+: b.history n := by
  induction h with
  | refl => exact List.prefix_refl _
  | step _ ih =>
    rw [history_succ, List.append_assoc]
    exact ih.trans (List.prefix_append _ _)

/-- The loop goes as it goes without a bar, and the events are those of its turns. -/
theorem scan_decorate (b : ProgressBar α) (body : σ → Element β → σ × γ) (xs : List (Element β)) (s : σ)
    (events : Array (Event α)) :
    ChipEight.scan (b.decorate body) xs (s, events) =
      (((ChipEight.scan body xs s).1,
          events ++ (xs.map Element.turn).flatMap fun turn => b.before turn ++ b.after turn),
        (ChipEight.scan body xs s).2) := by
  induction xs generalizing s events with
  | nil => simp [scan_nil]
  | cons x xs ih =>
    rw [scan_cons, decorate, ih, scan_cons]
    refine Prod.ext (Prod.ext rfl (Array.toList_inj.1 ?_)) rfl
    simp

theorem scan_eq (b : ProgressBar α) (body : σ → Element β → σ × γ) (xs : List (Element β)) (s : σ) :
    b.scan body xs s =
      (ChipEight.scan body xs s,
        (xs.map Element.turn).flatMap fun turn => b.before turn ++ b.after turn) := by
  rw [ProgressBar.scan, scan_decorate]
  simp

theorem scan_of_turns {xs : List (Element β)} {n : Nat} (h : xs.map Element.turn = List.range n)
    (b : ProgressBar α) (body : σ → Element β → σ × γ) (s : σ) :
    b.scan body xs s = (ChipEight.scan body xs s, b.history n) := by
  rw [scan_eq, h]
  rfl

/-! ## Chunks -/

/-- Another turn completes a chunk exactly if it is the last turn of one. -/
theorem succ_div_rate (b : ProgressBar α) (i : Nat) :
    (i + 1) / b.rate = i / b.rate + if i % b.rate = b.rate - 1 then 1 else 0 := by
  have hpos := b.rate_pos
  have hsplit := Nat.div_add_mod i b.rate
  have hmod := Nat.mod_lt i hpos
  split
  · rename_i hlast
    have hnext : i + 1 = b.rate * (i / b.rate + 1) := by
      rw [Nat.mul_add, Nat.mul_one]
      omega
    exact Nat.div_eq_of_eq_mul_right hpos hnext
  · rename_i hinside
    have hnext : i + 1 = b.rate * (i / b.rate) + (i % b.rate + 1) := by omega
    have hrest : (i % b.rate + 1) / b.rate = 0 := Nat.div_eq_of_lt (by omega)
    calc (i + 1) / b.rate = (b.rate * (i / b.rate) + (i % b.rate + 1)) / b.rate := congrArg (· / b.rate) hnext
      _ = i / b.rate + 0 := by rw [Nat.mul_add_div hpos, hrest]

/-- The bar over `i` turns before it is closed: opened, and moved forward once for each complete chunk. -/
def underway (b : ProgressBar α) (i : Nat) : List (Event α) :=
  .opened b.total b.caption b.looks :: List.replicate (i / b.rate) (.advanced b.rate)

/-- What the last turn adds: the turns behind the last complete chunk. -/
def closing (b : ProgressBar α) : List (Event α) := [.advanced b.rest, .closed]

theorem underway_after (b : ProgressBar α) (i : Nat) :
    b.underway i ++ b.after i = b.underway (i + 1) ++ if i + 1 = b.total then b.closing else [] := by
  unfold underway after closing
  rw [succ_div_rate, ← List.append_assoc]
  congr 1
  split
  · rw [List.replicate_succ']
    rfl
  · rw [List.append_nil]
    rfl

/-- The invariant of the loop, at the beginning of a turn. -/
theorem history_before (h : i < b.total) : b.history i ++ b.before i = b.underway i := by
  induction i with
  | zero => simp [history, before, underway]
  | succ i ih =>
    have hlater : b.before (i + 1) = [] := if_neg (Nat.succ_ne_zero i)
    rw [history_succ, ih (Nat.lt_of_succ_lt h), underway_after, if_neg (Nat.ne_of_lt h), hlater,
      List.append_nil, List.append_nil]

theorem history_after (h : i < b.total) :
    b.history (i + 1) = b.underway (i + 1) ++ if i + 1 = b.total then b.closing else [] := by
  rw [history_succ, history_before h, underway_after]

/-- The whole history of a loop that has any turns. -/
theorem history_total (h : 0 < b.total) : b.history b.total = b.underway b.total ++ b.closing := by
  have hlast : b.total - 1 + 1 = b.total := Nat.sub_add_cancel h
  have hafter := history_after (b := b) (i := b.total - 1) (by omega)
  rwa [hlast, if_pos rfl] at hafter

/-! ## Positions -/

/-- How many turns an event moves the bar forward. -/
def Event.turns : Event α → Nat
  | .advanced turns => turns
  | _ => 0

/-- Where the bar stands after the events: the sum of its moves. -/
def position : List (Event α) → Nat
  | [] => 0
  | event :: events => event.turns + position events

theorem position_append (events later : List (Event α)) :
    position (events ++ later) = position events + position later := by
  induction events with
  | nil => simp [position]
  | cons event events ih => rw [List.cons_append, position, ih, position, Nat.add_assoc]

theorem position_replicate (k turns : Nat) :
    position (List.replicate k (.advanced turns : Event α)) = k * turns := by
  induction k with
  | zero => simp [position]
  | succ k ih => rw [List.replicate_succ, position, ih, Event.turns, Nat.succ_mul, Nat.add_comm]

theorem position_underway (b : ProgressBar α) (i : Nat) : position (b.underway i) = i / b.rate * b.rate := by
  simp only [underway, position, Event.turns, position_replicate, Nat.zero_add]

theorem position_closing (b : ProgressBar α) : position b.closing = b.total % b.rate := rfl

/-- After the turn `i` the bar is not ahead of the loop, nor a whole chunk behind it. -/
def OnTime (rate : Int) (i : Nat) (events : List (Event α)) : Prop :=
  (position events : Int) ≤ i + 1 ∧ (i + 1 - rate : Int) < position events

theorem onTime_underway (b : ProgressBar α) (i : Nat) : OnTime b.rate i (b.underway (i + 1)) := by
  have hsplit := Nat.div_add_mod' (i + 1) b.rate
  have hmod := Nat.mod_lt (i + 1) b.rate_pos
  unfold OnTime
  rw [position_underway]
  constructor <;> omega

theorem onTime_history (h : i < b.total) : OnTime b.rate i (b.history (i + 1)) := by
  rw [history_after h]
  split
  · rename_i hlast
    have hsplit := Nat.div_add_mod' b.total b.rate
    have hpos := b.rate_pos
    unfold OnTime
    rw [position_append, position_underway, position_closing, hlast]
    constructor <;> omega
  · rw [List.append_nil]
    exact b.onTime_underway i

/-! ## The whole account -/

/-- The bar is opened once, before all else, for `total` turns, then moved forward by `total` turns in all, and
closed once, after all else. -/
def Complete (total : Nat) (events : List (Event α)) : Prop :=
  ∃ (caption : String) (looks : List (String × α)) (moves : List Nat),
    events = .opened total caption looks :: moves.map .advanced ++ [.closed] ∧ position events = total

theorem complete_history (h : 0 < b.total) : Complete b.total (b.history b.total) := by
  refine ⟨b.caption, b.looks, List.replicate (b.total / b.rate) b.rate ++ [b.rest], ?_, ?_⟩
  · rw [history_total h]
    simp [underway, closing]
  · rw [history_total h, position_append, position_underway, position_closing]
    exact Nat.div_add_mod' b.total b.rate

theorem moves_of_history {turns : Nat} (h : 0 < b.total) (hmem : .advanced turns ∈ b.history b.total) :
    turns = b.rate ∨ turns = b.rest := by
  rw [history_total h] at hmem
  simp only [underway, closing, List.cons_append, List.mem_cons, List.mem_append, List.mem_replicate,
    List.not_mem_nil, reduceCtorEq, false_or, or_false, Event.advanced.injEq] at hmem
  rcases hmem with ⟨-, rfl⟩ | rfl
  · exact .inl rfl
  · exact .inr rfl

/-- The number of turns in a chunk, for any number of turns and any rate that is asked for. -/
def effectiveRate (n : Int) : Option Int → Int
  | none => max 1 (min (n / 20) 50)
  | some rate => max 1 (min rate n)

theorem rate_eq_effectiveRate (n : Int) (rate? : Option Int) :
    (chosenRate n.toNat rate? : Int) = effectiveRate n rate? := by
  cases rate? with
  | none =>
    simp only [chosenRate, usualRate, effectiveRate]
    omega
  | some rate =>
    simp only [chosenRate, clampedRate, effectiveRate]
    omega

/-! ## Refusals -/

/-- A unit is not among the settings that are dropped. -/
theorem unitSetting_mem_filter (settings : List (String × α)) :
    unitSetting ∈ (settings.filter fun setting => setting.1 ∉ dropped).map Prod.fst ↔
      unitSetting ∈ settings.map Prod.fst := by
  have hkept : unitSetting ∉ dropped := by decide
  simp only [List.mem_map, List.mem_filter, decide_eq_true_eq]
  constructor
  · rintro ⟨setting, ⟨hmem, -⟩, hname⟩
    exact ⟨setting, hmem, hname⟩
  · rintro ⟨setting, hmem, hname⟩
    exact ⟨setting, ⟨hmem, by rwa [hname]⟩, hname⟩

section

variable {n : Int} {settings : List (String × α)}

theorem ofCount_of_repeated (rate? : Option Int) (caption? : Option String)
    (h : 1 ≤ n ∧ unitSetting ∈ settings.map Prod.fst) :
    ofCount n rate? caption? settings = .error ⟨unitSetting⟩ := by
  unfold ofCount
  rw [dif_neg]
  intro honce
  exact honce (show 0 < n.toNat by omega) ((unitSetting_mem_filter settings).2 h.2)

theorem ofCount_of_unrepeated (rate? : Option Int) (caption? : Option String)
    (h : ¬ (1 ≤ n ∧ unitSetting ∈ settings.map Prod.fst)) :
    ∃ b, ofCount n rate? caption? settings = .ok b ∧ b.total = n.toNat ∧
      (b.rate : Int) = effectiveRate n rate? := by
  have honce : 0 < n.toNat →
      unitSetting ∉ (settings.filter fun setting => setting.1 ∉ dropped).map Prod.fst := by
    intro hturns hmem
    exact h ⟨by omega, (unitSetting_mem_filter settings).1 hmem⟩
  exact ⟨_, dif_pos honce, rfl, rate_eq_effectiveRate n rate?⟩

end

/-- A bar over at least one turn is refused if it is given a unit beside its own, and granted otherwise. Whatever
rate is asked for, and whatever the elements of the loop carry besides the numbers of its turns, the bar is opened,
moved to its end and closed, with moves that are the rate or the rest and so never negative; after each turn, also
before the rest is added, it is on time. Over no turn nothing happens at all. -/
theorem scan_accounts (n : Int) (rate? : Option Int) (caption? : Option String) (settings : List (String × α))
    (body : σ → Element β → σ × γ) (xs : List (Element β)) (s : σ)
    (h : xs.map Element.turn = List.range n.toNat) :
    (1 ≤ n ∧ unitSetting ∈ settings.map Prod.fst →
      ofCount n rate? caption? settings = .error ⟨unitSetting⟩) ∧
    (¬ (1 ≤ n ∧ unitSetting ∈ settings.map Prod.fst) →
      ∃ b, ofCount n rate? caption? settings = .ok b ∧
        let rate := effectiveRate n rate?
        let events := fun turns => (b.scan body (xs.take turns) s).2
        let all := (b.scan body xs s).2
        (n ≤ 0 → all = []) ∧
        (1 ≤ n →
          Complete n.toNat all ∧
          1 ≤ rate ∧
          (∀ turns : Nat, .advanced turns ∈ all → (turns : Int) = rate ∨ (turns : Int) = n % rate) ∧
          ∀ i < n.toNat,
            events (i + 1) <+: all ∧ OnTime rate i (events (i + 1)) ∧
            ∃ earlier, OnTime rate i earlier ∧
              events (i + 1) = earlier ++
                if i + 1 = n.toNat then [.advanced b.rest, .closed] else [])) := by
  refine ⟨ofCount_of_repeated rate? caption?, fun hunit => ?_⟩
  obtain ⟨b, hb, htotal, hrate⟩ := ofCount_of_unrepeated rate? caption? hunit
  refine ⟨b, hb, ?_⟩
  intro rate events all
  change (b.rate : Int) = rate at hrate
  have hall : all = b.history n.toNat := congrArg Prod.snd (scan_of_turns h b body s)
  refine ⟨fun hn => ?_, fun hn => ?_⟩
  · rw [hall, Int.toNat_of_nonpos hn]
    rfl
  · have hturns : 0 < b.total := by omega
    rw [← htotal] at hall ⊢
    refine ⟨?_, ?_, ?_, ?_⟩
    · rw [hall]
      exact complete_history hturns
    · have hpos := b.rate_pos
      omega
    · intro turns hmem
      rw [hall] at hmem
      rcases moves_of_history hturns hmem with rfl | rfl
      · exact .inl hrate
      · have hn' : (b.total : Int) = n := by omega
        exact .inr (by rw [rest, Int.natCast_emod, hn', hrate])
    · intro i hi
      have htake : (xs.take (i + 1)).map Element.turn = List.range (i + 1) := by
        rw [List.map_take, h, List.take_range, Nat.min_eq_left (by omega)]
      have hevents : events (i + 1) = b.history (i + 1) := congrArg Prod.snd (scan_of_turns htake b body s)
      rw [hevents, hall, ← hrate]
      exact ⟨b.history_prefix hi, onTime_history hi, b.underway (i + 1), b.onTime_underway i, history_after hi⟩

/-- Adds up what the elements carry, and puts out the turn of each. -/
def addUp (sum : Nat) : Element Nat → Nat × Nat
  | .number turn => (sum + turn, turn)
  | .tuple turn rest => (sum + rest, turn)

/-- A bar over seven turns in chunks of three, of a loop over numbers and of one over tuples: before the last turn it
stands at six. A second unit is refused, but not where there is no turn and so no bar. -/
theorem scan_accounts_sevenTurns :
    let numbers : List (Element Nat) := (List.range 7).map .number
    let tuples : List (Element Nat) := (List.range 7).map fun turn => .tuple turn (2 * turn)
    numbers.map Element.turn = List.range 7 ∧ tuples.map Element.turn = List.range 7 ∧ (1 : Int) ≤ 7 ∧
    (∃ b, ofCount 7 (some 3) none [("leave", true), ("total", false)] = .ok b ∧
      Complete 7 (b.scan addUp numbers 0).2) ∧
    (∃ b, ofCount 7 (some 3) none [("leave", true), ("total", false)] = .ok b ∧
      Complete 7 (b.scan addUp tuples 0).2 ∧ OnTime 3 5 (b.scan addUp (tuples.take 6) 0).2) ∧
    ofCount 7 (some 3) none [("unit", true)] = .error ⟨unitSetting⟩ ∧
    ∃ b, ofCount (-7) (some 3) none [("unit", true)] = .ok b ∧ (b.scan addUp [] 0).2 = [] := by
  intro numbers tuples
  have hnumbers : numbers.map Element.turn = List.range 7 := by decide
  have htuples : tuples.map Element.turn = List.range 7 := by decide
  have hturns : (1 : Int) ≤ 7 := by decide
  obtain ⟨-, hbar⟩ := scan_accounts 7 (some 3) none [("leave", true), ("total", false)] addUp numbers 0 hnumbers
  obtain ⟨b, hb, -, hall⟩ := hbar (by decide)
  obtain ⟨-, hbar'⟩ := scan_accounts 7 (some 3) none [("leave", true), ("total", false)] addUp tuples 0 htuples
  obtain ⟨b', hb', -, hall'⟩ := hbar' (by decide)
  obtain ⟨hrefused, -⟩ := scan_accounts 7 (some 3) none [("unit", true)] addUp numbers 0 hnumbers
  obtain ⟨-, hnone⟩ := scan_accounts (-7) (some 3) none [("unit", true)] addUp [] 0 rfl
  obtain ⟨b'', hb'', hnothing, -⟩ := hnone (by decide)
  obtain ⟨hcomplete, -⟩ := hall hturns
  obtain ⟨hcomplete', -, -, hontime⟩ := hall' hturns
  obtain ⟨-, hsix, -⟩ := hontime 5 (by decide)
  exact ⟨hnumbers, htuples, hturns, ⟨b, hb, hcomplete⟩, ⟨b', hb', hcomplete', hsix⟩, hrefused (by decide),
    b'', hb'', hnothing (by decide)⟩

end ProgressBar

namespace State

/-! ## Runs with a bar -/

/-- A run with a bar ends as it ends without one, with the same count. What the bar shows depends on the number of
turns alone, so that it comes to its end also where the run halts early. -/
theorem runWithBar_transparent [RandomSource] {α : Type} (n : Int) :
    (∀ s : State, (s.runWithBar n : Batch × List (ProgressBar.Event α)).1 = s.run n) ∧
    (∀ s t : State, (s.runWithBar n : Batch × List (ProgressBar.Event α)).2 = (t.runWithBar n).2) ∧
    (1 ≤ n → ∀ s : State,
      ProgressBar.Complete n.toNat (s.runWithBar n : Batch × List (ProgressBar.Event α)).2) := by
  let b : ProgressBar α :=
    .plain n none (some ("Executing (" ++ Text.grouped n ++ " instructions)"))
  have hturns : ((List.range n.toNat).map (.number : Nat → ProgressBar.Element Unit)).map
      ProgressBar.Element.turn = List.range n.toNat := by
    rw [List.map_map]
    exact List.map_id _
  have hrun (s : State) : s.runWithBar n = (s.run n, b.history n.toNat) := by
    unfold runWithBar run
    simp only [ProgressBar.scan_of_turns hturns, scan_map]
    rfl
  refine ⟨fun s => ?_, fun s t => ?_, fun hn s => ?_⟩
  · rw [hrun]
  · rw [hrun, hrun]
  · rw [hrun]
    exact ProgressBar.complete_history (b := b) (show 0 < n.toNat by omega)

/-- The run halts at its first step, and the bar goes on to its end. -/
theorem runWithBar_storingBehindMemory :
    (1 : Int) ≤ 41 ∧ (storingBehindMemory.run 41).executed = 0 ∧
    (storingBehindMemory.runWithBar 41 : Batch × List (ProgressBar.Event Unit)).1 =
      storingBehindMemory.run 41 ∧
    ProgressBar.Complete 41
      (storingBehindMemory.runWithBar 41 : Batch × List (ProgressBar.Event Unit)).2 := by
  have hturns : (1 : Int) ≤ 41 := by decide
  obtain ⟨hrun, -, hcomplete⟩ := @runWithBar_transparent _ Unit 41
  exact ⟨hturns, by decide +kernel, hrun storingBehindMemory, hcomplete hturns storingBehindMemory⟩

end State

end ChipEight
