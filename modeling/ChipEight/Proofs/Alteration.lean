/-
Changes from outside to the timers and to the dialect. Few instructions look at either: `Alteration.UnnoticedBy`
says of each which change it does not notice. Such a change and the instruction may change places
(`execute_apply`), and so may the change and a step (`step_apply`). Whether and how a step fails is not among the
things that depend on timers or dialect, for any instruction (`outcome_apply`).
-/
import ChipEight.Proofs.Step

namespace ChipEight

open Layout

/-- A change to what the timers show and to the dialect that programs are taken in. -/
structure Alteration where
  delay : UInt8 → UInt8 := id
  sound : UInt8 → UInt8 := id
  dialect : Dialect → Dialect := id

namespace Alteration

def apply (a : Alteration) (s : State) : State :=
  { s with
    delay := a.delay s.delay
    sound := a.sound s.sound
    dialect := a.dialect s.dialect }

/-- All that the instruction reads is as it was before the change, and a value that it stores in a timer is one
that the change would leave there. -/
def UnnoticedBy (a : Alteration) (s : State) : Instruction → Prop
  | .readDelay _ => a.delay s.delay = s.delay
  | .setDelay x => a.delay (s.v.get x) = s.v.get x
  | .setSound x => a.sound (s.v.get x) = s.v.get x
  | .compute op x y => op.isShift = true → x ≠ y → (a.dialect s.dialect).shiftsVY = s.dialect.shiftsVY
  | .jumpBy target =>
    highDigit target ≠ jumpOffsetRegister → (a.dialect s.dialect).jumpsByVX = s.dialect.jumpsByVX
  | .store _ | .load _ => (a.dialect s.dialect).advancesIndex = s.dialect.advancesIndex
  | _ => True

variable (a : Alteration) {s : State} {i : Instruction}

/-- In the same dialect only the instructions that name a timer may notice a change. -/
theorem unnoticedBy_of_same_dialect (hdialect : a.dialect s.dialect = s.dialect)
    (hread : ∀ x, i = .readDelay x → a.delay s.delay = s.delay)
    (hdelay : ∀ x, i = .setDelay x → a.delay (s.v.get x) = s.v.get x)
    (hsound : ∀ x, i = .setSound x → a.sound (s.v.get x) = s.v.get x) : a.UnnoticedBy s i := by
  cases i with
  | readDelay x => exact hread x rfl
  | setDelay x => exact hdelay x rfl
  | setSound x => exact hsound x rfl
  | compute => exact fun _ _ => congrArg Dialect.shiftsVY hdialect
  | jumpBy => exact fun _ => congrArg Dialect.jumpsByVX hdialect
  | store | load => exact congrArg Dialect.advancesIndex hdialect
  | _ => trivial

/-! ## One instruction -/

/-- A shift of a register in itself reads the same register in all dialects. -/
theorem firstOperand_apply {op : AluOp} {x y : Nibble} (h : a.UnnoticedBy s (.compute op x y)) :
    (a.apply s).firstOperand op x y = s.firstOperand op x y := by
  unfold State.firstOperand
  by_cases hxy : x = y
  · rw [hxy, ite_self, ite_self]
  · cases hshift : op.isShift with
    | false => rfl
    | true =>
      have hdialect : (a.apply s).dialect.shiftsVY = s.dialect.shiftsVY := h hshift hxy
      rw [hdialect]

theorem jumpRegister_apply {target : Target} (h : a.UnnoticedBy s (.jumpBy target)) :
    (a.apply s).jumpRegister target = s.jumpRegister target := by
  unfold State.jumpRegister
  by_cases hregister : highDigit target = jumpOffsetRegister
  · rw [hregister, ite_self, ite_self]
  · have hdialect : (a.apply s).dialect.jumpsByVX = s.dialect.jumpsByVX := h hregister
    rw [hdialect]

theorem advanceIndex_apply (x : Nibble) (h : (a.dialect s.dialect).advancesIndex = s.dialect.advancesIndex) :
    (a.apply s).advanceIndex x = a.apply (s.advanceIndex x) := by
  simp only [State.advanceIndex, apply, h]

theorem execute_apply (h : a.UnnoticedBy s i) : (a.apply s).execute i = a.apply (s.execute i) := by
  cases i with
  | awaitKey x =>
    have hkey : (a.apply s).lowestKey? = s.lowestKey? := rfl
    unfold State.execute State.awaitKey
    rw [hkey]
    cases s.lowestKey? <;> rfl
  | readDelay x =>
    have hdelay : (a.apply s).delay = s.delay := h
    unfold State.execute
    rw [hdelay]
    rfl
  | setDelay x =>
    have hdelay : a.delay s.v[x] = s.v[x] := h
    simp only [State.execute, apply, hdelay]
  | setSound x =>
    have hsound : a.sound s.v[x] = s.v[x] := h
    simp only [State.execute, apply, hsound]
  | compute op x y =>
    have hfirst : (a.apply s).v[(a.apply s).firstOperand op x y] = s.v[s.firstOperand op x y] :=
      congrArg (fun r : Nibble => s.v[r]) (a.firstOperand_apply h)
    show (a.apply s).compute op x y = a.apply (s.compute op x y)
    unfold State.compute
    rw [hfirst]
    rfl
  | jumpBy target =>
    have hoffset : (a.apply s).v[(a.apply s).jumpRegister target] = s.v[s.jumpRegister target] :=
      congrArg (fun r : Nibble => s.v[r]) (a.jumpRegister_apply h)
    show (a.apply s).jumpBy target = a.apply (s.jumpBy target)
    unfold State.jumpBy
    rw [hoffset]
    rfl
  | store x =>
    have hindex := a.advanceIndex_apply (s := { s with memory := (s.storeBlock x).memory }) x h
    exact congrArg (State.report · (decide (memorySize ≤ s.i.toNat + x)) .outOfBounds) hindex
  | load x =>
    have hindex := a.advanceIndex_apply (s := { s with v := (s.loadBlock x).v }) x h
    exact congrArg (State.report · (decide (memorySize ≤ s.i.toNat + x)) .outOfBounds) hindex
  | _ => rfl

/-! ## One step -/

theorem reported?_apply (s : State) (i : Instruction) : (a.apply s).reported? i = s.reported? i := by
  cases i with
  | skip condition => cases condition <;> rfl
  | _ => rfl

theorem outcome_apply (s : State) : (a.apply s).outcome = s.outcome :=
  State.outcome_congr rfl rfl (a.reported?_apply s.fetched s.current)

theorem step_apply (h : s.readiness = .ok → a.UnnoticedBy s s.current) :
    (a.apply s).step = a.apply s.step := by
  rcases State.step_cases_of_outcome_eq (a.outcome_apply s) with ⟨-, hready, hstep, hstep'⟩ | ⟨-, hstep, hstep'⟩
  · have hfetched : a.UnnoticedBy s.fetched s.current := by
      have hcurrent := h hready
      cases hi : s.current <;> rw [hi] at hcurrent <;> exact hcurrent
    rw [hstep, hstep']
    exact a.execute_apply hfetched
  · rw [hstep, hstep']
    rfl

end Alteration

end ChipEight
