/-
The random key along a history. An instruction that draws a byte replaces the key by its successor, and
nothing else touches it: no other instruction, no step that fails, waits or exits, and no operation of the
host, a reset included. So the key behind a history is the first one advanced once for each drawing word
that was executed (`key_performAll`), whatever the bytes were masked to and whatever source they come from.
-/
import ChipEight.Proofs.History
import ChipEight.Proofs.Outcome
import Mathlib.Logic.Function.Iterate

namespace ChipEight

open Layout

/-- Whether the word draws a random byte, as Cxnn does. -/
def drawsByte (w : Nat) : Bool := w / 4096 == 0xC

theorem drawsByte_iff {w : Nat} : drawsByte w = true ↔ w / 4096 = 0xC := by
  simp only [drawsByte, beq_iff_eq]

theorem random_hasWord {w : Nat} (h : drawsByte w = true) :
    (Instruction.random (xOf w) (byteOf w)).HasWord w := ⟨drawsByte_iff.1 h, rfl, rfl⟩

namespace State

variable {s : State} {w : Nat}

/-! ## One instruction -/

/-- The key that an instruction leaves. -/
def keyAfter [RandomSource] (s : State) : Instruction → Threefry.Key
  | .random _ _ => RandomSource.next s.key
  | _ => s.key

theorem execute_key [RandomSource] (s : State) (i : Instruction) : (s.execute i).key = s.keyAfter i := by
  cases i with
  | call target =>
    rcases s.call_cases target with ⟨-, h⟩ | ⟨-, stack, -, h⟩ <;> simp only [execute, keyAfter, h, report]
  | ret =>
    rcases s.ret_cases with ⟨-, h⟩ | ⟨-, address, stack, -, h⟩ <;>
      simp only [execute, keyAfter, h, report]
  | awaitKey x =>
    rcases s.awaitKey_cases x with ⟨-, h⟩ | ⟨k, -, h⟩ <;> simp only [execute, keyAfter, h, setV]
  | load x => simp only [execute, keyAfter, loadBlock, advanceIndex, report]
  | _ => rfl

theorem keyAfter_of_hasWord [RandomSource] {i : Instruction} (hw : i.HasWord w) :
    s.keyAfter i = if drawsByte w then RandomSource.next s.key else s.key := by
  cases hdraws : drawsByte w with
  | true =>
    obtain rfl : i = .random (xOf w) (byteOf w) := hw.unique (random_hasWord hdraws)
    rfl
  | false =>
    cases i with
    | random x mask =>
      rw [drawsByte_iff.2 hw.1] at hdraws
      cases hdraws
    | _ => rfl

/-! ## One step -/

/-- A step that draws a byte never fails: it masks the byte, stores it and advances the key. -/
theorem step_of_random [RandomSource] (h : s.dispatched? = some w) (hw : drawsByte w = true) :
    s.step = { s with
      pc := s.pc + 2
      v := s.v.set (xOf w) (RandomSource.byte s.key &&& byteOf w)
      key := RandomSource.next s.key
      status := Status.ok } :=
  step_of_dispatched h (random_hasWord hw) rfl

theorem step_key [RandomSource] (s : State) :
    s.step.key = RandomSource.next^[s.dispatched?.toList.countP drawsByte] s.key := by
  cases hd : s.dispatched? with
  | none =>
    rw [step_of_not_ready (dispatched?_eq_none_iff.1 hd)]
    rfl
  | some w =>
    obtain ⟨-, rfl⟩ := dispatched?_eq_some_iff.1 hd
    have hcount : RandomSource.next^[(some s.word).toList.countP drawsByte] s.key =
        if drawsByte s.word then RandomSource.next s.key else s.key := by
      cases hdraws : drawsByte s.word <;> simp [hdraws]
    rw [hcount]
    rcases s.step_cases with ⟨-, -, hstep⟩ | ⟨hhalts, hstep⟩
    · rw [hstep, execute_key]
      exact keyAfter_of_hasWord (s := s.fetched) (Instruction.hasWord_ofWord s.word_lt)
    -- a step that ends a run has no effect, and it is not one that draws
    · rw [if_neg, hstep]
      intro hdraws
      rw [outcome_of_dispatched hd (random_hasWord hdraws)] at hhalts
      cases hhalts

/-! ## Runs and histories -/

theorem next_iterate_append [RandomSource] (key : Threefry.Key) (earlier later : List Nat) :
    RandomSource.next^[(earlier ++ later).countP drawsByte] key =
      RandomSource.next^[later.countP drawsByte] (RandomSource.next^[earlier.countP drawsByte] key) := by
  rw [List.countP_append, Nat.add_comm, Function.iterate_add_apply]

theorem key_run [RandomSource] (s : State) (n : Int) :
    (s.run n).state.key = RandomSource.next^[(s.script n.toNat).countP drawsByte] s.key := by
  have hstep (t : State) (words : List Nat)
      (hkey : t.key = RandomSource.next^[words.countP drawsByte] s.key) :
      t.step.key = RandomSource.next^[(words ++ t.dispatched?.toList).countP drawsByte] s.key := by
    rw [step_key, hkey, next_iterate_append]
  have hstart : s.key = RandomSource.next^[([] : List Nat).countP drawsByte] s.key := rfl
  have hrun := run_record (R := fun t words => t.key = RandomSource.next^[words.countP drawsByte] s.key)
    hstep hstart hstart n
  rwa [List.nil_append, ← script_eq] at hrun

theorem key_load [RandomSource] (s : State) (program : List UInt8) :
    (s.perform (.load program)).key = s.key := by
  rcases s.load_cases program with ⟨-, hload⟩ | ⟨-, hload⟩
  · simp only [perform, hload]
  · simp only [perform, hload]
    rfl

theorem key_perform [RandomSource] (s : State) (op : Operation) :
    (s.perform op).key = RandomSource.next^[(s.wordsOf op).countP drawsByte] s.key := by
  cases op with
  | load program => exact s.key_load program
  | step => exact s.step_key
  | run n => exact s.key_run n
  | tick | reset | keys => rfl

theorem key_words [RandomSource] (s : State) (ops : List Operation) :
    (s.performAll ops).key = RandomSource.next^[(s.words ops).countP drawsByte] s.key := by
  induction ops generalizing s with
  | nil => rfl
  | cons op ops ih =>
    rw [words, next_iterate_append, ← key_perform]
    exact ih (s.perform op)

/-- A history advances the key once for each word Cxnn that it executes, and in no other way. Each of them
stores the byte of the key before it, masked by nn, in Vx, and leaves the other registers alone. -/
theorem key_performAll [RandomSource] (s : State) (ops : List Operation) :
    (s.performAll ops).key = RandomSource.next^[(s.words ops).countP drawsByte] s.key ∧
    ∀ (t : State) (w : Nat), t.dispatched? = some w → drawsByte w = true →
      t.step.key = RandomSource.next t.key ∧
      t.step.v[xOf w] = RandomSource.byte t.key &&& byteOf w ∧
      (∀ k, (w % 256).testBit k = false → t.step.v[xOf w].toNat.testBit k = false) ∧
      (∀ r, r ≠ xOf w → t.step.v[r] = t.v[r]) ∧ t.step.i = t.i := by
  refine ⟨s.key_words ops, ?_⟩
  intro t w hw hdraws
  rw [step_of_random hw hdraws]
  have hbyte : (t.v.set (xOf w) (RandomSource.byte t.key &&& byteOf w))[xOf w] =
      RandomSource.byte t.key &&& byteOf w := Vector.getElem_set_self _
  refine ⟨rfl, hbyte, ?_, ?_, rfl⟩
  · intro k hk
    have hmask : (byteOf w).toNat = w % 256 := by
      rw [byteOf, UInt8.toNat_ofNat']
      omega
    simp only [hbyte, UInt8.toNat_and, hmask, Nat.testBit_and, hk, Bool.and_false]
  · intro r hr
    have hne : (xOf w).val ≠ r.val := fun h => hr (Fin.ext h.symm)
    exact Vector.getElem_set_ne (xOf w).isLt r.isLt hne

/-- Two words that draw, the second with all bits masked, and the end of the program behind them. -/
def drawingTwice : List Operation := [.load [0xC1, 0x0F, 0xC2, 0x00], .step, .tick, .run 3, .reset]

theorem drawingTwice_key :
    ((initial ⟨0, 7⟩ {}).words drawingTwice).countP drawsByte = 2 ∧
    ((initial ⟨0, 7⟩ {}).performAll drawingTwice).key = (Threefry.Key.mk 0 7).next.next ∧
    ((initial ⟨0, 7⟩ {}).perform (.load [0xC1, 0x0F, 0xC2, 0x00])).dispatched? = some 0xC10F ∧
    ((initial ⟨0, 7⟩ {}).perform (.load [0xC1, 0x0F, 0xC2, 0x00])).step.v[xOf 0xC10F] =
      (Threefry.Key.mk 0 7).byte &&& 0x0F := by
  obtain ⟨hkey, hdraw⟩ := key_performAll (initial ⟨0, 7⟩ {}) drawingTwice
  have hcount : ((initial ⟨0, 7⟩ {}).words drawingTwice).countP drawsByte = 2 := by decide +kernel
  have hfirst : ((initial ⟨0, 7⟩ {}).perform (.load [0xC1, 0x0F, 0xC2, 0x00])).dispatched? =
      some 0xC10F := by
    decide +kernel
  rw [hcount] at hkey
  exact ⟨hcount, hkey, hfirst, (hdraw _ _ hfirst rfl).2.1⟩

end State

end ChipEight
