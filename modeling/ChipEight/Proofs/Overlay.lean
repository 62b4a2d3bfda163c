/-
Sprites drawn over one another. Drawing leaves memory, I and all registers but VF alone, so a word Dxyn that
does not place its sprite by VF draws the same sprite before and after others of its kind
(`spriteOf_executeWord`). A sequence of such words toggles each pixel once for every sprite that covers it, and
the screen behind it depends only on which words occur in it an odd number of times
(`screen_executeAll_congr`): not on their order, and not on what is drawn twice.
-/
import ChipEight.Proofs.Drawing
import ChipEight.Proofs.Effect
import Mathlib.Algebra.BigOperators.Group.List.Lemmas
import Mathlib.Algebra.BigOperators.Ring.List
import Mathlib.Algebra.Ring.Nat

namespace ChipEight

open Layout

/-- A word Dxyn that places its sprite by other registers than VF. -/
def DrawsClearOfFlag (w : Nat) : Prop := w / 4096 = 0xD ∧ xOf w ≠ flagRegister ∧ yOf w ≠ flagRegister

instance (w : Nat) : Decidable (DrawsClearOfFlag w) := inferInstanceAs (Decidable (_ ∧ _ ∧ _))

/-! ## Occurrences -/

section Occurrences

variable {α : Type} [DecidableEq α] {l l' : List α}

theorem two_dvd_countP (h : ∀ a, 2 ∣ l.count a) (p : α → Bool) : 2 ∣ l.countP p := by
  rw [← List.sum_map_count_dedup_filter_eq_countP]
  apply List.dvd_sum
  intro n hn
  obtain ⟨a, -, rfl⟩ := List.mem_map.1 hn
  exact h a

/-- The parity of a count depends on the parities of the occurrences alone. -/
theorem countP_mod_two_congr (h : ∀ a, l.count a % 2 = l'.count a % 2) (p : α → Bool) :
    l.countP p % 2 = l'.countP p % 2 := by
  have heven : ∀ a, 2 ∣ (l ++ l').count a := by
    intro a
    have ha := h a
    rw [List.count_append]
    omega
  have hsum := two_dvd_countP heven p
  rw [List.countP_append] at hsum
  omega

theorem count_filter_mod_two {p : α → Bool} (h : ∀ a, p a = false → l.count a % 2 = 0) (a : α) :
    (l.filter p).count a % 2 = l.count a % 2 := by
  cases hp : p a with
  | true => rw [List.count_filter hp]
  | false =>
    have hnone : a ∉ l.filter p := by
      intro ha
      rw [(List.mem_filter.1 ha).2] at hp
      cases hp
    rw [List.count_eq_zero_of_not_mem hnone, h a hp]

end Occurrences

namespace State

variable {s : State} {w w' : Nat}

/-! ## One sprite -/

/-- The pixels that the sprite of a word falls on. -/
def spriteOf (s : State) (w : Nat) : List ScreenPosition :=
  spritePixels s.memory s.i.toNat (rowsOf w) (s.v.get (xOf w)).toNat (s.v.get (yOf w)).toNat

theorem mem_spriteOf {p : ScreenPosition} :
    p ∈ s.spriteOf w ↔ (s.spriteAt (xOf w) (yOf w) (rowsOf w)).pixel p.1 p.2 = true := by
  have hrows : (rowsOf w).val ≤ screenHeight := Nat.le_trans (Nat.le_of_lt (rowsOf w).isLt) (by decide)
  exact mem_spritePixels hrows

/-- Whether the sprite of the word falls on the pixel. -/
def covers (s : State) (w : Nat) (p : ScreenPosition) : Bool := (s.spriteOf w).contains p

theorem covers_iff {p : ScreenPosition} : s.covers w p = true ↔ p ∈ s.spriteOf w := List.contains_iff_mem

theorem covers_eq (s : State) (w : Nat) (p : ScreenPosition) :
    s.covers w p = (s.spriteAt (xOf w) (yOf w) (rowsOf w)).pixel p.1 p.2 := by
  rw [Bool.eq_iff_iff, covers_iff, mem_spriteOf]

theorem executeWord_eq_drawSprite (hw : w / 4096 = 0xD) :
    s.executeWord w = s.drawSprite (xOf w) (yOf w) (rowsOf w) := by
  have hword : (Instruction.draw (xOf w) (yOf w) (rowsOf w)).HasWord w := ⟨hw, rfl, rfl, rfl⟩
  exact congrArg s.execute (Instruction.ofWord_of_hasWord hword)

theorem pixel_executeWord (hw : w / 4096 = 0xD) (p : ScreenPosition) :
    (s.executeWord w).screen.pixel p.1 p.2 = (s.screen.pixel p.1 p.2 ^^ s.covers w p) := by
  have hscreen : (s.executeWord w).screen = s.screen.toggle (s.spriteAt (xOf w) (yOf w) (rowsOf w)) := by
    rw [executeWord_eq_drawSprite hw]
    rfl
  rw [hscreen, Raster.pixel_toggle, covers_eq]

/-- The flag tells whether the sprite has turned a lit pixel dark. -/
theorem flag_executeWord (hw : w / 4096 = 0xD) :
    (s.executeWord w).v.get flagRegister = 1 ↔ ∃ p ∈ s.spriteOf w, s.screen.pixel p.1 p.2 = true := by
  have hflag : (s.executeWord w).v.get flagRegister =
      if s.screen.overlaps (s.spriteAt (xOf w) (yOf w) (rowsOf w)) then 1 else 0 := by
    rw [executeWord_eq_drawSprite hw]
    exact Vector.getElem_set_self _
  have hone : ∀ b : Bool, (if b then (1 : UInt8) else 0) = 1 ↔ b = true := by decide
  rw [hflag, hone, Raster.overlaps_iff]
  constructor
  · rintro ⟨x, y, hlit, hmask⟩
    exact ⟨(x, y), mem_spriteOf.2 hmask, hlit⟩
  · rintro ⟨p, hp, hlit⟩
    exact ⟨p.1, p.2, hlit, mem_spriteOf.1 hp⟩

/-- What a sprite is made of and placed by is not changed by drawing another one. -/
theorem spriteOf_executeWord (hw : w / 4096 = 0xD) (hw' : DrawsClearOfFlag w') :
    (s.executeWord w).spriteOf w' = s.spriteOf w' := by
  obtain ⟨-, hx, hy⟩ := hw'
  rw [executeWord_eq_drawSprite hw]
  have hv : ∀ r : Nibble, r ≠ flagRegister →
      (s.drawSprite (xOf w) (yOf w) (rowsOf w)).v.get r = s.v.get r := by
    intro r hr
    exact (getElem_set_register s.v flagRegister r _).trans (if_neg hr)
  unfold spriteOf
  rw [hv _ hx, hv _ hy]
  rfl

theorem covers_executeWord (hw : w / 4096 = 0xD) (hw' : DrawsClearOfFlag w') (p : ScreenPosition) :
    (s.executeWord w).covers w' p = s.covers w' p := by
  unfold covers
  rw [spriteOf_executeWord hw hw']

/-! ## Sequences of sprites -/

/-- The state behind the words, executed one after the other. -/
def executeAll (s : State) (ws : List Nat) : State := ws.foldl (fun t w => t.executeWord w) s

theorem executeAll_cons (s : State) (w : Nat) (ws : List Nat) :
    s.executeAll (w :: ws) = (s.executeWord w).executeAll ws := rfl

/-- A pixel is toggled once for each sprite that covers it. -/
theorem pixel_executeAll {ws : List Nat} (hws : ∀ w ∈ ws, DrawsClearOfFlag w) (p : ScreenPosition) :
    (s.executeAll ws).screen.pixel p.1 p.2 =
      (s.screen.pixel p.1 p.2 ^^ decide (ws.countP (s.covers · p) % 2 = 1)) := by
  induction ws generalizing s with
  | nil => simp [executeAll]
  | cons w ws ih =>
    have hw : DrawsClearOfFlag w := hws w List.mem_cons_self
    have hrest : ∀ v ∈ ws, DrawsClearOfFlag v := by
      intro v hv
      exact hws v (List.mem_cons_of_mem w hv)
    -- the sprites still to come are those of the state before the first one
    have hsame : ws.countP ((s.executeWord w).covers · p) = ws.countP (s.covers · p) := by
      apply List.countP_congr
      intro v hv
      rw [covers_executeWord hw.1 (hrest v hv)]
    rw [executeAll_cons, ih hrest, hsame, pixel_executeWord hw.1, List.countP_cons, Bool.xor_assoc]
    congr 1
    cases hp : s.covers w p with
    | true => by_cases hodd : ws.countP (s.covers · p) % 2 = 1 <;> simp [hodd] <;> omega
    | false => simp

/-- Of the words only those that occur an odd number of times leave something on the screen. -/
theorem screen_executeAll_congr {ws ws' : List Nat} (hws : ∀ w ∈ ws, DrawsClearOfFlag w)
    (hws' : ∀ w ∈ ws', DrawsClearOfFlag w) (h : ∀ w, ws'.count w % 2 = ws.count w % 2) :
    (s.executeAll ws').screen = (s.executeAll ws).screen := by
  ext x y
  rw [pixel_executeAll hws (x, y), pixel_executeAll hws' (x, y), countP_mod_two_congr h]

theorem executeWord_twice (hw : DrawsClearOfFlag w) :
    ((s.executeWord w).executeWord w).screen = s.screen ∧
    ((s.executeWord w).v.get flagRegister = 1 ∨ ((s.executeWord w).executeWord w).v.get flagRegister = 1 ↔
      s.spriteOf w ≠ []) := by
  have hsame : (s.executeWord w).spriteOf w = s.spriteOf w := spriteOf_executeWord hw.1 hw
  constructor
  · ext x y
    rw [pixel_executeWord hw.1 (x, y), covers_executeWord hw.1 hw, pixel_executeWord hw.1 (x, y), Bool.xor_assoc,
      Bool.xor_self, Bool.xor_false]
  · rw [flag_executeWord hw.1, flag_executeWord hw.1, hsame]
    constructor
    · rintro (⟨p, hp, -⟩ | ⟨p, hp, -⟩) <;> exact List.ne_nil_of_mem hp
    · intro hne
      obtain ⟨p, hp⟩ := List.exists_mem_of_ne_nil _ hne
      -- what is dark at the first draw is lit at the second
      cases hlit : s.screen.pixel p.1 p.2 with
      | true => exact .inl ⟨p, hp, hlit⟩
      | false =>
        refine .inr ⟨p, hp, ?_⟩
        rw [pixel_executeWord hw.1, hlit, covers_iff.2 hp]
        rfl

/-- Behind words Dxyn whose x and y are not F, a pixel differs from before exactly if an odd number of their
sprites covers it, also where sprites reach behind the end of memory. So the words may be executed in any order,
and all words that occur an even number of times may be left out. Drawn twice, a sprite is gone, and one of the
two draws reports it in VF exactly if it has a lit pixel. -/
theorem executeAll_draws (s : State) {ws : List Nat} (hws : ∀ w ∈ ws, DrawsClearOfFlag w) :
    (∀ p : ScreenPosition, (s.executeAll ws).screen.pixel p.1 p.2 =
      (s.screen.pixel p.1 p.2 ^^ decide (ws.countP (s.covers · p) % 2 = 1))) ∧
    (∀ ws', ws'.Perm ws → (s.executeAll ws').screen = (s.executeAll ws).screen) ∧
    (∀ kept : Nat → Bool, (∀ w, kept w = false → ws.count w % 2 = 0) →
      (s.executeAll (ws.filter kept)).screen = (s.executeAll ws).screen) ∧
    ∀ w ∈ ws,
      let once := s.executeWord w
      let twice := once.executeWord w
      twice.screen = s.screen ∧
      (once.v.get flagRegister = 1 ∨ twice.v.get flagRegister = 1 ↔ s.spriteOf w ≠ []) := by
  refine ⟨pixel_executeAll hws, ?_, ?_, ?_⟩
  · intro ws' hperm
    have hws' : ∀ w ∈ ws', DrawsClearOfFlag w := by
      intro w hw
      exact hws w (hperm.mem_iff.1 hw)
    apply screen_executeAll_congr hws hws'
    intro w
    rw [hperm.count_eq]
  · intro kept heven
    have hkept : ∀ w ∈ ws.filter kept, DrawsClearOfFlag w := by
      intro w hw
      exact hws w (List.mem_filter.1 hw).1
    exact screen_executeAll_congr hws hkept (count_filter_mod_two heven)
  · intro w hw
    exact executeWord_twice (hws w hw)

/-- I two bytes before the end of memory, and registers that place sprites across the lower right corner. -/
def overhanging : State :=
  { initial ⟨0, 0⟩ {} with
    i := 0xFFE
    memory := Memory.blank.writeBlock 0xFFE [0xF0, 0x99]
    v := .replicate registerCount 62 }

/-- A sprite of fifteen rows, most of them from behind the end of memory, before and after one of two rows. -/
theorem overhanging_draws :
    (∀ w ∈ [0xD01F, 0xD102, 0xD01F], DrawsClearOfFlag w) ∧
    (overhanging.executeAll [0xD01F, 0xD102, 0xD01F]).status = Status.outOfBounds.code ∧
    (∀ p : ScreenPosition, (overhanging.executeAll [0xD01F, 0xD102, 0xD01F]).screen.pixel p.1 p.2 =
      (overhanging.screen.pixel p.1 p.2 ^^
        decide ([0xD01F, 0xD102, 0xD01F].countP (overhanging.covers · p) % 2 = 1))) ∧
    (overhanging.executeAll [0xD102, 0xD01F, 0xD01F]).screen =
      (overhanging.executeAll [0xD01F, 0xD102, 0xD01F]).screen ∧
    (overhanging.executeAll [0xD102]).screen =
      (overhanging.executeAll [0xD01F, 0xD102, 0xD01F]).screen ∧
    ((overhanging.executeWord 0xD01F).executeWord 0xD01F).screen = overhanging.screen := by
  have hws : ∀ w ∈ [0xD01F, 0xD102, 0xD01F], DrawsClearOfFlag w := by decide
  obtain ⟨hpixel, horder, hcancel, htwice⟩ := executeAll_draws overhanging hws
  have heven : ∀ w, (w == 0xD102) = false → [0xD01F, 0xD102, 0xD01F].count w % 2 = 0 := by
    intro w hw
    have hne : w ≠ 0xD102 := by simpa using hw
    by_cases hfirst : w = 0xD01F
    · rw [hfirst]
      rfl
    · rw [List.count_eq_zero_of_not_mem (by simp [hfirst, hne])]
  exact ⟨hws, by decide +kernel, hpixel, horder _ (.swap _ _ _), hcancel (· == 0xD102) heven,
    (htwice 0xD01F List.mem_cons_self).1⟩

end State

end ChipEight
