/-
Sprites drawn pixel by pixel. `State.drawLoop` goes through the rows and columns of a sprite and toggles
one pixel for each bit that is set, where the drawing instruction overlays the whole screen with a mask.
The loop comes to each pixel of the mask once and to no other (`mem_spritePixels`, `nodup_spritePixels`),
so a pixel is toggled at most once and was lit at its turn exactly if it was lit before the loop:
`executeWord_draw` shows that the two agree, in the screen and in the flag.
-/
import ChipEight.Proofs.Encoding
import ChipEight.Execute
import Mathlib.Data.List.Nodup

namespace ChipEight

open Layout

/-! ## Toggling single pixels -/

namespace Raster

variable {w h : Nat}

/-- Toggles one pixel. -/
def flip (r : Raster w h) (x : Fin w) (y : Fin h) : Raster w h :=
  ⟨r.rows.set y ((r.rows.get y).set x (!r.pixel x y) x.isLt) y.isLt⟩

theorem pixel_flip (r : Raster w h) (x x' : Fin w) (y y' : Fin h) :
    (r.flip x y).pixel x' y' = (r.pixel x' y' ^^ decide ((x', y') = (x, y))) := by
  have hset : (r.flip x y).pixel x' y' =
      if y = y' then (if x = x' then !r.pixel x y else r.pixel x' y) else r.pixel x' y' := by
    simp only [pixel, flip, Fin.getElem_fin, Vector.getElem_set, Fin.val_inj]
    split
    · simp only [Vector.getElem_set, Fin.val_inj]
      rfl
    · rfl
  rw [hset]
  by_cases hy : y = y'
  · subst hy
    by_cases hx : x = x'
    · subst hx
      simp
    · have hne : ¬ (x', y) = (x, y) := fun e => hx (Prod.mk.inj e).1.symm
      rw [if_pos rfl, if_neg hx, decide_eq_false hne, Bool.xor_false]
  · have hne : ¬ (x', y') = (x, y) := fun e => hy (Prod.mk.inj e).2.symm
    rw [if_neg hy, decide_eq_false hne, Bool.xor_false]

end Raster

abbrev ScreenPosition : Type := Fin screenWidth × Fin screenHeight

/-- A screen on which pixels are toggled, and whether one of them was lit and turned dark. -/
structure Canvas where
  screen : Screen
  hit : Bool

namespace Canvas

def toggle (c : Canvas) (p : ScreenPosition) : Canvas where
  screen := c.screen.flip p.1 p.2
  hit := c.hit || c.screen.pixel p.1 p.2

theorem pixel_toggle (c : Canvas) (p q : ScreenPosition) :
    (c.toggle p).screen.pixel q.1 q.2 = (c.screen.pixel q.1 q.2 ^^ decide (q = p)) :=
  Raster.pixel_flip c.screen p.1 q.1 p.2 q.2

/-- Of pixels toggled one after the other, all different, each is toggled in the end. -/
theorem pixel_foldl_toggle {ps : List ScreenPosition} (hps : ps.Nodup) {q : ScreenPosition} {b : Bool}
    (hb : b = true ↔ q ∈ ps) (c : Canvas) :
    (ps.foldl toggle c).screen.pixel q.1 q.2 = (c.screen.pixel q.1 q.2 ^^ b) := by
  induction ps generalizing b c with
  | nil =>
    have hfalse : b = false := Bool.eq_false_iff.2 fun h => List.not_mem_nil (hb.1 h)
    rw [hfalse, Bool.xor_false]
    rfl
  | cons p ps ih =>
    obtain ⟨hp, hrest⟩ := List.nodup_cons.1 hps
    rw [List.foldl_cons]
    by_cases hq : q = p
    · subst hq
      have htrue : b = true := hb.2 List.mem_cons_self
      have hlater : false = true ↔ q ∈ ps := by simpa using hp
      rw [ih hrest hlater, pixel_toggle, decide_eq_true rfl, htrue, Bool.xor_false]
    · have hlater : b = true ↔ q ∈ ps := by simpa [hq] using hb
      rw [ih hrest hlater, pixel_toggle, decide_eq_false hq, Bool.xor_false]

theorem hit_foldl_toggle {ps : List ScreenPosition} (hps : ps.Nodup) (c : Canvas) :
    (ps.foldl toggle c).hit = (c.hit || ps.any fun p => c.screen.pixel p.1 p.2) := by
  induction ps generalizing c with
  | nil => simp
  | cons p ps ih =>
    obtain ⟨hp, hps⟩ := List.nodup_cons.1 hps
    -- the pixels still to come are not the one that is toggled
    have hrest : (ps.any fun q => (c.toggle p).screen.pixel q.1 q.2) =
        ps.any fun q => c.screen.pixel q.1 q.2 := by
      rw [Bool.eq_iff_iff, List.any_eq_true, List.any_eq_true]
      refine exists_congr fun q => and_congr_right fun hq => ?_
      have hne : q ≠ p := fun e => hp (e ▸ hq)
      rw [pixel_toggle, decide_eq_false hne, Bool.xor_false]
    rw [List.foldl_cons, ih hps, hrest, List.any_cons, ← Bool.or_assoc]
    rfl

end Canvas

/-! ## The loop over a sprite -/

/-- The place that `p` steps from the first one lead to, on a circle of `size` places. -/
def wrap {size : Nat} (h : 0 < size) (p : Nat) : Fin size := ⟨p % size, Nat.mod_lt p h⟩

theorem screenWidth_pos : 0 < screenWidth := by decide

theorem screenHeight_pos : 0 < screenHeight := by decide

/-- The pixel under the given row and column of a sprite whose corner is at `x` and `y`. -/
def spritePosition (x y row column : Nat) : ScreenPosition :=
  (wrap screenWidth_pos (x + column), wrap screenHeight_pos (y + row))

/-- The bit of a sprite for a row and a column, the leftmost column in the highest bit. -/
def spriteBit (m : Memory) (address row column : Nat) : Bool :=
  (m.read (address + row)).toNat.testBit (7 - column)

/-- Draws the sprite at I, placed by Vx and Vy: row by row, and in a row column by column, each bit that
is set toggles its pixel. -/
def State.drawLoop (s : State) (x y rows : Nibble) : Canvas :=
  (List.range rows).foldl
    (fun c row => (List.range spriteWidth).foldl
      (fun c column =>
        if spriteBit s.memory s.i.toNat row column then
          c.toggle (spritePosition (s.v.get x).toNat (s.v.get y).toNat row column)
        else c) c)
    ⟨s.screen, false⟩

/-- The pixels that the loop toggles, in order. -/
def spritePixels (m : Memory) (address rows x y : Nat) : List ScreenPosition :=
  (List.range rows).flatMap fun row =>
    ((List.range spriteWidth).filter fun column => spriteBit m address row column).map fun column =>
      spritePosition x y row column

theorem drawLoop_eq_foldl (s : State) (x y rows : Nibble) :
    s.drawLoop x y rows =
      (spritePixels s.memory s.i.toNat rows (s.v.get x).toNat (s.v.get y).toNat).foldl Canvas.toggle
        ⟨s.screen, false⟩ := by
  simp only [State.drawLoop, spritePixels, List.foldl_flatMap, List.foldl_map, List.foldl_filter]

/-! ## The pixels of a sprite -/

section Pixels

variable {m : Memory} {address rows x y : Nat}

theorem wrappedOffset_wrap {size : Nat} (h : 0 < size) (origin : Nat) {k : Nat} (hk : k < size) :
    wrappedOffset size origin (wrap h (origin + k)) = k :=
  (wrappedOffset_eq_iff (Fin.isLt _) hk).2 rfl

/-- Row and column are recovered from the pixel that they fall on. -/
theorem wrappedOffset_spritePosition {row column : Nat} (hrow : row < screenHeight)
    (hcolumn : column < spriteWidth) :
    wrappedOffset screenWidth x (spritePosition x y row column).1 = column ∧
      wrappedOffset screenHeight y (spritePosition x y row column).2 = row := by
  have hwidth : column < screenWidth := Nat.lt_trans hcolumn (by decide)
  exact ⟨wrappedOffset_wrap screenWidth_pos x hwidth, wrappedOffset_wrap screenHeight_pos y hrow⟩

theorem spritePosition_inj {row row' column column' : Nat} (hrow : row < screenHeight)
    (hrow' : row' < screenHeight) (hcolumn : column < spriteWidth) (hcolumn' : column' < spriteWidth)
    (h : spritePosition x y row column = spritePosition x y row' column') :
    row = row' ∧ column = column' := by
  obtain ⟨hc, hr⟩ := wrappedOffset_spritePosition (x := x) (y := y) hrow hcolumn
  obtain ⟨hc', hr'⟩ := wrappedOffset_spritePosition (x := x) (y := y) hrow' hcolumn'
  rw [h] at hc hr
  exact ⟨hr.symm.trans hr', hc.symm.trans hc'⟩

theorem mem_spritePixels (hrows : rows ≤ screenHeight) {p : ScreenPosition} :
    p ∈ spritePixels m address rows x y ↔ (spriteMask m address rows x y).pixel p.1 p.2 = true := by
  simp only [spritePixels, List.mem_flatMap, List.mem_range, List.mem_map, List.mem_filter, spriteMask,
    Raster.pixel_ofFn, Bool.and_eq_true, decide_eq_true_eq]
  constructor
  · rintro ⟨row, hrow, column, ⟨hcolumn, hbit⟩, rfl⟩
    obtain ⟨hc, hr⟩ := wrappedOffset_spritePosition (x := x) (y := y)
      (Nat.lt_of_lt_of_le hrow hrows) hcolumn
    rw [hc, hr]
    exact ⟨⟨hcolumn, hrow⟩, hbit⟩
  · rintro ⟨⟨hcolumn, hrow⟩, hbit⟩
    refine ⟨_, hrow, _, ⟨hcolumn, hbit⟩, ?_⟩
    have hx := (wrappedOffset_eq_iff p.1.isLt (wrappedOffset_lt x p.1 screenWidth_pos)).1 rfl
    have hy := (wrappedOffset_eq_iff p.2.isLt (wrappedOffset_lt y p.2 screenHeight_pos)).1 rfl
    exact Prod.ext (Fin.ext hx.symm) (Fin.ext hy.symm)

theorem nodup_spritePixels (hrows : rows ≤ screenHeight) : (spritePixels m address rows x y).Nodup := by
  have hlt {row : Nat} (h : row ∈ List.range rows) : row < screenHeight :=
    Nat.lt_of_lt_of_le (List.mem_range.1 h) hrows
  have hcolumn {row column : Nat}
      (h : column ∈ (List.range spriteWidth).filter fun column => spriteBit m address row column) :
      column < spriteWidth := List.mem_range.1 (List.mem_filter.1 h).1
  refine List.nodup_flatMap.2 ⟨fun row hrow => ?_, ?_⟩
  · refine (List.nodup_range.filter _).map_on fun column hc column' hc' heq => ?_
    exact (spritePosition_inj (hlt hrow) (hlt hrow) (hcolumn hc) (hcolumn hc') heq).2
  · refine List.nodup_range.imp_of_mem fun {row row'} hrow hrow' hne p hp hp' => ?_
    obtain ⟨column, hc, rfl⟩ := List.mem_map.1 hp
    obtain ⟨column', hc', heq⟩ := List.mem_map.1 hp'
    exact hne (spritePosition_inj (hlt hrow) (hlt hrow') (hcolumn hc) (hcolumn hc') heq.symm).1

end Pixels

/-! ## The drawing instruction -/

namespace State

/-- The mask that the instruction overlays the screen with. -/
def spriteAt (s : State) (x y rows : Nibble) : Screen :=
  spriteMask s.memory s.i.toNat rows (s.v.get x).toNat (s.v.get y).toNat

variable {s : State} {x y rows : Nibble}

theorem drawLoop_screen : (s.drawLoop x y rows).screen = s.screen.toggle (s.spriteAt x y rows) := by
  have hrows : rows.val ≤ screenHeight := Nat.le_trans (Nat.le_of_lt rows.isLt) (by decide)
  refine Raster.ext_pixel fun px py => ?_
  have hmem :
      (px, py) ∈ spritePixels s.memory s.i.toNat rows (s.v.get x).toNat (s.v.get y).toNat ↔
        (s.spriteAt x y rows).pixel px py = true := mem_spritePixels hrows
  rw [drawLoop_eq_foldl, Raster.pixel_toggle,
    Canvas.pixel_foldl_toggle (nodup_spritePixels hrows) hmem.symm ⟨s.screen, false⟩]

theorem drawLoop_hit : (s.drawLoop x y rows).hit = s.screen.overlaps (s.spriteAt x y rows) := by
  have hrows : rows.val ≤ screenHeight := Nat.le_trans (Nat.le_of_lt rows.isLt) (by decide)
  rw [drawLoop_eq_foldl, Canvas.hit_foldl_toggle (nodup_spritePixels hrows), Bool.false_or,
    Bool.eq_iff_iff, List.any_eq_true, Raster.overlaps_iff]
  constructor
  · rintro ⟨p, hp, hlit⟩
    exact ⟨p.1, p.2, hlit, (mem_spritePixels hrows).1 hp⟩
  · rintro ⟨px, py, hlit, hmask⟩
    exact ⟨(px, py), (mem_spritePixels hrows).2 hmask, hlit⟩

theorem drawSprite_eq (h : s.i.toNat + rows ≤ memorySize) :
    s.drawSprite x y rows =
      { s with
        screen := s.screen.toggle (s.spriteAt x y rows)
        v := s.v.set flagRegister (if s.screen.overlaps (s.spriteAt x y rows) then 1 else 0)
        status := Status.draw } := by
  have hin : decide (memorySize < s.i.toNat + rows) = false := decide_eq_false (Nat.not_lt.2 h)
  unfold drawSprite
  rw [hin]
  rfl

theorem ofWord_draw (x y rows : Nibble) :
    Instruction.ofWord (0xD000 + 256 * x.val + 16 * y.val + rows.val : Nat) = .draw x y rows := by
  obtain ⟨hfamily, hx, hy, hrows⟩ := digits_of_word 0xD x y rows
  exact Instruction.ofWord_of_hasWord ⟨hfamily, hx.symm, hy.symm, hrows.symm⟩

/-- A word Dxyn whose sprite lies in memory draws what the loop draws, sets VF to 1 if the loop turned a
lit pixel dark and else to 0, ends with DRAW, and changes nothing else. -/
theorem executeWord_draw (x y rows : Nibble) (h : s.i.toNat + rows ≤ 4096) :
    s.executeWord (0xD000 + 256 * x.val + 16 * y.val + rows.val : Nat) =
      { s with
        screen := (s.drawLoop x y rows).screen
        v := s.v.set 0xF (if (s.drawLoop x y rows).hit then 1 else 0)
        status := Status.draw } := by
  rw [executeWord, ofWord_draw, drawLoop_screen, drawLoop_hit]
  exact drawSprite_eq h

/-- A screen all lit, I on the glyph of 0, and registers that place it across the lower right corner. -/
def litCorner : State :=
  { initial ⟨0, 0⟩ {} with
    i := 0x050, v := .replicate registerCount 62, screen := .ofFn fun _ _ => true }

theorem litCorner_draw :
    litCorner.i.toNat + (5 : Nibble) ≤ 4096 ∧ (litCorner.drawLoop 0xF 0xF 5).hit = true ∧
    litCorner.executeWord 0xDFF5 =
      { litCorner with
        screen := (litCorner.drawLoop 0xF 0xF 5).screen
        v := litCorner.v.set 0xF (if (litCorner.drawLoop 0xF 0xF 5).hit then 1 else 0)
        status := Status.draw } := by
  have h : litCorner.i.toNat + (5 : Nibble) ≤ 4096 := by decide
  exact ⟨h, by decide +kernel, executeWord_draw 0xF 0xF 5 h⟩

end State

end ChipEight
