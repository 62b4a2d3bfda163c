/-
Pictures of lit and dark pixels, seen through `pixel`: how they are built, overlaid and written as
text. The screen of the machine is one of them.
-/
import ChipEight.Layout

namespace ChipEight

open Layout

/-- A picture of `width` by `height` pixels, kept row by row from the top; `true` is lit. -/
structure Raster (width height : Nat) where
  rows : Vector (Vector Bool width) height
deriving DecidableEq

/-- The picture that the machine draws on. -/
abbrev Screen : Type := Raster screenWidth screenHeight

namespace Raster

variable {w h : Nat}

/-- The pixel in column `x`, counted from the left, of row `y`, counted from the top. -/
def pixel (r : Raster w h) (x : Fin w) (y : Fin h) : Bool := r.rows[y][x]

def ofFn (f : Fin w → Fin h → Bool) : Raster w h :=
  ⟨.ofFn fun y => .ofFn fun x => f x y⟩

/-- The picture of a buffer kept column by column, in which every number but zero is lit. -/
def ofColumns {α : Type} [BEq α] [OfNat α 0] (columns : Vector (Vector α h) w) : Raster w h :=
  ofFn fun x y => columns[x][y] != 0

def blank : Raster w h := ofFn fun _ _ => false

/-- Toggles the pixels of `r` that are lit in `mask`. -/
def toggle (r mask : Raster w h) : Raster w h :=
  ofFn fun x y => r.pixel x y ^^ mask.pixel x y

/-- Whether some pixel is lit in both pictures. -/
def overlaps (r r' : Raster w h) : Bool :=
  (List.finRange h).any fun y => (List.finRange w).any fun x => r.pixel x y && r'.pixel x y

/-- One line of text for each row, with `on` for a lit pixel and `off` for a dark one. -/
def toText (r : Raster w h) (on off : String) : String :=
  "\n".intercalate <| r.rows.toList.map fun row =>
    String.join (row.toList.map fun lit => if lit then on else off)

/-! ## Pixels of the operations -/

@[ext] theorem ext_pixel {r r' : Raster w h} (eq : ∀ x y, r.pixel x y = r'.pixel x y) : r = r' := by
  obtain ⟨rows⟩ := r
  obtain ⟨rows'⟩ := r'
  congr 1
  ext y hy x hx
  rw [show rows[y][x] = rows'[y][x] from eq ⟨x, hx⟩ ⟨y, hy⟩]

@[simp] theorem pixel_ofFn (f : Fin w → Fin h → Bool) (x : Fin w) (y : Fin h) :
    (ofFn f).pixel x y = f x y := by
  simp [pixel, ofFn]

@[simp] theorem pixel_ofColumns {α : Type} [BEq α] [OfNat α 0] (columns : Vector (Vector α h) w)
    (x : Fin w) (y : Fin h) : (ofColumns columns).pixel x y = (columns[x][y] != 0) := by
  simp [ofColumns]

@[simp] theorem pixel_toggle (r mask : Raster w h) (x : Fin w) (y : Fin h) :
    (r.toggle mask).pixel x y = (r.pixel x y ^^ mask.pixel x y) := by
  simp [toggle]

theorem overlaps_iff {r r' : Raster w h} :
    r.overlaps r' = true ↔ ∃ x y, r.pixel x y = true ∧ r'.pixel x y = true := by
  simp only [overlaps, List.any_eq_true, List.mem_finRange, true_and, Bool.and_eq_true]
  exact exists_comm

end Raster

end ChipEight
