/-
What the text of a picture tells. With one character for a lit pixel and another for a dark one, neither of them a
line break, the lines of the text are the rows of the picture from the top (`lines_toText`), so that the text shows
each pixel in its place (`characterAt_toText`) and two pictures of one shape have the same text only if they are the
same (`toText_faithful`).
-/
import ChipEight.Raster

namespace ChipEight

namespace Text

/-- The parts of a text between its line breaks. -/
def lines (text : String) : List String := (text.split '\n').toList.map (·.copy)

/-- The character in column `x` of line `y`. -/
def characterAt? (text : String) (x y : Nat) : Option Char := (lines text)[y]?.bind (·.toList[x]?)

end Text

open Text

namespace Raster

variable {w h : Nat} {on off : Char}

/-! ## Rows and lines -/

/-- The line of a row. -/
def rowText (on off : Char) (row : Vector Bool w) : String :=
  .ofList (row.toList.map fun lit => if lit then on else off)

theorem length_rowText (on off : Char) (row : Vector Bool w) : (rowText on off row).length = w := by
  rw [rowText, String.length_ofList, List.length_map, Vector.length_toList]

theorem lineBreak_notMem_rowText (hon : on ≠ '\n') (hoff : off ≠ '\n') (row : Vector Bool w) :
    '\n' ∉ (rowText on off row).toList := by
  rw [rowText, String.toList_ofList, List.mem_map]
  rintro ⟨lit, -, hlit⟩
  cases lit with
  | true => exact hon hlit
  | false => exact hoff hlit

theorem join_singletons (on off : Char) (row : List Bool) :
    String.join (row.map fun lit => if lit then String.singleton on else String.singleton off) =
      .ofList (row.map fun lit => if lit then on else off) := by
  induction row with
  | nil => rfl
  | cons lit row ih =>
    rw [List.map_cons, String.join_cons, ih]
    cases lit <;> simp

theorem toText_singleton (r : Raster w h) (on off : Char) :
    r.toText (String.singleton on) (String.singleton off) =
      (String.singleton '\n').intercalate (r.rows.toList.map (rowText on off)) := by
  simp only [toText, join_singletons]
  rfl

theorem lines_toText (hh : 1 ≤ h) (hon : on ≠ '\n') (hoff : off ≠ '\n') (r : Raster w h) :
    lines (r.toText (String.singleton on) (String.singleton off)) = r.rows.toList.map (rowText on off) := by
  have hbreaks : ∀ line ∈ r.rows.toList.map (rowText on off), '\n' ∉ line.toList := by
    intro line hline
    obtain ⟨row, -, rfl⟩ := List.mem_map.1 hline
    exact lineBreak_notMem_rowText hon hoff row
  have hlines : r.rows.toList.map (rowText on off) ≠ [] := by
    apply List.ne_nil_of_length_pos
    rwa [List.length_map, Vector.length_toList]
  rw [lines, toText_singleton, String.toList_split_intercalate hbreaks, if_neg hlines]

/-- The text has a line for each row, of a character for each column. -/
theorem shape_lines (hh : 1 ≤ h) (hon : on ≠ '\n') (hoff : off ≠ '\n') (r : Raster w h) :
    (lines (r.toText (String.singleton on) (String.singleton off))).length = h ∧
    ∀ line ∈ lines (r.toText (String.singleton on) (String.singleton off)), line.length = w := by
  rw [lines_toText hh hon hoff]
  constructor
  · rw [List.length_map, Vector.length_toList]
  · intro line hline
    obtain ⟨row, -, rfl⟩ := List.mem_map.1 hline
    exact length_rowText on off row

/-! ## Pixels and characters -/

theorem characterAt_toText (hon : on ≠ '\n') (hoff : off ≠ '\n') (r : Raster w h) (x : Fin w) (y : Fin h) :
    characterAt? (r.toText (String.singleton on) (String.singleton off)) x y =
      some (if r.pixel x y then on else off) := by
  have hline : (r.rows.toList.map (rowText on off))[y.val]? = some (rowText on off r.rows[y]) := by
    simp
  have hcharacter : (rowText on off r.rows[y]).toList[x.val]? = some (if r.pixel x y then on else off) := by
    rw [rowText, String.toList_ofList, List.getElem?_map, Vector.getElem?_toList,
      Vector.getElem?_eq_getElem x.isLt]
    rfl
  rw [characterAt?, lines_toText (Nat.zero_lt_of_lt y.isLt) hon hoff, hline]
  exact hcharacter

/-- The characters of two pixels tell whether both are lit. -/
theorem eq_of_character_eq (hne : on ≠ off) {lit lit' : Bool}
    (heq : (if lit then on else off) = if lit' then on else off) : lit = lit' := by
  cases lit with
  | true =>
    cases lit' with
    | true => rfl
    | false => exact absurd heq hne
  | false =>
    cases lit' with
    | true => exact absurd heq hne.symm
    | false => rfl

theorem toText_inj (hne : on ≠ off) (hon : on ≠ '\n') (hoff : off ≠ '\n') {r r' : Raster w h} :
    r.toText (String.singleton on) (String.singleton off) =
      r'.toText (String.singleton on) (String.singleton off) ↔ r = r' := by
  constructor
  · intro heq
    ext x y
    have hcharacter := characterAt_toText hon hoff r x y
    rw [heq, characterAt_toText hon hoff r' x y, Option.some.injEq] at hcharacter
    exact (eq_of_character_eq hne hcharacter).symm
  · rintro rfl
    rfl

/-! ## Buffers -/

section

variable {α : Type} [BEq α] [OfNat α 0]

theorem pixel_get (columns : Vector (Vector α h) w) (x : Fin w) (y : Fin h) :
    (ofColumns columns).pixel x y = ((columns.get x).get y != 0) := by
  rw [pixel_ofColumns]
  rfl

theorem ofColumns_eq_iff {columns columns' : Vector (Vector α h) w} :
    ofColumns columns = ofColumns columns' ↔
      ∀ (x : Fin w) (y : Fin h), ((columns.get x).get y != 0) = ((columns'.get x).get y != 0) := by
  constructor
  · intro heq x y
    rw [← pixel_get, heq, pixel_get]
  · intro hsame
    ext x y
    rw [pixel_get, pixel_get, hsame x y]

/-- The text of a buffer of at least one row and any width, also none. Each row has a line of one character for each
column, which is `on` where the buffer holds another number than zero and `off` where it holds zero; so two buffers
of one shape have the same text exactly if the same pixels are lit in both. -/
theorem toText_faithful (hh : 1 ≤ h) (hne : on ≠ off) (hon : on ≠ '\n') (hoff : off ≠ '\n') :
    let text := fun columns : Vector (Vector α h) w =>
      (ofColumns columns).toText (String.singleton on) (String.singleton off)
    (∀ columns,
      (lines (text columns)).length = h ∧ (∀ line ∈ lines (text columns), line.length = w) ∧
      ∀ (x : Fin w) (y : Fin h),
        characterAt? (text columns) x y = some (if (columns.get x).get y != 0 then on else off) ∧
        (characterAt? (text columns) x y = some on ↔ (columns.get x).get y != 0)) ∧
    ∀ columns columns', text columns = text columns' ↔
      ∀ (x : Fin w) (y : Fin h), ((columns.get x).get y != 0) = ((columns'.get x).get y != 0) := by
  intro text
  constructor
  · intro columns
    obtain ⟨hlength, hwidth⟩ := shape_lines hh hon hoff (ofColumns columns)
    refine ⟨hlength, hwidth, fun x y => ?_⟩
    have hcharacter : characterAt? (text columns) x y =
        some (if (columns.get x).get y != 0 then on else off) := by
      rw [← pixel_get]
      exact characterAt_toText hon hoff _ x y
    refine ⟨hcharacter, ?_⟩
    rw [hcharacter, Option.some.injEq]
    constructor
    · intro heq
      have hlit : (if (columns.get x).get y != 0 then on else off) = if true then on else off := heq
      exact eq_of_character_eq hne hlit
    · intro hlit
      exact if_pos hlit
  · intro columns columns'
    exact (toText_inj hne hon hoff).trans ofColumns_eq_iff

/-- A buffer of three columns and two rows, and one of three rows without a column. -/
theorem toText_faithful_corner :
    1 ≤ 2 ∧ 1 ≤ 3 ∧ '#' ≠ '.' ∧ '#' ≠ '\n' ∧ '.' ≠ '\n' ∧
    (ofColumns (#v[#v[1, 0], #v[7, 0], #v[0, 1]] : Vector (Vector Nat 2) 3)).toText "#" "." = "##.\n..#" ∧
    (lines "##.\n..#").length = 2 ∧ characterAt? "##.\n..#" 2 1 = some '#' ∧
    (ofColumns (#v[] : Vector (Vector Nat 3) 0)).toText "#" "." = "\n\n" ∧
    (lines "\n\n").length = 3 ∧ ∀ line ∈ lines "\n\n", line.length = 0 := by
  have hrows : 1 ≤ 2 := by decide
  have hrows' : 1 ≤ 3 := by decide
  have hne : '#' ≠ '.' := by decide
  have hon : '#' ≠ '\n' := by decide
  have hoff : '.' ≠ '\n' := by decide
  have htext : (ofColumns (#v[#v[1, 0], #v[7, 0], #v[0, 1]] : Vector (Vector Nat 2) 3)).toText
      (String.singleton '#') (String.singleton '.') = "##.\n..#" := by decide
  have hempty : (ofColumns (#v[] : Vector (Vector Nat 3) 0)).toText
      (String.singleton '#') (String.singleton '.') = "\n\n" := by decide
  obtain ⟨hcorner, -⟩ := toText_faithful (α := Nat) (w := 3) hrows hne hon hoff
  obtain ⟨hlines, -, hcharacters⟩ := hcorner #v[#v[1, 0], #v[7, 0], #v[0, 1]]
  obtain ⟨hnoColumn, -⟩ := toText_faithful (α := Nat) (w := 0) hrows' hne hon hoff
  obtain ⟨hlines', hwidth, -⟩ := hnoColumn #v[]
  simp only [htext] at hlines hcharacters
  simp only [hempty] at hlines' hwidth
  exact ⟨hrows, hrows', hne, hon, hoff, htext, hlines, (hcharacters 2 1).1, hempty, hlines', hwidth⟩

end

end Raster

end ChipEight
