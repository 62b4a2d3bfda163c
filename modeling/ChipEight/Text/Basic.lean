/-
Text of integers in the two forms that the machine's messages use, zero-filled hexadecimal and
decimal with grouped thousands, and alignment to the right.
-/
namespace ChipEight.Text

/-! ## Alignment -/

/-- Fills `s` with spaces on the left to `width` characters; a longer text is kept whole. -/
def alignRight (width : Nat) (s : String) : String :=
  String.ofList (List.leftpad width ' ' s.toList)

/-! ## Hexadecimal -/

/-- The hexadecimal digits of `n`, upper-case, without leading zeros. -/
def hexDigits (n : Nat) : List Char := (Nat.toDigits 16 n).map Char.toUpper

/--
The hexadecimal text of `n`, zero-filled to `width` characters. A minus sign is one of these
characters, and a longer number is kept whole.
-/
def hex (width : Nat) (n : Int) : String :=
  String.ofList <|
    if n < 0 then '-' :: List.leftpad (width - 1) '0' (hexDigits n.natAbs)
    else List.leftpad width '0' (hexDigits n.natAbs)

example : hex 3 0x200 = "200" ∧ hex 3 (-1) = "-01" ∧ hex 3 0x12345 = "12345" := by decide

/-! ## Grouped decimals -/

/-- Puts a comma after every third digit that another digit follows. -/
def commas : List Char → List Char
  | a :: b :: c :: d :: rest => a :: b :: c :: ',' :: commas (d :: rest)
  | rest => rest

/-- The decimal text of `n`, with a comma between groups of three digits counted from the right. -/
def grouped (n : Int) : String :=
  String.ofList ((if n < 0 then ['-'] else []) ++ (commas (Nat.toDigits 10 n.natAbs).reverse).reverse)

example : grouped 1234567 = "1,234,567" ∧ grouped (-1000) = "-1,000" ∧ grouped 999 = "999" := by decide

end ChipEight.Text
