/-
The fixed dimensions of a CHIP-8 machine: the memory map with its built-in font, the screen, the
register file, the call stack, the keypad and the usual clock rates.
-/
namespace ChipEight.Layout

/-! ## Memory map -/

abbrev memorySize : Nat := 4096

/-- The address of a program's first byte; the addresses below it belong to the interpreter. -/
abbrev programStart : Nat := 0x200

/-- The number of bytes from the first program address to the end of memory. -/
abbrev programCapacity : Nat := memorySize - programStart

/-- The address of the font glyph for the digit 0. -/
abbrev fontStart : Nat := 0x050

/-- The number of bytes, and of pixel rows, of one glyph. -/
abbrev glyphSize : Nat := 5

/-- The glyphs of the hexadecimal digits in order, one row of four pixels in each byte. -/
def font : List UInt8 :=
  [ 0xF0, 0x90, 0x90, 0x90, 0xF0,
    0x20, 0x60, 0x20, 0x20, 0x70,
    0xF0, 0x10, 0xF0, 0x80, 0xF0,
    0xF0, 0x10, 0xF0, 0x10, 0xF0,
    0x90, 0x90, 0xF0, 0x10, 0x10,
    0xF0, 0x80, 0xF0, 0x10, 0xF0,
    0xF0, 0x80, 0xF0, 0x90, 0xF0,
    0xF0, 0x10, 0x20, 0x40, 0x40,
    0xF0, 0x90, 0xF0, 0x90, 0xF0,
    0xF0, 0x90, 0xF0, 0x10, 0xF0,
    0xF0, 0x90, 0xF0, 0x90, 0x90,
    0xE0, 0x90, 0xE0, 0x90, 0xE0,
    0xF0, 0x80, 0x80, 0x80, 0xF0,
    0xE0, 0x90, 0x90, 0x90, 0xE0,
    0xF0, 0x80, 0xF0, 0x80, 0xF0,
    0xF0, 0x80, 0xF0, 0x80, 0x80 ]

/-! ## Screen -/

abbrev screenWidth : Nat := 64

abbrev screenHeight : Nat := 32

/-- The number of pixels in a sprite row, one for each bit of its byte. -/
abbrev spriteWidth : Nat := 8

/-! ## Registers, stack and keys -/

abbrev registerCount : Nat := 16

/-- The register that carries, borrows, shifted bits and collisions are reported in. -/
abbrev flagRegister : Fin registerCount := 0xF

/-- The register that a jump by a register adds, unless the jump names another. -/
abbrev jumpOffsetRegister : Fin registerCount := 0x0

abbrev stackSize : Nat := 16

abbrev keyCount : Nat := 16

/-- The keys as they lie on the pad, row by row from the top. -/
def keypadRows : List (List (Fin keyCount)) :=
  [ [0x1, 0x2, 0x3, 0xC],
    [0x4, 0x5, 0x6, 0xD],
    [0x7, 0x8, 0x9, 0xE],
    [0xA, 0x0, 0xB, 0xF] ]

/-! ## Clock rates -/

/-- The rate of the two timers, in ticks a second. -/
def timerHz : Int := 60

/-- The usual rate of execution, in instructions a second. -/
def instructionHz : Int := 700

end ChipEight.Layout
