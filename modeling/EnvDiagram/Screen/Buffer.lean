import EnvDiagram.Color

/-!
# The cells of a terminal

A screen is a rectangle of cells, each with a character, two colors and a weight. What is
written outside of it is lost.

* `Buffer.writeText` — a line of text with a style
* `Buffer.rows`, `Buffer.styles` — the screen as text and as runs of equal style
-/

namespace EnvDiagram

/-- A cell of a terminal. -/
structure ScreenCell where
  symbol : Char
  fg : Color
  bg : Color
  bold : Bool
deriving DecidableEq, Repr

/-- What is written with a text: colors that replace those of a cell where they are given,
and weight that is added. -/
structure TextStyle where
  fg : Option Color
  bg : Option Color
  bold : Bool
deriving DecidableEq, Repr

/-- A rectangle of cells. -/
structure Area where
  x : Nat
  y : Nat
  width : Nat
  height : Nat
deriving DecidableEq, Repr

/-- A piece of text in one style. -/
structure Span where
  text : String
  style : TextStyle

/-- The cells of a terminal, row by row. -/
structure Buffer where
  width : Nat
  height : Nat
  cells : Array ScreenCell

/-- The part of an area that its border leaves. -/
def Area.inner (a : Area) : Area := ⟨a.x + 1, a.y + 1, a.width - 2, a.height - 2⟩

/-- Whether an area holds no cell. -/
def Area.isEmpty (a : Area) : Bool := a.width = 0 || a.height = 0

/-- Whether a character moves the terminal and prints nothing. -/
def isControl (c : Char) : Bool := c.toNat < 0x20 || (0x7f ≤ c.toNat && c.toNat < 0xa0)

/-- The characters of a text that a terminal prints. -/
def printed (text : String) : List Char := text.toList.filter fun c => !isControl c

namespace ScreenCell

/-- A cell that nothing has been written to. -/
def blank : ScreenCell := ⟨' ', .reset, .reset, false⟩

/-- The cell in another style. -/
def restyle (cell : ScreenCell) (s : TextStyle) : ScreenCell :=
  { cell with fg := s.fg.getD cell.fg, bg := s.bg.getD cell.bg, bold := s.bold || cell.bold }

/-- The cell with another character and in another style. -/
def write (cell : ScreenCell) (c : Char) (s : TextStyle) : ScreenCell :=
  { cell.restyle s with symbol := c }

end ScreenCell

namespace Buffer

/-- A screen that nothing has been written to. -/
def blank (width height : Nat) : Buffer :=
  ⟨width, height, Array.replicate (width * height) .blank⟩

/-- Changes a cell. -/
def modify (b : Buffer) (x y : Nat) (f : ScreenCell → ScreenCell) : Buffer :=
  if x < b.width then { b with cells := b.cells.modify (y * b.width + x) f } else b

/-- The cell at a position. -/
def cell? (b : Buffer) (x y : Nat) : Option ScreenCell :=
  if x < b.width then b.cells[y * b.width + x]? else none

/-- Writes a character. -/
def write (b : Buffer) (x y : Nat) (c : Char) (s : TextStyle) : Buffer :=
  b.modify x y fun cell => cell.write c s

/-- Changes the style of all cells of an area. -/
def restyle (b : Buffer) (a : Area) (s : TextStyle) : Buffer :=
  (List.range a.height).foldl (fun b y =>
    (List.range a.width).foldl (fun b x => b.modify (a.x + x) (a.y + y) (·.restyle s)) b) b

/-- Writes characters one after the other. -/
def writeChars (b : Buffer) (x y : Nat) (s : TextStyle) : List Char → Buffer
  | [] => b
  | c :: rest => (b.write x y c s).writeChars (x + 1) y s rest

/-- Writes a text, cut to a width. -/
def writeText (b : Buffer) (x y width : Nat) (s : TextStyle) (text : String) : Buffer :=
  b.writeChars x y s ((printed text).take width)

/-- Writes pieces of text side by side, cut to a width. -/
def writeSpans (b : Buffer) (x y width : Nat) : List Span → Buffer
  | [] => b
  | span :: rest =>
    let n := min width (printed span.text).length
    (b.writeText x y width span.style span.text).writeSpans (x + n) y (width - n) rest

/-- The cells of a row. -/
def row (b : Buffer) (y : Nat) : List ScreenCell :=
  (List.range b.width).filterMap fun x => b.cell? x y

/-- The text of each row. -/
def rows (b : Buffer) : List String :=
  (List.range b.height).map fun y => String.ofList ((b.row y).map ScreenCell.symbol)

/-- Runs of neighbouring cells with one style, each with its length. -/
def runs : List ScreenCell → List (Nat × ScreenCell)
  | [] => []
  | c :: rest =>
    match runs rest with
    | [] => [(1, c)]
    | (n, d) :: more =>
      if c.fg = d.fg ∧ c.bg = d.bg ∧ c.bold = d.bold then (n + 1, c) :: more
      else (1, c) :: (n, d) :: more

/-- The runs of equal style in each row. -/
def styles (b : Buffer) : List (List (Nat × ScreenCell)) :=
  (List.range b.height).map fun y => runs (b.row y)

end Buffer

end EnvDiagram
