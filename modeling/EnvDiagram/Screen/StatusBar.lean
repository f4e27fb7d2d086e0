import EnvDiagram.Screen.Buffer
import EnvDiagram.Screen.Theme

/-!
# The status bar

On the left the step, the last message and the number of warnings; on the right, flush
with the edge, the keys and a badge for the mode or for an end of the history. Either
half is cut where it does not fit.
-/

namespace EnvDiagram

/-- What the status bar tells. -/
structure StatusBar where
  message : String
  position : Nat
  length : Nat
  printable : Bool
  warnings : Nat

namespace StatusBar

/-- A piece of text in two colors. -/
def span (fg bg : Color) (text : String) : Span := ⟨text, ⟨some fg, some bg, false⟩⟩

/-- A highlighted piece of text. -/
def badge (bg : Color) (text : String) : Span := ⟨text, ⟨some .black, some bg, true⟩⟩

/-- A key. -/
def key (text : String) : Span := span .black Theme.comment text

/-- What a key does. -/
def description (text : String) : Span := span Theme.text Theme.barGround text

/-- The line between two keys. -/
def separator (text : String) : Span := span Theme.comment Theme.barGround text

/-- The left half. -/
def left (s : StatusBar) : List Span :=
  [ badge Theme.primary (" Step " ++ toString (s.position + 1) ++ "/" ++ toString s.length ++ " "),
    separator " | ",
    description (" " ++ s.message ++ " ") ] ++
  if 0 < s.warnings then
    [span Theme.error Theme.barGround (" ⚠ " ++ toString s.warnings ++ " ")]
  else []

/-- A key, what it does, and the line to the next one. -/
def entry (k does : String) : List Span :=
  [key k, description does, separator "│", description " "]

/-- The keys. -/
def keys : List Span :=
  entry " ←/→ " " step " ++ entry " f " " hover fn " ++ entry " p " " printable " ++
    entry " ↵ / ⌫ " " end/start " ++ [key "q", description " quit "]

/-- The badge: the printable mode, or else the end or the start of the history. -/
def badges (s : StatusBar) : List Span :=
  if s.printable then [separator "│", badge Theme.secondary " PRINT "]
  else if s.length ≤ s.position + 1 then [separator "│", badge Theme.error " END "]
  else if s.position = 0 then [separator "│", badge Theme.success " START "]
  else []

/-- The right half. -/
def right (s : StatusBar) : List Span := keys ++ s.badges

/-- The number of cells that pieces of text take up. -/
def spanWidth (spans : List Span) : Nat :=
  spans.foldl (fun n span => n + (printed span.text).length) 0

/-- The status bar in an area; the left half has the middle column of an odd width. -/
def render (s : StatusBar) (a : Area) (b : Buffer) : Buffer :=
  let b := b.restyle a ⟨none, some Theme.barGround, false⟩
  if a.isEmpty then b
  else
    let leftWidth := (a.width + 1) / 2
    let rightWidth := a.width - leftWidth
    let indent := rightWidth - spanWidth s.right
    (b.writeSpans a.x a.y leftWidth s.left).writeSpans (a.x + leftWidth + indent) a.y
      (rightWidth - indent) s.right

end StatusBar

end EnvDiagram
