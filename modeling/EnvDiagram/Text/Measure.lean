import EnvDiagram.Config
import EnvDiagram.Text.Lines

/-!
# Measuring and cutting text

Text is set in a monospaced font, so a text is as wide as its longest line has
characters. A text too wide for its place is cut and ends with an ellipsis.

The cut counts characters over the whole text, not per line: a text is a sequence of
characters here, and the number that fits is taken from its start.
-/

namespace EnvDiagram.Text

variable {α : Type} [Scalar α]

/-- The number of characters in the longest line. -/
def columns (text : String) : Nat :=
  ((lines text.toList).map List.length).foldl max 0

/-- The width of the longest line. -/
def width (config : Config α) (text : String) : α :=
  (columns text : α) * config.charWidth

/-- How many characters fit in front of the ellipsis. -/
def fitCount (config : Config α) (maxWidth : α) : Nat :=
  Scalar.floorNat ((maxWidth - width config config.ellipsis) / config.charWidth)

/-- The text itself if it fits, else its start followed by the ellipsis. -/
def fit (config : Config α) (maxWidth : α) (text : String) : String :=
  if width config text ≤ maxWidth then text
  else String.ofList (text.toList.take (fitCount config maxWidth)) ++ config.ellipsis

theorem fit_of_le {config : Config α} {maxWidth : α} {text : String}
    (h : width config text ≤ maxWidth) : fit config maxWidth text = text :=
  if_pos h

end EnvDiagram.Text
