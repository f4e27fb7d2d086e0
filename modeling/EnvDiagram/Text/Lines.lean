/-!
# Lines of a text

A line feed ends a line, and a carriage return just before it belongs to the ending. A
text that ends with a line feed has no further line after it, and the empty text has
no line at all. Any other carriage return is an ordinary character.

* `lines` — the lines of a text, without their endings
* `takeLines` — the text up to a given number of line feeds
-/

namespace EnvDiagram.Text

/-- The lines of a text, without their endings. -/
def lines : List Char → List (List Char)
  | [] => []
  | '\n' :: rest => [] :: lines rest
  | '\r' :: '\n' :: rest => [] :: lines rest
  | c :: rest =>
    match lines rest with
    | [] => [[c]]
    | line :: more => (c :: line) :: more

@[simp]
theorem lines_nil : lines [] = [] := rfl

/-- The text up to its `n`-th line feed, that one left out. -/
def takeLines : Nat → List Char → List Char
  | 0, _ => []
  | _, [] => []
  | n + 1, c :: rest =>
    if c = '\n' then
      match n with
      | 0 => []
      | n + 1 => '\n' :: takeLines (n + 1) rest
    else c :: takeLines (n + 1) rest

/-- The lines of a string. -/
def linesOf (text : String) : List String :=
  (lines text.toList).map String.ofList

end EnvDiagram.Text
