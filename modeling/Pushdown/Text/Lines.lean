/-
  Pushdown.Text.Lines — a text as lines that keep their ends, and lines without them.
-/

namespace Pushdown.Text

/-- Cuts a text after every line feed; the last line may lack one. -/
def terminatedLines : List Char → List (List Char)
  | [] => []
  | c :: rest =>
    if c = '\n' then [c] :: terminatedLines rest
    else match terminatedLines rest with
      | [] => [[c]]
      | line :: lines => (c :: line) :: lines

/-- A line without the line feeds and carriage returns at its end. -/
def trimLineEnd (line : List Char) : List Char :=
  (line.reverse.dropWhile fun c => c == '\n' || c == '\r').reverse

/-- A line without its line feed and the one carriage return before it. A line that lacks
    the line feed keeps all its characters. -/
def dropLineEnd (line : List Char) : List Char :=
  match line.reverse with
  | '\n' :: '\r' :: rest => rest.reverse
  | '\n' :: rest => rest.reverse
  | _ => line

theorem flatten_terminatedLines (text : List Char) : (terminatedLines text).flatten = text := by
  induction text with
  | nil => rfl
  | cons c rest ih =>
    unfold terminatedLines
    split
    · rw [List.flatten_cons, ih, List.singleton_append]
    · split
      · next h => rw [h] at ih; simp [← ih]
      · next line lines h => rw [h] at ih; simp [← ih]

end Pushdown.Text
