/-
Marc8.Text.Lines — texts cut into lines, and lines into fields.

  `pieces`         — a text cut at every character of a kind, as in `a,b,,c`:
                     one piece more than there are such characters;
  `lines`          — the lines of a text: each ends in a line feed, which may
                     have a carriage return before it; the last may lack both;
  `withoutComment` — a line up to its first `#`;
  `fields`         — the words of a line between blanks;
  `ofLines`        — lines as a text, a line feed behind each.
-/
import Marc8.Text.Blank

namespace Marc8.Text

/-- The text cut at every character that `p` accepts; the pieces hold none of them. -/
def pieces (p : Char → Bool) : List Char → List (List Char)
  | [] => [[]]
  | c :: rest =>
    if p c then [] :: pieces p rest
    else match pieces p rest with
      | piece :: more => (c :: piece) :: more
      | [] => [[c]]

/-- The text without a carriage return at its end. -/
def stripReturn (line : List Char) : List Char :=
  if line.getLast? = some '\r' then line.dropLast else line

/-- The lines of a text. What follows the last line feed is a line only if it is not empty. -/
def lines (text : List Char) : List (List Char) :=
  let cut := pieces (· = '\n') text
  cut.dropLast.map stripReturn ++ (cut.getLast?.toList.filter (· ≠ []))

/-- The line up to its first `#`. -/
def withoutComment (line : List Char) : List Char := line.takeWhile (· ≠ '#')

/-- The words of a line. -/
def fields (line : List Char) : List (List Char) := (pieces isBlank line).filter (· ≠ [])

/-- Lines as a text: a line feed behind each. -/
def ofLines (lines : List String) : String := String.join (lines.map (· ++ "\n"))

@[simp] theorem ofLines_nil : ofLines [] = "" := rfl

@[simp] theorem ofLines_cons (line : String) (rest : List String) :
    ofLines (line :: rest) = line ++ "\n" ++ ofLines rest := by
  simp [ofLines]

@[simp] theorem ofLines_append (front back : List String) :
    ofLines (front ++ back) = ofLines front ++ ofLines back := by
  induction front with
  | nil => simp
  | cons line rest ih => simp [ih, String.append_assoc]

/-- A text always has a piece. -/
theorem pieces_ne_nil (p : Char → Bool) (text : List Char) : pieces p text ≠ [] := by
  fun_induction pieces p text <;> simp

/-- A text is cut on both sides of a character that is cut at. -/
theorem pieces_append_cons {p : Char → Bool} {c : Char} (hc : p c = true) (back : List Char) :
    ∀ front : List Char, pieces p (front ++ c :: back) = pieces p front ++ pieces p back
  | [] => by simp [pieces, hc]
  | d :: front => by
    have hrest := pieces_append_cons hc back front
    rw [List.cons_append, pieces, pieces]
    cases hd : p d with
    | true => simp [hrest]
    | false =>
      cases hpieces : pieces p front with
      | nil => exact absurd hpieces (pieces_ne_nil p front)
      | cons piece more => simp [hrest, hpieces]

/-- The lines up to a line feed and those behind it are the lines of the text. -/
theorem lines_append_cons (front back : List Char) :
    lines (front ++ '\n' :: back) = lines (front ++ ['\n']) ++ lines back := by
  have hback := pieces_ne_nil (fun c => decide (c = '\n')) back
  have hlast := List.getLast?_eq_some_getLast hback
  simp [lines, pieces_append_cons, List.dropLast_append_of_ne_nil hback, List.getLast?_append,
    hlast, pieces]

/-- The lines of a text that was put together from lines. Each of these counts as a text of its
own, so that nothing is asked of it. -/
theorem lines_ofLines (texts : List String) :
    lines (ofLines texts).toList = texts.flatMap fun line => lines (line.toList ++ ['\n']) := by
  induction texts with
  | nil => rfl
  | cons line rest ih =>
    have hfeed : "\n".toList = ['\n'] := by decide
    rw [ofLines_cons, String.toList_append, String.toList_append, hfeed, List.append_assoc,
      List.singleton_append, lines_append_cons, ih, List.flatMap_cons]

example : lines "a\r\n\nb\r".toList = ["a".toList, [], "b\r".toList] := by decide
example : fields " 0xA1\t 0x0141 ".toList = ["0xA1".toList, "0x0141".toList] := by decide

end Marc8.Text
