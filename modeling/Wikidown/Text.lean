/-
# Wikidown.Text -- text, white space and lines

Everything that the library reads or writes is a `Text`, a list of characters, so
that a scan is a recursion on its data.  This module holds the vocabulary that
every later module speaks: which characters are white space (`isSpace`), cutting
white space off the ends (`trim`), folding a run of it to one space (`collapse`),
lower-casing names (`lower`), and two ways to cut a text at its line feeds:

* `segments` cuts at every line feed and loses nothing (`joinLines_segments`);
* `lines` is a reader's view: a final line feed ends the last line instead of
  starting an empty one, and a carriage return before a line feed belongs to it.
-/

namespace Wikidown

set_option autoImplicit false

/-- A text: the list of its characters. -/
abbrev Text := List Char

instance : Coe String Text := ⟨String.toList⟩

/-- White space is the Unicode property White_Space. -/
def isSpace (c : Char) : Bool :=
  let n := c.toNat
  (0x9 ≤ n && n ≤ 0xD) || n == 0x20 || n == 0x85 || n == 0xA0 || n == 0x1680
    || (0x2000 ≤ n && n ≤ 0x200A) || n == 0x2028 || n == 0x2029 || n == 0x202F
    || n == 0x205F || n == 0x3000

/-- The lower-case form of an ASCII capital; every other character stands for itself. -/
def lowerChar (c : Char) : Char :=
  if 'A' ≤ c && c ≤ 'Z' then Char.ofNat (c.toNat + 32) else c

/-- A character whose small form is another one is a capital. -/
theorem lowerChar_eq_or (c : Char) : lowerChar c = c ∨ ('A' ≤ c ∧ c ≤ 'Z') := by
  unfold lowerChar
  split
  · next capital => exact .inr (by simpa using capital)
  · exact .inl rfl

/-- Only a letter is the small form of another character. -/
theorem lowerChar_eq_iff {c d : Char} (mark : d.isAlpha = false) : lowerChar c = d ↔ c = d := by
  rcases lowerChar_eq_or c with same | ⟨low, high⟩
  · rw [same]
  · have letters : ∀ n < 91, 65 ≤ n →
        (Char.ofNat n).isAlpha = true ∧ (lowerChar (Char.ofNat n)).isAlpha = true := by decide
    have both := letters c.toNat (Nat.lt_succ_of_le high) low
    rw [Char.ofNat_toNat] at both
    exact iff_of_false (fun same => by simp [← same, both.2] at mark)
      (fun same => by simp [← same, both.1] at mark)

theorem length_dropWhile_le (p : Char → Bool) (t : Text) :
    (t.dropWhile p).length ≤ t.length :=
  (List.dropWhile_suffix p).length_le

namespace Text

/-! ## White space at the ends and inside -/

/-- A text is blank when it holds nothing but white space. -/
def isBlank (t : Text) : Bool := t.all isSpace

/-- The text without the white space at its start. -/
def trimStart (t : Text) : Text := t.dropWhile isSpace

/-- The characters at the end of the text that satisfy `p`. -/
def takeEndWhile (p : Char → Bool) (t : Text) : Text := (t.reverse.takeWhile p).reverse

/-- The text without the characters at its end that satisfy `p`. -/
def dropEndWhile (p : Char → Bool) (t : Text) : Text := (t.reverse.dropWhile p).reverse

/-- The text without the white space at its end. -/
def trimEnd (t : Text) : Text := dropEndWhile isSpace t

/-- The text without the white space at either end. -/
def trim (t : Text) : Text := trimEnd (trimStart t)

/-- `collapse`, where `within` says that the text continues a run of white space. -/
def collapseFrom (within : Bool) : Text → Text
  | [] => []
  | c :: rest =>
      if isSpace c then
        if within then collapseFrom true rest else ' ' :: collapseFrom true rest
      else c :: collapseFrom false rest

/-- Every run of white space becomes one space. -/
def collapse (t : Text) : Text := collapseFrom false t

/-! ## Length, letter case and starts -/

/-- The length of a text in UTF-8. -/
def byteLength : Text → Nat
  | [] => 0
  | c :: rest => c.utf8Size + byteLength rest

/-- ASCII capitals become small letters. -/
def lower (t : Text) : Text := t.map lowerChar

/-- A text that starts with a given one, less that start. -/
def dropStart? : (start t : Text) → Option Text
  | [], t => some t
  | _ :: _, [] => none
  | s :: start, c :: t => if s = c then dropStart? start t else none

/-- Whether a text starts with a given one. -/
def startsWith (start t : Text) : Bool := start.isPrefixOf t

/-- The part of a text before the first occurrence of `mark`, and the part after it. -/
def cut? (mark : Text) : Text → Option (Text × Text)
  | [] => if mark.isEmpty then some ([], []) else none
  | c :: rest =>
      match dropStart? mark (c :: rest) with
      | some after => some ([], after)
      | none => (cut? mark rest).map fun (before, after) => (c :: before, after)

/-! ## Lines -/

/-- The parts between line feeds; there is one more of them than line feeds. -/
def segments (t : Text) : List Text := t.splitOn '\n'

/-- The given lines, with a line feed between each two. -/
def joinLines (ls : List Text) : Text := List.intercalate ['\n'] ls

theorem joinLines_segments (t : Text) : joinLines (segments t) = t :=
  List.intercalate_splitOn '\n'

/-- A line less the carriage return at its end. -/
def dropReturn (line : Text) : Text :=
  match line.reverse with
  | '\r' :: before => before.reverse
  | _ => line

/-- The lines of a text that was cut at its line feeds: all but the last part were ended
by a line feed, and the last is a line only if it holds a character. -/
def linesOfSegments : List Text → List Text
  | [] => []
  | [last] => if last.isEmpty then [] else [last]
  | line :: rest => dropReturn line :: linesOfSegments rest

/-- The lines of a text, each without its line ending. -/
def lines (t : Text) : List Text := linesOfSegments (segments t)

end Text

end Wikidown
