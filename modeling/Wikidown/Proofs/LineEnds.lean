/-
# Wikidown.Proofs.LineEnds -- the spaces at the ends of lines

A line break is written with exactly two spaces in front of it, but the text of a span is
written apart and then put on the draft: where the draft ends with a space, the spaces at the
start of that text are dropped, those of a line break among them.

A paragraph of text, line breaks and spans is read stroke by stroke (`Phrase.strokes`), and
what its lines end with follows from that alone: `Line.next` is the step of the reader, and
`Line.cut` tells with how many spaces a break ends the line.  A draft, read character by
character (`Line.write`), tells the same.  `Tells` is the invariant, each way to write on a
draft keeps it, and by induction so do phrases (`tells_phrases`).  So the lines of a paragraph
of phrases end as the reader says (`endSpaces_phraseLine`).
-/
import Wikidown.Proofs.Paragraphs
import Wikidown.Proofs.StruckText

namespace Wikidown.Markdown

set_option autoImplicit false

open Document (Node Forest Emphasis)
open Text (EndsVisibly)

/-! ## Phrases and their strokes -/

/-- Text, line breaks and spans of phrases. -/
inductive Phrase where
  | text (content : Text)
  | lineBreak
  | emphasis (kind : Emphasis) (inner : List Phrase)

/-- What a reader of a phrase meets, one after the other. -/
inductive Stroke where
  | visible
  | space
  | lineBreak
  /-- A span begins. -/
  | begins
  /-- A span ends. -/
  | ends
  deriving DecidableEq

/-- A character of text as a stroke; a line feed in text is white space like any other. -/
def Stroke.ofChar (c : Char) : Stroke := if isSpace c then .space else .visible

mutual

/-- The node of a phrase. -/
def Phrase.node : Phrase → Node
  | .text content => .text content
  | .lineBreak => .lineBreak
  | .emphasis kind inner => .emphasis kind (phraseNodes inner)

/-- The nodes of phrases. -/
def phraseNodes : List Phrase → Forest
  | [] => []
  | phrase :: phrases => phrase.node :: phraseNodes phrases

end

mutual

/-- The strokes of a phrase. -/
def Phrase.strokes : Phrase → List Stroke
  | .text content => content.map Stroke.ofChar
  | .lineBreak => [.lineBreak]
  | .emphasis _ inner => .begins :: (phraseStrokes inner ++ [.ends])

/-- The strokes of phrases. -/
def phraseStrokes : List Phrase → List Stroke
  | [] => []
  | phrase :: phrases => phrase.strokes ++ phraseStrokes phrases

end

/-- The paragraph of phrases. -/
def phraseLine (phrases : List Phrase) : Forest := [.paragraph (phraseNodes phrases)]

/-! ## Lines while they are read -/

/-- What is known of the end of a line. -/
inductive Line where
  /-- Nothing visible is in the line yet. -/
  | blank
  /-- The line shows something, and that many spaces stand behind it. -/
  | shown (spaces : Nat)
  /-- The line shows something with a space behind it, and `deeper + 1` spans have begun since
  then and not ended. -/
  | folded (deeper : Nat)
  deriving DecidableEq

namespace Line

/-- The line behind a stroke. -/
def next : Line → Stroke → Line
  | _, .visible => .shown 0
  | _, .lineBreak => .blank
  | .shown _, .space => .shown 1
  | .shown (_ + 1), .begins => .folded 0
  | .folded deeper, .begins => .folded (deeper + 1)
  | .folded 0, .ends => .shown 1
  | .folded (deeper + 1), .ends => .folded deeper
  | line, _ => line

/-- With how many spaces a break ends the line, if the line shows something. -/
def cut : Line → List Nat
  | .blank => []
  | .shown _ => [2]
  | .folded _ => [1]

/-- With how many spaces the breaks end the lines, when strokes go on behind a line. -/
def cuts (line : Line) : List Stroke → List Nat
  | [] => []
  | stroke :: strokes =>
      (if stroke = .lineBreak then line.cut else []) ++ (line.next stroke).cuts strokes

/-- The line with one more space behind what it shows. -/
def widen : Line → Line
  | .shown spaces => .shown (spaces + 1)
  | line => line

/-- The line behind a character that is written. -/
def write (line : Line) (c : Char) : Line :=
  if c = '\n' then .blank else if isSpace c then line.widen else .shown 0

/-- With how many spaces a line feed leaves the line, if it shows something.  Only one of the
spaces in front of a folded line feed has been written. -/
def left : Line → List Nat
  | .blank => []
  | .shown spaces => [spaces]
  | .folded _ => [1]

/-- With how many spaces the line feeds of a text leave its lines. -/
def feeds (line : Line) : Text → List Nat
  | [] => []
  | c :: rest => (if c = '\n' then line.left else []) ++ (line.write c).feeds rest

end Line

/-- The visible lines of phrases but the last, each by the number of spaces at its end. -/
def lineEnds (phrases : List Phrase) : List Nat :=
  let strokes := phraseStrokes phrases
  (Line.blank.cuts strokes ++ (strokes.foldl Line.next .blank).cut).dropLast

/-! ## Marks line by line -/

theorem wrap_of_notMem {opening closing l : Text} (noFeed : '\n' ∉ l) :
    wrap opening closing l = wrapLine opening closing l := by
  rw [wrap_eq_wrapLines, wrapLines_of_notMem noFeed]

theorem wrap_line_append {opening closing l : Text} (noFeed : '\n' ∉ l) (t : Text) :
    wrap opening closing (l ++ '\n' :: t) =
      wrapLine opening closing l ++ '\n' :: wrap opening closing t := by
  rw [wrap_eq_wrapLines, wrap_eq_wrapLines, wrapLines_line_append noFeed]

/-! ## Reading piece by piece -/

namespace Line

theorem cuts_append (line : Line) (a b : List Stroke) :
    line.cuts (a ++ b) = line.cuts a ++ (a.foldl next line).cuts b := by
  induction a generalizing line with
  | nil => rfl
  | cons s a ih => simp [cuts, ih]

theorem feeds_append (line : Line) (a b : Text) :
    line.feeds (a ++ b) = line.feeds a ++ (a.foldl write line).feeds b := by
  induction a generalizing line with
  | nil => rfl
  | cons c a ih => simp [feeds, ih]

theorem feeds_of_notMem (line : Line) {t : Text} (h : '\n' ∉ t) : line.feeds t = [] := by
  induction t generalizing line with
  | nil => rfl
  | cons c t ih =>
      rw [List.mem_cons, not_or] at h
      rw [feeds, if_neg (Ne.symm h.1), ih _ h.2]
      rfl

theorem cuts_text (line : Line) (t : Text) : line.cuts (t.map Stroke.ofChar) = [] := by
  induction t generalizing line with
  | nil => rfl
  | cons c t ih =>
      have noBreak : Stroke.ofChar c ≠ .lineBreak := by
        unfold Stroke.ofChar
        split <;> simp
      rw [List.map_cons, cuts, if_neg noBreak, ih]
      rfl

theorem write_visible (line : Line) {c : Char} (visible : isSpace c = false) :
    line.write c = .shown 0 := by
  have noFeed : c ≠ '\n' := by
    rintro rfl
    cases visible
  rw [write, if_neg noFeed, if_neg (by simp [visible])]

@[simp] theorem write_feed (line : Line) : line.write '\n' = .blank := rfl

/-- Spaces behind something visible are counted. -/
theorem foldl_write_spaces {t : Text} (space : ∀ c ∈ t, isSpace c = true) (noFeed : '\n' ∉ t)
    (spaces : Nat) : t.foldl write (.shown spaces) = .shown (spaces + t.length) := by
  induction t generalizing spaces with
  | nil => rfl
  | cons c t ih =>
      rw [List.mem_cons, not_or] at noFeed
      have here : write (.shown spaces) c = .shown (spaces + 1) := by
        rw [write, if_neg (Ne.symm noFeed.1), if_pos (space c List.mem_cons_self), widen]
      rw [List.foldl_cons, here, ih (fun d hd => space d (List.mem_cons_of_mem _ hd)) noFeed.2,
        List.length_cons]
      congr 1
      omega

theorem foldl_write_of_endsVisibly (line : Line) {t : Text} (h : EndsVisibly t) :
    t.foldl write line = .shown 0 := by
  obtain ⟨front, c, rfl, visible⟩ := h
  rw [List.foldl_append, List.foldl_cons, List.foldl_nil, write_visible _ visible]

/-- White space at the end of a line is counted behind what shows. -/
theorem foldl_write_takeEndWhile {l : Text} (noFeed : '\n' ∉ l) :
    (Text.takeEndWhile isSpace l).foldl write (.shown 0) = .shown (Text.endSpaces l) := by
  have here : '\n' ∉ Text.takeEndWhile isSpace l := fun mem =>
    noFeed (Text.mem_of_mem_takeEndWhile mem)
  have space : ∀ c ∈ Text.takeEndWhile isSpace l, isSpace c = true := fun _ mem =>
    Text.isSpace_of_mem_takeEndWhile mem
  rw [foldl_write_spaces space here, Nat.zero_add, Text.endSpaces]

/-- Behind text, only the white space at its end counts. -/
theorem foldl_write_of_text (line : Line) {l : Text} (text : Text.isBlank l = false)
    (noFeed : '\n' ∉ l) : l.foldl write line = .shown (Text.endSpaces l) :=
  have shown := foldl_write_of_endsVisibly line (Text.endsVisibly_trimEnd text)
  calc l.foldl write line
    _ = (Text.trimEnd l ++ Text.takeEndWhile isSpace l).foldl write line := by
        rw [Text.trimEnd, Text.dropEndWhile_append_takeEndWhile]
    _ = (Text.takeEndWhile isSpace l).foldl write (.shown 0) := by rw [List.foldl_append, shown]
    _ = .shown (Text.endSpaces l) := foldl_write_takeEndWhile noFeed

/-! ## Marks -/

/-- Marks around a line do not change what it ends with. -/
theorem foldl_write_wrapLine (line : Line) {opening closing l : Text} (shown : EndsVisibly closing)
    (noFeed : '\n' ∉ l) :
    (wrapLine opening closing l).foldl write line = l.foldl write line := by
  cases text : Text.isBlank l with
  | true => rw [wrapLine, if_pos text]
  | false =>
      have front := foldl_write_of_endsVisibly line
        (shown.append (l.takeWhile isSpace ++ opening ++ Text.trim l))
      rw [wrapLine, if_neg (by simp [text]), List.foldl_append, front,
        foldl_write_takeEndWhile noFeed, foldl_write_of_text line text noFeed]

/-- Nor do they change what the lines of a text end with. -/
theorem write_wrap (line : Line) {opening closing : Text} (shown : EndsVisibly closing)
    (unbroken : '\n' ∉ opening ++ closing) (t : Text) :
    (wrap opening closing t).foldl write line = t.foldl write line ∧
      line.feeds (wrap opening closing t) = line.feeds t := by
  rw [List.mem_append, not_or] at unbroken
  have marked : ∀ l, '\n' ∉ l → '\n' ∉ wrapLine opening closing l := fun l noFeed mem =>
    (mem_wrapLine mem).elim noFeed fun marks => marks.elim unbroken.1 unbroken.2
  induction t using Text.induction_lines generalizing line with
  | last l noFeed =>
      rw [wrap_of_notMem noFeed, foldl_write_wrapLine line shown noFeed,
        feeds_of_notMem line (marked l noFeed), feeds_of_notMem line noFeed]
      exact ⟨rfl, rfl⟩
  | more l t noFeed ih =>
      obtain ⟨state, feeds⟩ := ih .blank
      rw [wrap_line_append noFeed]
      constructor
      · simp only [List.foldl_append, List.foldl_cons, write_feed, state]
      · simp only [feeds_append, Line.feeds, write_feed, feeds,
          foldl_write_wrapLine line shown noFeed, feeds_of_notMem line (marked l noFeed), feeds_of_notMem line noFeed]

/-! ## Texts that are put on a draft -/

/-- The line as a reader outside a span sees it when the span ends.  What is written in the
span tells it the same as a reader inside, unless it starts with a space that is dropped. -/
theorem write_outside {inside : Line} {t : Text}
    (plain : ∀ c ∈ t, isSpace c = true → c = ' ' ∨ c = '\n')
    (dropped : inside = .folded 0 → t.head? ≠ some ' ') :
    t.foldl write (inside.next .ends) = (t.foldl write inside).next .ends ∧
      (inside.next .ends).feeds t = inside.feeds t := by
  induction t generalizing inside with
  | nil => exact ⟨rfl, rfl⟩
  | cons c t ih =>
      have left : (inside.next .ends).left = inside.left := by
        rcases inside with _ | _ | (_ | _) <;> rfl
      have here : (inside.next .ends).write c = (inside.write c).next .ends ∧
          inside.write c ≠ .folded 0 := by
        cases space : isSpace c with
        | false => simp [write_visible _ space, next]
        | true =>
            rcases plain c List.mem_cons_self space with rfl | rfl
            · rcases inside with _ | _ | (_ | _)
              · simp [write, space, widen, next]
              · simp [write, space, widen, next]
              · exact absurd rfl (dropped rfl)
              · simp [write, space, widen, next]
            · simp [next]
      have later := ih (fun d hd => plain d (List.mem_cons_of_mem _ hd))
        fun folded => absurd folded here.2
      rw [List.foldl_cons, List.foldl_cons, feeds, feeds, here.1, left]
      exact ⟨later.1, by rw [later.2]⟩

/-- Spaces that a line does not count can be dropped. -/
theorem write_dropWhile {line : Line} (uncounted : line.write ' ' = line) (t : Text) :
    (t.dropWhile (· == ' ')).foldl write line = t.foldl write line ∧
      line.feeds (t.dropWhile (· == ' ')) = line.feeds t := by
  induction t with
  | nil => exact ⟨rfl, rfl⟩
  | cons c t ih =>
      by_cases space : c = ' '
      · subst space
        rw [List.dropWhile_cons, if_pos (by rfl), List.foldl_cons, feeds, if_neg (by decide),
          uncounted]
        exact ih
      · rw [List.dropWhile_cons, if_neg (by simpa using space)]
        exact ⟨rfl, rfl⟩

/-- The line behind what begins a span, seen from outside again. -/
theorem next_begins_ends {line : Line} (tight : ∀ n, line ≠ .shown (n + 2)) :
    (line.next .begins).next .ends = line := by
  rcases line with _ | (_ | _ | n) | _
  · rfl
  · rfl
  · rfl
  · exact absurd rfl (tight n)
  · rfl

end Line

theorem marks_visible (kind : Emphasis) (out : Draft) :
    marks kind out ≠ [] ∧ ∀ c ∈ marks kind out, isSpace c = false := by
  have each : marks kind out ≠ [] ∧ (marks kind out).all (!isSpace ·) = true := by
    unfold marks
    split <;> exact ⟨by simp, rfl⟩
  refine ⟨each.1, fun c hc => ?_⟩
  simpa using List.all_eq_true.1 each.2 c hc

/-- White space between marks is white space of the text. -/
theorem plain_wrap {opening closing t : Text} (marks : ∀ c ∈ opening ++ closing, isSpace c = false)
    (plain : ∀ c ∈ t, isSpace c = true → c = ' ' ∨ c = '\n') :
    ∀ c ∈ wrap opening closing t, isSpace c = true → c = ' ' ∨ c = '\n' := by
  intro c hc space
  rw [wrap_eq_wrapLines] at hc
  rcases Text.mem_intercalate hc with feed | ⟨marked, mem, inLine⟩
  · exact .inr (List.mem_singleton.1 feed)
  · obtain ⟨l, segment, rfl⟩ := List.mem_map.1 mem
    rcases mem_wrapLine inLine with inText | mark
    · exact plain c (Text.mem_of_mem_segments segment c inText).1 space
    · rw [marks c (List.mem_append.2 mark)] at space
      cases space

/-! ## Drafts -/

/-- What a draft tells whose text goes on in a line `start`: the line behind it, and what the
line breaks in it left. -/
structure Tells (start : Line) (out : Draft) (line : Line) (ended : List Nat) : Prop where
  state : out.text.foldl Line.write start = line
  lines : start.feeds out.text = ended
  /-- Other white space is never written. -/
  plain : ∀ c ∈ out, isSpace c = true → c = ' ' ∨ c = '\n'
  /-- No space is written behind a space. -/
  tight : ∀ n, line ≠ .shown (n + 2)
  /-- Spaces in front of the draft would have gone into it. -/
  bare : ∀ n, start ≠ .shown (n + 1)

namespace Tells

variable {start line : Line} {out : Draft} {ended : List Nat}

theorem text_cons (c : Char) (out : Draft) : Draft.text (c :: out) = out.text ++ [c] := by
  simp [Draft.text]

theorem nil (tight : ∀ n, start ≠ .shown (n + 1)) : Tells start [] start [] :=
  ⟨rfl, rfl, by simp, fun n => tight (n + 1), tight⟩

theorem ne_shown (h : Tells start out line ended) (notSpaced : out.spaced = false) (n : Nat) :
    line ≠ .shown (n + 1) := by
  rintro rfl
  cases out with
  | nil => exact h.bare n h.state
  | cons c out =>
      have state := h.state
      rw [text_cons, List.foldl_append, List.foldl_cons, List.foldl_nil] at state
      cases space : isSpace c with
      | false =>
          rw [Line.write_visible _ space] at state
          cases state
      | true =>
          rcases h.plain c List.mem_cons_self space with rfl | rfl <;> cases notSpaced

theorem ne_shown_zero (h : Tells start out line ended) (spaced : out.spaced = true) :
    line ≠ .shown 0 := by
  rintro rfl
  cases out with
  | nil => cases spaced
  | cons c out =>
      have state := h.state
      rw [text_cons, List.foldl_append, List.foldl_cons, List.foldl_nil] at state
      unfold Draft.spaced at spaced
      split at spaced
      · next eq =>
        obtain ⟨rfl, rfl⟩ := List.cons.inj eq
        generalize List.foldl Line.write start (Draft.text out) = before at state
        cases before <;> cases state
      · next eq =>
        obtain ⟨rfl, rfl⟩ := List.cons.inj eq
        cases state
      · cases spaced

/-- A visible character is written. -/
theorem visible (h : Tells start out line ended) {c : Char} (visible : isSpace c = false) :
    Tells start (c :: out) (line.next .visible) ended := by
  refine ⟨?_, ?_, ?_, by simp [Line.next], h.bare⟩
  · rw [text_cons, List.foldl_append, List.foldl_cons, List.foldl_nil, Line.write_visible _ visible]
    rfl
  · have noFeed : '\n' ∉ [c] := by
      rw [List.mem_singleton]
      rintro rfl
      cases visible
    rw [text_cons, Line.feeds_append, Line.feeds_of_notMem _ noFeed, List.append_nil, h.lines]
  · intro d hd space
    rcases List.mem_cons.1 hd with rfl | hd
    · rw [visible] at space
      cases space
    · exact h.plain d hd space

/-- A space is written, unless white space stands there. -/
theorem space (h : Tells start out line ended) :
    Tells start (if out.spaced then out else ' ' :: out) (line.next .space) ended := by
  cases spaced : out.spaced with
  | true =>
      have same : line.next .space = line := by
        have notZero := h.ne_shown_zero spaced
        have tight := h.tight
        rcases line with _ | (_ | _ | n) | _
        · rfl
        · exact absurd rfl notZero
        · rfl
        · exact absurd rfl (tight n)
        · rfl
      rw [if_pos rfl, same]
      exact h
  | false =>
      have notShown := h.ne_shown spaced
      have step : line.write ' ' = line.next .space := by
        rcases line with _ | (_ | n) | _
        · rfl
        · rfl
        · exact absurd rfl (notShown n)
        · rfl
      refine ⟨?_, ?_, ?_, ?_, h.bare⟩
      · rw [if_neg (by simp), text_cons, List.foldl_append, h.state]
        exact step
      · rw [if_neg (by simp), text_cons, Line.feeds_append, h.lines]
        exact List.append_nil ended
      · rw [if_neg (by simp)]
        intro d hd space
        rcases List.mem_cons.1 hd with rfl | hd
        · exact .inl rfl
        · exact h.plain d hd space
      · rcases line with _ | _ | _ <;> simp [Line.next]

/-- Text goes on where the draft stands. -/
theorem join_collapse (h : Tells start out line ended) (t : Text) :
    Tells start (out.join (Text.collapse t)) ((t.map Stroke.ofChar).foldl Line.next line)
      ended := by
  refine @Draft.join_collapse_run
    (fun read out => Tells start out ((read.map Stroke.ofChar).foldl Line.next line) ended)
    ?_ ?_ [] out h t
  · intro read out c white told
    have step := told.visible white
    simpa [Stroke.ofChar, white] using step
  · intro read out c white told
    have step := told.space
    simpa [Stroke.ofChar, white] using step

/-- A break drops the spaces at the end of the draft and writes two of its own. -/
theorem breakLine (h : Tells start out line ended) :
    Tells start out.breakLine .blank (ended ++ line.cut) := by
  -- Without its spaces, the draft tells the line that it told with them, at its visible end.
  have bare : ((Draft.text (out.dropWhile (· == ' '))).foldl Line.write start).widen.widen.left =
        line.cut ∧ start.feeds (Draft.text (out.dropWhile (· == ' '))) = ended := by
    obtain ⟨rfl, rfl, plain, -, notShown⟩ := h
    induction out with
    | nil =>
        rcases start with _ | (_ | n) | _
        · exact ⟨rfl, rfl⟩
        · exact ⟨rfl, rfl⟩
        · exact absurd rfl (notShown n)
        · exact ⟨rfl, rfl⟩
    | cons c out ih =>
        have later := ih fun d hd => plain d (List.mem_cons_of_mem _ hd)
        rw [text_cons, List.foldl_append, List.foldl_cons, List.foldl_nil, Line.feeds_append]
        by_cases space : c = ' '
        · subst space
          rw [List.dropWhile_cons, if_pos (by rfl), later.1, later.2]
          generalize List.foldl Line.write start (Draft.text out) = before
          exact ⟨by cases before <;> rfl, (List.append_nil _).symm⟩
        · rw [List.dropWhile_cons, if_neg (by simpa using space), text_cons, List.foldl_append,
            List.foldl_cons, List.foldl_nil, Line.feeds_append]
          refine ⟨?_, rfl⟩
          cases visible : isSpace c with
          | false => rw [Line.write_visible _ visible]; rfl
          | true =>
              rcases plain c List.mem_cons_self visible with rfl | rfl
              · exact absurd rfl space
              · rfl
  have written : out.breakLine.text =
      Draft.text (out.dropWhile (· == ' ')) ++ [' ', ' ', '\n'] := by
    simp [Draft.breakLine, Draft.text]
  refine ⟨?_, ?_, ?_, by simp, h.bare⟩
  · rw [written, List.foldl_append]
    rfl
  · rw [written, Line.feeds_append, bare.2, ← bare.1]
    exact congrArg (ended ++ ·) (List.append_nil _)
  · intro c hc space
    simp only [Draft.breakLine, List.mem_cons] at hc
    rcases hc with rfl | rfl | rfl | hc
    · exact .inr rfl
    · exact .inl rfl
    · exact .inl rfl
    · exact h.plain c ((List.dropWhile_suffix _).subset hc) space

/-- The text of a span is put on the draft. -/
theorem join (h : Tells start out line ended) {t : Text} {inside : Line}
    (plain : ∀ c ∈ t, isSpace c = true → c = ' ' ∨ c = '\n')
    (state : t.foldl Line.write (line.next .begins) = inside)
    (tight : ∀ n, inside ≠ .shown (n + 2)) :
    Tells start (out.join t) (inside.next .ends) (ended ++ (line.next .begins).feeds t) := by
  subst state
  rw [Draft.join_eq]
  generalize eq : (if out.spaced then t.dropWhile (· == ' ') else t) = piece
  have inner : piece.foldl Line.write (line.next .begins) = t.foldl Line.write (line.next .begins) ∧
      (line.next .begins).feeds piece = (line.next .begins).feeds t ∧
      (line.next .begins = .folded 0 → piece.head? ≠ some ' ') ∧ piece <:+ t := by
    cases spaced : out.spaced with
    | true =>
        rw [spaced, if_pos rfl] at eq
        subst eq
        have notZero := h.ne_shown_zero spaced
        have uncounted : (line.next .begins).write ' ' = line.next .begins := by
          rcases line with _ | (_ | n) | _
          · rfl
          · exact absurd rfl notZero
          · rfl
          · rfl
        refine ⟨(Line.write_dropWhile uncounted t).1, (Line.write_dropWhile uncounted t).2, ?_,
          List.dropWhile_suffix _⟩
        intro _ starts
        have visible := List.head?_dropWhile_not (· == ' ') t
        rw [starts] at visible
        cases visible
    | false =>
        rw [spaced, if_neg (by simp)] at eq
        subst eq
        refine ⟨rfl, rfl, fun folded => ?_, List.suffix_refl _⟩
        have notShown := h.ne_shown spaced
        rcases line with _ | (_ | n) | _
        · cases folded
        · cases folded
        · exact absurd rfl (notShown n)
        · cases folded
  obtain ⟨same, fed, dropped, suffix⟩ := inner
  have outside := Line.write_outside (fun c hc => plain c (suffix.subset hc)) dropped
  rw [Line.next_begins_ends h.tight, same, fed] at outside
  refine ⟨?_, ?_, ?_, ?_, h.bare⟩
  · rw [Draft.text_put, List.foldl_append, h.state]
    exact outside.1
  · rw [Draft.text_put, Line.feeds_append, h.state, h.lines, outside.2]
  · intro c hc space
    rcases List.mem_append.1 hc with hc | hc
    · exact plain c (suffix.subset (List.mem_reverse.1 hc)) space
    · exact h.plain c hc space
  · intro n
    generalize t.foldl Line.write (line.next .begins) = inside at tight
    rcases inside with _ | _ | (_ | _)
    · simp [Line.next]
    · exact tight n
    · simp [Line.next]
    · simp [Line.next]

/-- A struck text that goes on: the tildes that it takes back are none of its line. -/
theorem emphasize_goesOn {before : Draft} (h : Tells start ('~' :: '~' :: before) line ended)
    {inner : Draft} {inside : Line} {broken : List Nat}
    (hi : Tells (line.next .begins) inner inside broken)
    (goesOn : continuesStrike inner.text = true) :
    Tells start (before.put (wrap [] "~~" inner.text)) (inside.next .ends) (ended ++ broken) := by
  have feed : '\n' ∉ inner.text ∧ Text.isBlank inner.text = false := by
    simp only [continuesStrike, Bool.and_eq_true, Bool.not_eq_true', List.contains_eq_mem,
      decide_eq_false_iff_not] at goesOn
    refine ⟨goesOn.1, ?_⟩
    cases eq : inner.text with
    | nil => simp [eq] at goesOn
    | cons c rest => simp_all [Text.isBlank]
  have shown : inside = .shown (Text.endSpaces inner.text) := by
    rw [← hi.state, Line.foldl_write_of_text _ feed.2 feed.1]
  have unbroken : broken = [] := by rw [← hi.lines, Line.feeds_of_notMem _ feed.1]
  have tildes : EndsVisibly "~~" := ⟨['~'], '~', rfl, by decide⟩
  have marked := fun before : Line =>
    @Line.write_wrap before [] "~~" tildes (by decide) inner.text
  have lines : start.feeds before.text = ended := by
    have all := h.lines
    rw [text_cons, text_cons, List.append_assoc, Line.feeds_append,
      Line.feeds_of_notMem _ (t := ['~'] ++ ['~']) (by decide), List.append_nil] at all
    exact all
  subst shown unbroken
  refine ⟨?_, ?_, ?_, ?_, h.bare⟩
  · rw [Draft.text_put, List.foldl_append, (marked _).1, Line.foldl_write_of_text _ feed.2 feed.1]
    rfl
  · rw [Draft.text_put, Line.feeds_append, (marked _).2, Line.feeds_of_notMem _ feed.1, lines]
  · intro c hc space
    rcases List.mem_append.1 hc with hc | hc
    · have struck := (marks_visible .strikethrough []).2
      exact plain_wrap struck (fun d hd => hi.plain d (List.mem_reverse.1 hd)) c
        (List.mem_reverse.1 hc) space
    · exact h.plain c (by simp [hc]) space
  · exact hi.tight

/-- A span is put on the draft. -/
theorem emphasize (h : Tells start out line ended) {inner : Draft} {inside : Line}
    {broken : List Nat} (hi : Tells (line.next .begins) inner inside broken)
    (kind : Emphasis) :
    Tells start (out.emphasize kind inner.text) (inside.next .ends) (ended ++ broken) := by
  by_cases goesOn : ∃ before, kind = .strikethrough ∧ out = '~' :: '~' :: before ∧
      continuesStrike inner.text = true
  · obtain ⟨before, rfl, rfl, continues⟩ := goesOn
    rw [Draft.emphasize_goesOn before continues]
    exact h.emphasize_goesOn hi continues
  · rw [Draft.emphasize_eq_join fun before struck ends continues =>
      goesOn ⟨before, struck, ends, continues⟩]
    obtain ⟨filled, visible⟩ := marks_visible kind out
    have shown : EndsVisibly (marks kind out) :=
      Text.endsVisibly_of_getLast? filled fun c last => visible c (List.mem_of_getLast? last)
    have both : ∀ c ∈ marks kind out ++ marks kind out, isSpace c = false := fun c hc =>
      (List.mem_append.1 hc).elim (visible c) (visible c)
    have unbroken : '\n' ∉ marks kind out ++ marks kind out := fun mem => nomatch both _ mem
    have plain : ∀ c ∈ inner.text, isSpace c = true → c = ' ' ∨ c = '\n' := fun c hc =>
      hi.plain c (List.mem_reverse.1 hc)
    have marked := (line.next .begins).write_wrap shown unbroken inner.text
    have joined := h.join (plain_wrap both plain) (marked.1.trans hi.state) hi.tight
    rwa [marked.2, hi.lines] at joined

end Tells

/-! ## Paragraphs of phrases -/

section

variable (language : Language)

mutual

/-- Each phrase does to the draft what its strokes do to the line. -/
theorem tells_phrase {start line : Line} {out : Draft} {ended : List Nat} :
    (phrase : Phrase) → Tells start out line ended →
      Tells start (writeNode language phrase.node out) (phrase.strokes.foldl Line.next line)
        (ended ++ line.cuts phrase.strokes)
  | .text content, h => by
      rw [Phrase.node, writeNode, Phrase.strokes, Line.cuts_text, List.append_nil]
      exact h.join_collapse content
  | .lineBreak, h => by
      have cuts : line.cuts [.lineBreak] = line.cut := List.append_nil _
      rw [Phrase.node, writeNode, Phrase.strokes, cuts]
      exact h.breakLine
  | .emphasis kind inner, h => by
      have bare : ∀ n, line.next .begins ≠ .shown (n + 1) := by
        intro n
        rcases line with _ | (_ | _) | _ <;> simp [Line.next]
      have within := tells_phrases inner (Tells.nil bare)
      have written := h.emphasize within kind
      have strokes : Line.cuts line (.begins :: (phraseStrokes inner ++ [.ends])) =
          (line.next .begins).cuts (phraseStrokes inner) := by
        rw [Line.cuts, if_neg (by simp), Line.cuts_append]
        exact List.append_nil _
      rw [Phrase.node, writeNode, Phrase.strokes, strokes, List.foldl_cons, List.foldl_append]
      exact written

/-- So do the phrases of a paragraph or a span. -/
theorem tells_phrases {start line : Line} {out : Draft} {ended : List Nat} :
    (phrases : List Phrase) → Tells start out line ended →
      Tells start (writeForest language (phraseNodes phrases) out)
        ((phraseStrokes phrases).foldl Line.next line) (ended ++ line.cuts (phraseStrokes phrases))
  | [], h => by
      rw [phraseNodes, writeForest, phraseStrokes, Line.cuts, List.append_nil]
      exact h
  | phrase :: phrases, h => by
      have later := tells_phrases phrases (tells_phrase phrase h)
      rw [phraseNodes, writeForest, phraseStrokes, List.foldl_append, Line.cuts_append,
        ← List.append_assoc]
      exact later

end

theorem runsInline_phrase (phrase : Phrase) : RunsInline language phrase.node := by
  cases phrase <;> exact fun _ => rfl

theorem runsInline_phrases {phrases : List Phrase} :
    ∀ n ∈ phraseNodes phrases, RunsInline language n := by
  induction phrases with
  | nil => exact nofun
  | cons phrase phrases ih => exact List.forall_mem_cons.2 ⟨runsInline_phrase language phrase, ih⟩

theorem tells_inlineText (phrases : List Phrase) :
    Tells .blank (writeForest language (phraseNodes phrases) [])
      ((phraseStrokes phrases).foldl Line.next .blank) (Line.blank.cuts (phraseStrokes phrases)) :=
  tells_phrases language phrases (Tells.nil (by simp))

theorem noReturn_phrases (phrases : List Phrase) :
    '\r' ∉ inlineText language (phraseNodes phrases) := by
  intro mem
  rcases (tells_inlineText language phrases).plain _ (List.mem_reverse.1 mem) (by decide) with h | h
  · cases h
  · cases h

/-- What a line without line feeds leaves. -/
theorem left_line {l : Text} (noFeed : '\n' ∉ l) :
    (l.foldl Line.write .blank).left = if Text.isBlank l then [] else [Text.endSpaces l] := by
  cases text : Text.isBlank l with
  | false =>
      rw [Line.foldl_write_of_text _ text noFeed]
      rfl
  | true =>
      have stays : l.foldl Line.write .blank = .blank := by
        induction l with
        | nil => rfl
        | cons c l ih =>
            rw [List.mem_cons, not_or] at noFeed
            simp only [Text.isBlank, List.all_cons, Bool.and_eq_true] at text
            rw [List.foldl_cons, Line.write, if_neg (Ne.symm noFeed.1), if_pos text.1]
            exact ih noFeed.2 text.2
      rw [stays]
      rfl

/-- What a draft tells is what its lines of text end with. -/
theorem lineEndSpaces_eq (t : Text) :
    Text.lineEndSpaces t = Line.blank.feeds t ++ (t.foldl Line.write .blank).left := by
  induction t using Text.induction_lines with
  | last l noFeed =>
      rw [Text.lineEndSpaces, Page.textLines, Text.segments_of_notMem noFeed,
        Line.feeds_of_notMem _ noFeed, left_line noFeed]
      cases text : Text.isBlank l <;> simp [text]
  | more l t noFeed ih =>
      rw [Text.lineEndSpaces, Page.textLines] at ih ⊢
      simp only [Text.segments_line_append noFeed, List.foldl_append, List.foldl_cons,
        Line.feeds_append, Line.feeds, Line.write_feed, Line.feeds_of_notMem _ noFeed,
        left_line noFeed, if_true, List.nil_append, List.append_assoc, ← ih]
      cases text : Text.isBlank l <;> simp [text]

/-- The lines of text of a paragraph of phrases but the last, by the spaces at their ends. -/
theorem endSpaces_phraseLine (phrases : List Phrase) :
    ((Page.textLines (render language (phraseLine phrases))).map Text.endSpaces).dropLast =
        lineEnds phrases ∧
      ∀ l ∈ Page.textLines (render language (phraseLine phrases)),
        ∀ c ∈ l, isSpace c = true → c = ' ' := by
  have told := tells_inlineText language phrases
  have lines :=
    textLines_paragraph (runsInline_phrases language) (noReturn_phrases language phrases)
  rw [phraseLine, lines, inlineText]
  generalize writeForest language (phraseNodes phrases) [] = out at told
  constructor
  · have kept : ((Page.textLines (Text.trim out.text)).map escapeFenceOpener).map Text.endSpaces =
        Text.lineEndSpaces (Text.trim out.text) := by
      rw [List.map_map, Text.lineEndSpaces]
      refine List.map_congr_left fun l mem => endSpaces_escapeFenceOpener ?_
      simpa using (List.mem_filter.1 mem).2
    have final : ∀ line : Line, (Line.blank.cuts (phraseStrokes phrases) ++ line.left).dropLast =
        (Line.blank.cuts (phraseStrokes phrases) ++ line.cut).dropLast := by
      intro line
      cases line <;> simp [Line.left, Line.cut]
    rw [kept, Text.endSpaces_trim, lineEndSpaces_eq, told.state, told.lines, final,
      lineEnds]
  · intro l mem c hc space
    obtain ⟨m, textLine, rfl⟩ := List.mem_map.1 mem
    rcases mem_escapeFenceOpener hc with inLine | rfl
    · obtain ⟨inTrim, noFeed⟩ :=
        Text.mem_of_mem_segments (List.mem_filter.1 textLine).1 c inLine
      have inText := List.mem_reverse.1 ((Text.isInfix_trim _).subset inTrim)
      exact (told.plain c inText space).resolve_right noFeed
    · cases space

end

end Wikidown.Markdown
