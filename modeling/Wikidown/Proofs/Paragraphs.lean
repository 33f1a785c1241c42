/-
# Wikidown.Proofs.Paragraphs -- the lines of a paragraph

A paragraph of inline nodes is the text that these write, trimmed, with a backslash before a
line that would open a fence.  On a page of its own it keeps its lines of text, unless there
are carriage returns (`textLines_paragraph`).  Trimming takes blank lines off the ends, and
white space off the start of the first line of text and the end of the last one: so where the
lines of text end stays as it was, but for the last (`endSpaces_trim`).
-/
import Wikidown.Proofs.ContentLines
import Wikidown.Proofs.Edges

namespace Wikidown

set_option autoImplicit false

namespace Text

/-! ## Ends of texts -/

theorem endsVisibly_trimEnd {t : Text} (text : isBlank t = false) : EndsVisibly (trimEnd t) := by
  refine endsVisibly_of_getLast? ?_ fun c last => ?_
  · intro none
    rw [← isBlank_trimEnd, none] at text
    cases text
  · have first : (t.reverse.dropWhile isSpace).head? = some c := by
      simpa [trimEnd, dropEndWhile] using last
    have visible := List.head?_dropWhile_not isSpace t.reverse
    rw [first] at visible
    exact visible

/-- The number of characters of white space at the end. -/
def endSpaces (t : Text) : Nat := (takeEndWhile isSpace t).length

theorem endSpaces_append (front : Text) {t : Text} (text : isBlank t = false) :
    endSpaces (front ++ t) = endSpaces t := congrArg List.length (takeEndWhile_append front text)

/-! ## Lines of text -/

/-- The lines of a text and its segments differ in blank ones only, without carriage
returns. -/
theorem filter_text_lines {t : Text} (plain : '\r' ∉ t) :
    (lines t).filter (!isBlank ·) = (segments t).filter (!isBlank ·) := by
  obtain ⟨ls, last, cut, -⟩ := exists_terminated t
  have ends : ∀ l ∈ ls, l.getLast? ≠ some '\r' := fun l mem at_ => by
    have inLine : '\r' ∈ l := List.mem_of_getLast? at_
    exact plain (mem_of_mem_segments (cut ▸ List.mem_append_left _ mem) _ inLine).1
  rw [lines, cut, linesOfSegments_append ls (by simp), map_dropReturn_of_plain ends,
    List.filter_append, List.filter_append, linesOfSegments]
  cases last <;> rfl

/-- The lines of text, each by the white space at its end. -/
def lineEndSpaces (t : Text) : List Nat := (Page.textLines t).map endSpaces

theorem lineEndSpaces_cons_space {c : Char} (space : isSpace c = true) (t : Text) :
    lineEndSpaces (c :: t) = lineEndSpaces t := by
  rw [lineEndSpaces, lineEndSpaces, Page.textLines, Page.textLines, segments_cons]
  split
  · rfl
  · cases cut : segments t with
    | nil => exact absurd cut (segments_ne_nil t)
    | cons l ls =>
        have blank : isBlank (c :: l) = isBlank l := by simp [isBlank, space]
        rw [List.modifyHead_cons, List.filter_cons, List.filter_cons, blank]
        cases text : isBlank l with
        | true => rfl
        | false =>
            have same : endSpaces (c :: l) = endSpaces l := endSpaces_append [c] text
            simp [same]

theorem dropLast_lineEndSpaces_concat_space {c : Char} (space : isSpace c = true) (t : Text) :
    (lineEndSpaces (t ++ [c])).dropLast = (lineEndSpaces t).dropLast := by
  obtain ⟨ls, last, cut, -⟩ := exists_terminated t
  rw [lineEndSpaces, lineEndSpaces, Page.textLines, Page.textLines, segments_concat cut, cut]
  split
  · have both : ls ++ [last, []] = (ls ++ [last]) ++ [[]] := by simp
    rw [both, List.filter_append (ls ++ [last])]
    simp [isBlank]
  · have blank : isBlank (last ++ [c]) = isBlank last := by simp [isBlank, space]
    cases text : isBlank last with
    | true => simp [List.filter_append, blank, text]
    | false => simp [List.filter_append, blank, text]

theorem lineEndSpaces_trimStart (t : Text) : lineEndSpaces (trimStart t) = lineEndSpaces t := by
  induction t with
  | nil => rfl
  | cons c t ih =>
      cases space : isSpace c with
      | true =>
          rw [trimStart, List.dropWhile_cons, if_pos space, lineEndSpaces_cons_space space]
          exact ih
      | false => rw [trimStart, List.dropWhile_cons, if_neg (by simp [space])]

theorem dropLast_lineEndSpaces_trimEnd (t : Text) :
    (lineEndSpaces (trimEnd t)).dropLast = (lineEndSpaces t).dropLast := by
  obtain ⟨r, rfl⟩ : ∃ r : Text, t = r.reverse := ⟨t.reverse, by simp⟩
  induction r with
  | nil => rfl
  | cons c r ih =>
      cases space : isSpace c with
      | true =>
          have dropped : trimEnd (c :: r).reverse = trimEnd r.reverse := by
            simp [trimEnd, dropEndWhile, space]
          rw [dropped, ih, List.reverse_cons, dropLast_lineEndSpaces_concat_space space]
      | false =>
          have kept : trimEnd (c :: r).reverse = (c :: r).reverse := by
            simp [trimEnd, dropEndWhile, space]
          rw [kept]

/-- Trimming does not change what a line of text ends with, unless it is the last one. -/
theorem endSpaces_trim (t : Text) :
    (lineEndSpaces (trim t)).dropLast = (lineEndSpaces t).dropLast := by
  rw [trim, dropLast_lineEndSpaces_trimEnd, lineEndSpaces_trimStart]

end Text

namespace Markdown

open Document (Node Forest)

/-! ## Paragraphs of inline nodes -/

/-- Whether a node runs along in a line. -/
def RunsInline (language : Language) (n : Node) : Prop :=
  ∀ f : Flow, layNode language n f = { f with draft := writeNode language n f.draft }

theorem layForest_inline {language : Language} {ns : Forest}
    (inline : ∀ n ∈ ns, RunsInline language n) (f : Flow) :
    layForest language ns f = { f with draft := writeForest language ns f.draft } := by
  induction ns generalizing f with
  | nil => rfl
  | cons n ns ih =>
      rw [layForest, inline n List.mem_cons_self,
        ih fun m mem => inline m (List.mem_cons_of_mem _ mem)]
      rfl

/-- A paragraph of inline nodes is laid out as the text that they write. -/
theorem layForest_paragraph {language : Language} {cs : Forest}
    (inline : ∀ n ∈ cs, RunsInline language n) :
    layForest language [.paragraph cs] .start = Flow.close ⟨[], writeForest language cs []⟩ := by
  have written := layForest_inline inline .start
  simp only [layForest, layNode, Flow.start, Flow.close_nil] at written ⊢
  rw [written]

theorem pageText_singleton (part : Text) : Flow.pageText ⟨[part], []⟩ = part := by
  simp [Flow.pageText, Flow.texts, Flow.close_nil]

theorem isBlank_escapeFenceOpener_eq (line : Text) :
    Text.isBlank (escapeFenceOpener line) = Text.isBlank line := by
  cases text : Text.isBlank line with
  | false => exact isBlank_escapeFenceOpener text
  | true =>
      have unescaped : opensFence (Text.trimStart line) = false := by
        rw [Text.trimStart_of_isBlank text]
        rfl
      rw [escapeFenceOpener, if_neg (by simp [unescaped]), text]

/-- An escaped line ends as it did. -/
theorem endSpaces_escapeFenceOpener {line : Text} (text : Text.isBlank line = false) :
    Text.endSpaces (escapeFenceOpener line) = Text.endSpaces line := by
  have body : Text.isBlank (Text.trimStart line) = false := (Text.isBlank_trimStart line).trans text
  have whole : line.takeWhile isSpace ++ Text.trimStart line = line :=
    List.takeWhile_append_dropWhile
  have same := Text.endSpaces_append (line.takeWhile isSpace) body
  rw [whole] at same
  rw [escapeFenceOpener]
  split
  · have behind := Text.endSpaces_append (line.takeWhile isSpace ++ ['\\']) body
    rw [List.append_assoc] at behind
    exact behind.trans same.symm
  · rfl

/-- The lines of text of a paragraph on a page of its own. -/
theorem textLines_paragraph {language : Language} {cs : Forest}
    (inline : ∀ n ∈ cs, RunsInline language n) (plain : '\r' ∉ inlineText language cs) :
    Page.textLines (render language [.paragraph cs]) =
      (Page.textLines (Text.trim (inlineText language cs))).map escapeFenceOpener := by
  rw [render, Page.textLines, filter_text_tidy, layForest_paragraph inline, Flow.close,
    show Draft.text _ = inlineText language cs from rfl]
  by_cases empty : Text.trim (inlineText language cs) = []
  · rw [empty]
    rfl
  · have noReturn : ∀ c ∈ escapeFenceOpeners (Text.trim (inlineText language cs)), c ≠ '\r' := by
      rintro c mem rfl
      rcases Text.mem_intercalate mem with feed | ⟨l, escaped, inLine⟩
      · simp at feed
      · obtain ⟨l, segment, rfl⟩ := List.mem_map.1 escaped
        rcases mem_escapeFenceOpener inLine with inText | slash
        · exact plain ((Text.isInfix_trim _).subset (Text.mem_of_mem_segments segment _ inText).1)
        · cases slash
    have cut : Text.segments (escapeFenceOpeners (Text.trim (inlineText language cs))) =
        (Text.segments (Text.trim (inlineText language cs))).map escapeFenceOpener := by
      rw [escapeFenceOpeners, Text.segments_joinLines (by simp [Text.segments_ne_nil])]
      intro l mem
      obtain ⟨m, segment, rfl⟩ := List.mem_map.1 mem
      intro feed
      rcases mem_escapeFenceOpener feed with inText | slash
      · exact Text.newline_notMem_of_mem_segments segment inText
      · cases slash
    rw [if_neg (by simpa using empty), pageText_singleton,
      Text.filter_text_lines fun mem => noReturn _ mem rfl, cut, List.filter_map, Page.textLines]
    congr 1
    refine List.filter_congr fun l _ => ?_
    rw [Function.comp, isBlank_escapeFenceOpener_eq]

end Markdown

end Wikidown
