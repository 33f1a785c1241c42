/-
# Wikidown.Proofs.Flanks -- what stands beside a mark

A mark of emphasis has a visible character next to it, on the side of the text that it marks, and
taking the marks out again leaves the text as it was.  `Marked l l'` says so of one line: `l'` is
`l` with marks around what is between its white space, or `l` itself if there is nothing.
`Composed t t' portions` says it of a whole text, which is put together from portions that stay
bare and portions that are marked; it is carried along the lines (`exists_composed`).

The main statement is `wrap_flanked`: a text between two marks has the lines that it had, each of
them marked, and is composed of the text and the marks.
-/
import Wikidown.Proofs.Edges
import Wikidown.Proofs.Wrapping
import Mathlib.Data.List.Forall2

namespace Wikidown.Markdown

set_option autoImplicit false

open Text (OpensAt EndsVisibly)

variable {opening closing : Text}

/-! ## One line -/

/-- The second line is the first with marks around its text: behind the white space at its start
and in front of the white space at its end.  A blank line has no text and no marks. -/
inductive Marked (opening closing : Text) : Text → Text → Prop where
  | blank {l : Text} (blank : Text.isBlank l = true) : Marked opening closing l l
  | text {lead core trail : Text} (before : Text.isBlank lead = true) (starts : OpensAt 0 core)
      (ends : EndsVisibly core) (after : Text.isBlank trail = true) :
      Marked opening closing (lead ++ core ++ trail)
        (lead ++ opening ++ core ++ closing ++ trail)

theorem marked_wrapLine (l : Text) : Marked opening closing l (wrapLine opening closing l) := by
  cases text : Text.isBlank l with
  | true =>
      rw [wrapLine_of_isBlank text]
      exact .blank text
  | false =>
      obtain ⟨starts, ends⟩ := Text.framed_trim text
      have before : Text.isBlank (l.takeWhile isSpace) = true := List.all_takeWhile
      have after : Text.isBlank (Text.takeEndWhile isSpace l) = true :=
        List.all_eq_true.2 fun _ => Text.isSpace_of_mem_takeEndWhile
      have marked : Marked opening closing _ _ := .text before starts ends after
      rwa [Text.takeWhile_trim_takeEndWhile text, ← wrapLine_of_text text] at marked

/-! ## A whole text -/

/-- A portion of a text between marks. -/
inductive Portion where
  /-- Text that has no marks. -/
  | bare (t : Text)
  /-- Text between its two marks. -/
  | marked (core : Text)

namespace Portion

/-- The portion without its marks. -/
def source : Portion → Text
  | bare t => t
  | marked core => core

/-- The portion as it is written. -/
def written (opening closing : Text) : Portion → Text
  | bare t => t
  | marked core => opening ++ core ++ closing

end Portion

/-- The second text is the first with marks put in around some portions of it, each of which
stands in one line and starts and ends visibly. -/
structure Composed (opening closing t t' : Text) (portions : List Portion) : Prop where
  source : portions.flatMap Portion.source = t
  written : portions.flatMap (Portion.written opening closing) = t'
  flanked : ∀ core, .marked core ∈ portions → OpensAt 0 core ∧ EndsVisibly core ∧ '\n' ∉ core

namespace Composed

theorem bare (t : Text) : Composed opening closing t t [.bare t] where
  source := by simp [Portion.source]
  written := by simp [Portion.written]
  flanked := by
    intro core mem
    cases List.mem_singleton.1 mem

theorem append {t t' u u' : Text} {ps qs : List Portion} (h : Composed opening closing t t' ps)
    (h' : Composed opening closing u u' qs) :
    Composed opening closing (t ++ u) (t' ++ u') (ps ++ qs) where
  source := by rw [List.flatMap_append, h.source, h'.source]
  written := by rw [List.flatMap_append, h.written, h'.written]
  flanked := by
    intro core mem
    rcases List.mem_append.1 mem with mem | mem
    · exact h.flanked core mem
    · exact h'.flanked core mem

/-- A line that is marked is composed of its text and the marks. -/
theorem of_marked {l l' : Text} (h : Marked opening closing l l') (oneLine : '\n' ∉ l) :
    ∃ portions, Composed opening closing l l' portions := by
  cases h with
  | blank _ => exact ⟨_, bare l⟩
  | @text lead core trail before starts ends after =>
      simp only [List.mem_append, not_or] at oneLine
      have inner : Composed opening closing core (opening ++ core ++ closing) [.marked core] := by
        refine ⟨by simp [Portion.source], by simp [Portion.written], fun other mem => ?_⟩
        cases List.mem_singleton.1 mem
        exact ⟨starts, ends, oneLine.1.2⟩
      have whole := ((bare lead).append inner).append (bare trail)
      simp only [← List.append_assoc] at whole
      exact ⟨_, whole⟩

end Composed

/-- By induction on the lines: a line is composed of its text and its marks, and a line feed stays
bare. -/
theorem exists_composed (t : Text) :
    ∃ portions, Composed opening closing t (wrapLines opening closing t) portions := by
  induction t using Text.induction_lines with
  | last l oneLine =>
      rw [wrapLines_of_notMem oneLine]
      exact Composed.of_marked (marked_wrapLine l) oneLine
  | more l t oneLine ih =>
      have marked : Marked opening closing l (wrapLine opening closing l) := marked_wrapLine l
      obtain ⟨first, here⟩ := Composed.of_marked marked oneLine
      obtain ⟨later, behind⟩ := ih
      rw [wrapLines_line_append oneLine]
      exact ⟨_, here.append ((Composed.bare ['\n']).append behind)⟩

/-- **Marks are well flanked and leave the text alone.**  Between marks that hold no line feed a
text has as many lines as before, and each of them is marked: blank lines stay as they are, and
any other is its white space, the opening mark, its text, the closing mark and its white space.
The whole is composed of the text and the marks, so that taking the marks out gives the text
back, and behind each opening and in front of each closing mark stands a visible character. -/
theorem wrap_flanked (front : '\n' ∉ opening) (back : '\n' ∉ closing) (t : Text) :
    (Text.isBlank t = true → wrap opening closing t = t) ∧
      List.Forall₂ (Marked opening closing) (Text.segments t)
        (Text.segments (wrap opening closing t)) ∧
      ∃ portions, Composed opening closing t (wrap opening closing t) portions := by
  refine ⟨fun blank => if_pos blank, ?_, ?_⟩
  · have unbroken : '\n' ∉ opening ++ closing := by simp [front, back]
    rw [segments_wrap unbroken, List.forall₂_map_right_iff, List.forall₂_same]
    exact fun l _ => marked_wrapLine l
  · rw [wrap_eq_wrapLines]
    exact exists_composed t

/-- Line feeds at both ends, a line of white space alone, and no-break and wide spaces beside
text. -/
theorem wrap_flanked_sample :
    '\n' ∉ "~~".toList ∧ '\n' ∉ "</s>".toList ∧
      wrap "~~" "</s>" "\n\u00A0a b \n\t\n\u3000c\u3000\n " =
        "\n\u00A0~~a b</s> \n\t\n\u3000~~c</s>\u3000\n ".toList ∧
      List.Forall₂ (Marked "~~" "</s>") (Text.segments "\n\u00A0a b \n\t\n\u3000c\u3000\n ")
        (Text.segments (wrap "~~" "</s>" "\n\u00A0a b \n\t\n\u3000c\u3000\n ")) ∧
      ∃ portions, Composed "~~" "</s>" "\n\u00A0a b \n\t\n\u3000c\u3000\n "
        (wrap "~~" "</s>" "\n\u00A0a b \n\t\n\u3000c\u3000\n ") portions := by
  have front : '\n' ∉ "~~".toList := by decide
  have back : '\n' ∉ "</s>".toList := by decide
  obtain ⟨-, lines, composed⟩ := wrap_flanked front back "\n\u00A0a b \n\t\n\u3000c\u3000\n "
  exact ⟨front, back, by decide, lines, composed⟩

end Wikidown.Markdown
