/-
# Wikidown.Proofs.Wrapping -- marks go line by line

A text is wrapped in one piece if it is a line, and line by line otherwise, once the white space
at its ends is off; which white space that is differs, since a line feed at an end counts as part
of the text.  None of this shows: white space at either end of a line stays outside the marks
whether it is taken off before or after (`wrapLine_blank_append`, `wrapLine_append_blank`), so the
outcome is that every line of the text has its marks, and nothing else (`wrap_eq_wrapLines`).
Everything that is proved of `wrap` goes by that equation.
-/
import Wikidown.Markdown.Inline
import Wikidown.Proofs.Lines
import Wikidown.Proofs.Spacing

namespace Wikidown

set_option autoImplicit false

namespace Text

theorem takeWhile_congr {p q : Char → Bool} {t : Text} (h : ∀ c ∈ t, p c = q c) :
    t.takeWhile p = t.takeWhile q := by
  have both : t.takeWhile p ++ t.dropWhile q = t.takeWhile q ++ t.dropWhile q := by
    rw [← dropWhile_congr h, List.takeWhile_append_dropWhile, dropWhile_congr h,
      List.takeWhile_append_dropWhile]
  exact List.append_cancel_right both

theorem takeEndWhile_congr {p q : Char → Bool} {t : Text} (h : ∀ c ∈ t, p c = q c) :
    takeEndWhile p t = takeEndWhile q t := by
  have reversed : ∀ c ∈ t.reverse, p c = q c := fun c mem => h c (List.mem_reverse.1 mem)
  rw [takeEndWhile, takeEndWhile, takeWhile_congr reversed]

theorem isBlank_append (a b : Text) : isBlank (a ++ b) = (isBlank a && isBlank b) :=
  List.all_append

end Text

namespace Markdown

variable {opening closing : Text}

/-! ## White space at the ends of a line -/

theorem wrapLine_of_isBlank {l : Text} (blank : Text.isBlank l = true) :
    wrapLine opening closing l = l := if_pos blank

theorem wrapLine_of_text {l : Text} (text : Text.isBlank l = false) :
    wrapLine opening closing l = l.takeWhile isSpace ++ opening ++ Text.trim l ++ closing ++
      Text.takeEndWhile isSpace l := if_neg (by simp [text])

theorem wrapLine_blank_append {lead : Text} (blank : Text.isBlank lead = true) (l : Text) :
    wrapLine opening closing (lead ++ l) = lead ++ wrapLine opening closing l := by
  have space : ∀ c ∈ lead, isSpace c = true := List.all_eq_true.1 blank
  cases text : Text.isBlank l with
  | true =>
      rw [wrapLine_of_isBlank text, wrapLine_of_isBlank]
      rw [Text.isBlank_append, blank, text]
      rfl
  | false =>
      have whole : Text.isBlank (lead ++ l) = false := by rw [Text.isBlank_append, text, Bool.and_false]
      have front : (lead ++ l).takeWhile isSpace = lead ++ l.takeWhile isSpace :=
        List.takeWhile_append_of_pos space
      have core : Text.trim (lead ++ l) = Text.trim l :=
        congrArg Text.trimEnd (List.dropWhile_append_of_pos space)
      rw [wrapLine_of_text whole, wrapLine_of_text text, front, core, Text.takeEndWhile_append _ text]
      simp only [List.append_assoc]

theorem wrapLine_append_blank {trail : Text} (blank : Text.isBlank trail = true) (l : Text) :
    wrapLine opening closing (l ++ trail) = wrapLine opening closing l ++ trail := by
  have space : ∀ c ∈ trail.reverse, isSpace c = true := fun c mem =>
    List.all_eq_true.1 blank c (List.mem_reverse.1 mem)
  cases text : Text.isBlank l with
  | true =>
      rw [wrapLine_of_isBlank text, wrapLine_of_isBlank]
      rw [Text.isBlank_append, blank, text]
      rfl
  | false =>
      have whole : Text.isBlank (l ++ trail) = false := by rw [Text.isBlank_append, text, Bool.false_and]
      have front : (l ++ trail).takeWhile isSpace = l.takeWhile isSpace := Text.takeWhile_append text trail
      have rest : Text.trimStart (l ++ trail) = Text.trimStart l ++ trail := by
        have cut : (l ++ trail).takeWhile isSpace ++ Text.trimStart (l ++ trail) =
            l.takeWhile isSpace ++ (Text.trimStart l ++ trail) := by
          rw [Text.trimStart, List.takeWhile_append_dropWhile, ← List.append_assoc, Text.trimStart,
            List.takeWhile_append_dropWhile]
        rw [front] at cut
        exact List.append_cancel_left cut
      have core : Text.trim (l ++ trail) = Text.trim l := by
        rw [Text.trim, rest, Text.trimEnd, Text.dropEndWhile, List.reverse_append,
          List.dropWhile_append_of_pos space]
        rfl
      have behind : Text.takeEndWhile isSpace (l ++ trail) = Text.takeEndWhile isSpace l ++ trail := by
        rw [Text.takeEndWhile, List.reverse_append, List.takeWhile_append_of_pos space,
          List.reverse_append, List.reverse_reverse, Text.takeEndWhile]
      rw [wrapLine_of_text whole, wrapLine_of_text text, front, core, behind]
      simp only [List.append_assoc]

/-- A line between marks holds the characters of the line and of the marks. -/
theorem mem_wrapLine {opening closing line : Text} {c : Char}
    (h : c ∈ wrapLine opening closing line) : c ∈ line ∨ c ∈ opening ∨ c ∈ closing := by
  simp only [wrapLine] at h
  split at h
  · exact .inl h
  · simp only [List.mem_append] at h
    rcases h with (((h | h) | h) | h) | h
    · exact .inl ((List.takeWhile_prefix isSpace).subset h)
    · exact .inr (.inl h)
    · exact .inl ((Text.isInfix_trim line).subset h)
    · exact .inr (.inr h)
    · exact .inl (Text.mem_of_mem_takeEndWhile h)

/-! ## White space at the ends of a text -/

theorem wrapLines_of_notMem {l : Text} (noFeed : '\n' ∉ l) :
    wrapLines opening closing l = wrapLine opening closing l := by
  rw [wrapLines, Text.segments_of_notMem noFeed]
  exact List.intercalate_singleton

theorem wrapLines_line_append {l : Text} (noFeed : '\n' ∉ l) (t : Text) :
    wrapLines opening closing (l ++ '\n' :: t) =
      wrapLine opening closing l ++ '\n' :: wrapLines opening closing t := by
  have later : (Text.segments t).map (wrapLine opening closing) ≠ [] := by
    simp [Text.segments_ne_nil]
  rw [wrapLines, Text.segments_line_append noFeed, List.map_cons, ← List.singleton_append,
    Text.joinLines_append (by simp) later]
  simp [Text.joinLines, wrapLines]

theorem wrapLines_blank_append {lead : Text} (blank : Text.isBlank lead = true)
    (noFeed : '\n' ∉ lead) (t : Text) :
    wrapLines opening closing (lead ++ t) = lead ++ wrapLines opening closing t := by
  induction t using Text.induction_lines with
  | last l oneLine =>
      rw [wrapLines_of_notMem (by simp [noFeed, oneLine]), wrapLines_of_notMem oneLine,
        wrapLine_blank_append blank]
  | more l t oneLine =>
      rw [← List.append_assoc, wrapLines_line_append (by simp [noFeed, oneLine]),
        wrapLines_line_append oneLine, wrapLine_blank_append blank, List.append_assoc]

theorem wrapLines_append_blank {trail : Text} (blank : Text.isBlank trail = true)
    (noFeed : '\n' ∉ trail) (t : Text) :
    wrapLines opening closing (t ++ trail) = wrapLines opening closing t ++ trail := by
  induction t using Text.induction_lines with
  | last l oneLine =>
      rw [wrapLines_of_notMem (by simp [noFeed, oneLine]), wrapLines_of_notMem oneLine,
        wrapLine_append_blank blank]
  | more l t oneLine ih =>
      rw [List.append_assoc, List.cons_append, wrapLines_line_append oneLine,
        wrapLines_line_append oneLine, ih, List.append_assoc, List.cons_append]

theorem wrapLines_of_isBlank {t : Text} (blank : Text.isBlank t = true) :
    wrapLines opening closing t = t := by
  have each : ∀ l ∈ Text.segments t, wrapLine opening closing l = l := fun l mem =>
    wrapLine_of_isBlank (Text.isBlank_of_mem_segments mem blank)
  rw [wrapLines, List.map_congr_left each, List.map_id', Text.joinLines_segments]

/-! ## The equation -/

theorem isBlank_of_isLineSpace {t : Text} (h : ∀ c ∈ t, isLineSpace c = true) :
    Text.isBlank t = true ∧ '\n' ∉ t := by
  constructor
  · exact List.all_eq_true.2 fun c mem => (Bool.and_eq_true_iff.1 (h c mem)).1
  · intro feed
    have noFeed := h _ feed
    cases noFeed

/-- In a line all white space ends no line. -/
theorem isLineSpace_eq {t : Text} (noFeed : '\n' ∉ t) : ∀ c ∈ t, isLineSpace c = isSpace c := by
  intro c mem
  have ne : c ≠ '\n' := fun feed => noFeed (feed ▸ mem)
  simp [isLineSpace, ne]

/-- Each line of a text is wrapped on its own, however the text starts and ends. -/
theorem wrap_eq_wrapLines (opening closing t : Text) :
    wrap opening closing t = wrapLines opening closing t := by
  unfold wrap
  split
  · next blank => rw [wrapLines_of_isBlank blank]
  · next filled =>
    have text : Text.isBlank t = false := Bool.eq_false_iff.2 filled
    have whole : t = t.takeWhile isLineSpace ++
        (Text.dropEndWhile isLineSpace (t.dropWhile isLineSpace) ++
          Text.takeEndWhile isLineSpace (t.dropWhile isLineSpace)) := by
      rw [Text.dropEndWhile_append_takeEndWhile, List.takeWhile_append_dropWhile]
    obtain ⟨blankLead, noFeedLead⟩ := isBlank_of_isLineSpace (t := t.takeWhile isLineSpace)
      (List.all_eq_true.1 List.all_takeWhile)
    obtain ⟨blankTrail, noFeedTrail⟩ := isBlank_of_isLineSpace
      (t := Text.takeEndWhile isLineSpace (t.dropWhile isLineSpace)) fun c mem =>
        List.all_eq_true.1 List.all_takeWhile c (List.mem_reverse.1 mem)
    simp only
    split
    · rw [List.append_assoc, ← wrapLines_append_blank blankTrail noFeedTrail,
        ← wrapLines_blank_append blankLead noFeedLead, ← whole]
    · next oneLine =>
      have noFeed : '\n' ∉ t := by
        rw [whole, List.mem_append, List.mem_append]
        rintro (inLead | inContent | inTrail)
        · exact noFeedLead inLead
        · exact oneLine (by simpa using inContent)
        · exact noFeedTrail inTrail
      have same := isLineSpace_eq noFeed
      have rest : t.dropWhile isLineSpace = Text.trimStart t := Text.dropWhile_congr same
      have sameRest : ∀ c ∈ Text.trimStart t, isLineSpace c = isSpace c := fun c mem =>
        same c ((Text.isSuffix_trimStart t).subset mem)
      rw [wrapLines_of_notMem noFeed, wrapLine_of_text text, Text.takeWhile_congr same, rest,
        Text.dropEndWhile_congr sameRest, Text.takeEndWhile_congr sameRest,
        Text.takeEndWhile_trimStart text]
      simp only [List.append_assoc, Text.trim, Text.trimEnd]

theorem segments_wrap (unbroken : '\n' ∉ opening ++ closing) (t : Text) :
    Text.segments (wrap opening closing t) =
      (Text.segments t).map (wrapLine opening closing) := by
  rw [List.mem_append, not_or] at unbroken
  rw [wrap_eq_wrapLines, wrapLines, Text.segments_joinLines (by simp [Text.segments_ne_nil])]
  intro l mem
  obtain ⟨m, segment, rfl⟩ := List.mem_map.1 mem
  intro feed
  rcases mem_wrapLine feed with inText | marks
  · exact Text.newline_notMem_of_mem_segments segment inText
  · exact marks.elim unbroken.1 unbroken.2

end Markdown

end Wikidown
