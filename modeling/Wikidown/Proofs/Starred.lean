/-
# Wikidown.Proofs.Starred -- a text between asterisks that the layout never cuts

What stands in place of a table or of a macro that cannot be shown is a text in one line
that starts and ends with an asterisk (`Starred`).  Every step of the layout cuts texts at
white space, at line ends or at tildes only, or writes marks in front of what a line shows,
so a starred text that stands somewhere before a step stands there, in one piece, behind it.
-/
import Wikidown.Markdown.Block
import Wikidown.Proofs.Drafts
import Wikidown.Proofs.Tidied
import Wikidown.Proofs.Wrapping

namespace Wikidown

set_option autoImplicit false

/-- A text in one line that starts and ends with an asterisk. -/
structure Starred (x : Text) : Prop where
  starts : ∃ rest, x = '*' :: rest
  ends : ∃ before, x = before ++ ['*']
  oneLine : '\n' ∉ x

section

variable {x : Text}

namespace Text

/-! ## Cutting and joining -/

theorem infix_dropWhile {q : Char → Bool} (star : Starred x) (keeps : q '*' = false) {t : Text}
    (h : x <:+: t) : x <:+: t.dropWhile q := by
  obtain ⟨rest, rfl⟩ := star.starts
  obtain ⟨before, behind, rfl⟩ := h
  -- What is dropped ends before the asterisk.
  refine ⟨before.dropWhile q, behind, ?_⟩
  rw [List.append_assoc, List.append_assoc, List.dropWhile_append]
  cases all : (before.dropWhile q).isEmpty with
  | true =>
      rw [List.isEmpty_iff.1 all]
      simp [keeps]
  | false => rfl

theorem infix_dropEndWhile {q : Char → Bool} (star : Starred x) (keeps : q '*' = false)
    {t : Text} (h : x <:+: t) : x <:+: dropEndWhile q t := by
  obtain ⟨front, rfl⟩ := star.ends
  obtain ⟨before, behind, rfl⟩ := h
  refine ⟨before, dropEndWhile q behind, ?_⟩
  have whole : (before ++ (front ++ ['*']) ++ behind).reverse =
      behind.reverse ++ '*' :: (before ++ front).reverse := by simp
  rw [dropEndWhile, dropEndWhile, whole, List.dropWhile_append]
  cases all : (behind.reverse.dropWhile q).isEmpty with
  | true =>
      rw [List.isEmpty_iff.1 all]
      simp [keeps]
  | false => simp

theorem infix_trim (star : Starred x) {t : Text} (h : x <:+: t) : x <:+: trim t :=
  infix_dropEndWhile star (by decide) (infix_dropWhile star (by decide) h)

theorem not_isBlank_of_infix (star : Starred x) {t : Text} (h : x <:+: t) :
    isBlank t = false := by
  obtain ⟨rest, rfl⟩ := star.starts
  obtain ⟨before, behind, rfl⟩ := h
  have visible : isSpace '*' = false := by decide
  simp [isBlank, visible]

theorem infix_intercalate {sep : Text} {ts : List Text} {t : Text} (mem : t ∈ ts)
    (h : x <:+: t) : x <:+: List.intercalate sep ts := by
  induction ts with
  | nil => simp at mem
  | cons u us ih =>
      rw [intercalate_cons]
      rcases List.mem_cons.1 mem with rfl | later
      · exact h.trans (List.prefix_append _ _).isInfix
      · obtain ⟨front, back, rfl⟩ := List.append_of_mem later
        refine h.trans ⟨u ++ front.flatMap (sep ++ ·) ++ sep, back.flatMap (sep ++ ·), ?_⟩
        simp

theorem infix_dropReturn (star : Starred x) {l : Text} (h : x <:+: l) : x <:+: dropReturn l := by
  by_cases ended : l.getLast? = some '\r'
  · obtain ⟨before, behind, rfl⟩ := h
    rcases List.eq_nil_or_concat behind with rfl | ⟨behind, last, rfl⟩
    · obtain ⟨front, rfl⟩ := star.ends
      simp at ended
    · have dropped : dropReturn (before ++ x ++ behind ++ ['\r']) = before ++ x ++ behind := by
        simp [dropReturn]
      obtain rfl : last = '\r' := by simpa [List.concat_eq_append] using ended
      rw [List.concat_eq_append, ← List.append_assoc, dropped]
      exact ⟨before, behind, rfl⟩
  · rw [dropReturn_eq_self ended]
    exact h

/-- A starred text stands in one of a reader's lines. -/
theorem exists_line_of_infix (star : Starred x) {t : Text} (h : x <:+: t) :
    ∃ l ∈ lines t, x <:+: l := by
  obtain ⟨s, mem, inside⟩ := exists_segment_of_infix star.oneLine h
  obtain ⟨ls, last, cut, -⟩ := exists_terminated t
  rw [lines, cut, linesOfSegments_append ls (by simp)]
  rw [cut, List.mem_append] at mem
  rcases mem with ended | final
  · refine ⟨dropReturn s, List.mem_append_left _ (List.mem_map_of_mem ended), ?_⟩
    exact infix_dropReturn star inside
  · refine ⟨s, List.mem_append_right _ ?_, inside⟩
    obtain rfl := List.mem_singleton.1 final
    obtain ⟨rest, rfl⟩ := star.starts
    have filled : s ≠ [] := by
      rintro rfl
      simp at inside
    simp [linesOfSegments, filled]

/-- What is done to each line, leaving the starred text in it, leaves it in the whole. -/
theorem infix_joinLines_map (star : Starred x) {g : Text → Text}
    (keeps : ∀ l, x <:+: l → x <:+: g l) {t : Text} (h : x <:+: t) :
    x <:+: joinLines ((segments t).map g) := by
  obtain ⟨s, mem, inside⟩ := exists_segment_of_infix star.oneLine h
  exact infix_intercalate (List.mem_map_of_mem mem) (keeps s inside)

end Text

namespace Markdown

/-! ## Marks in front of and around a line -/

theorem infix_wrapLine (star : Starred x) (opening closing : Text) {line : Text}
    (h : x <:+: line) : x <:+: wrapLine opening closing line := by
  rw [wrapLine, if_neg (by simp [Text.not_isBlank_of_infix star h])]
  have inner := Text.infix_trim star h
  exact inner.trans ⟨line.takeWhile isSpace ++ opening, closing ++ Text.takeEndWhile isSpace line,
    by simp⟩

theorem infix_wrap (star : Starred x) (opening closing : Text) {t : Text} (h : x <:+: t) :
    x <:+: wrap opening closing t := by
  rw [wrap_eq_wrapLines]
  exact Text.infix_joinLines_map star (fun _ => infix_wrapLine star opening closing) h

theorem infix_escapeFenceOpener (star : Starred x) {line : Text} (h : x <:+: line) :
    x <:+: escapeFenceOpener line := by
  have body := Text.infix_dropWhile star (by decide : isSpace '*' = false) h
  simp only [escapeFenceOpener]
  split
  · exact body.trans ((List.suffix_cons _ _).trans (List.suffix_append _ _)).isInfix
  · exact h

theorem infix_escapeFenceOpeners (star : Starred x) {t : Text} (h : x <:+: t) :
    x <:+: escapeFenceOpeners t :=
  Text.infix_joinLines_map star (fun _ => infix_escapeFenceOpener star) h

theorem infix_headingText (star : Starred x) (level : Nat) {t : Text} (h : x <:+: t) :
    x <:+: headingText level t := by
  obtain ⟨s, mem, inside⟩ := Text.exists_segment_of_infix star.oneLine h
  have trimmed := Text.infix_trim star inside
  have filled : (Text.trim s).isEmpty = false := by
    rw [Text.isEmpty_trim, Text.not_isBlank_of_infix star inside]
  have piece : Text.trim s ∈ ((Text.segments t).map Text.trim).filter fun p => !p.isEmpty := by
    rw [List.mem_filter, filled]
    exact ⟨List.mem_map_of_mem mem, rfl⟩
  simp only [headingText]
  split
  · next none =>
    rw [List.isEmpty_iff.1 none] at piece
    simp at piece
  · have joined := @Text.infix_intercalate x [' '] _ _ piece trimmed
    exact joined.trans ((List.suffix_cons _ _).trans (List.suffix_append _ _)).isInfix

theorem infix_quoteText (star : Starred x) {t : Text} (h : x <:+: t) : x <:+: quoteText t := by
  obtain ⟨l, mem, inside⟩ := Text.exists_line_of_infix star h
  apply Text.infix_intercalate (List.mem_map_of_mem mem)
  simp only [quoteLine]
  split
  · next empty =>
    rw [List.isEmpty_iff.1 empty, List.infix_nil] at inside
    rw [inside]
    exact List.nil_infix
  · exact inside.trans ((List.suffix_cons _ _).trans (List.suffix_cons _ _)).isInfix

theorem infix_boxText (star : Starred x) (opening title : Text) {t : Text} (h : x <:+: t) :
    x <:+: boxText opening title t := by
  have body := Text.infix_trim star h
  have filled : (Text.trim t).isEmpty = false := by
    rw [Text.isEmpty_trim, Text.not_isBlank_of_infix star h]
  simp only [boxText, filled, Bool.false_eq_true, if_false]
  apply infix_quoteText star
  exact body.trans ((List.suffix_cons _ _).trans (List.suffix_append _ _)).isInfix

theorem infix_indentLine (width : Nat) {line : Text} (h : x <:+: line) :
    x <:+: indentLine width line := by
  simp only [indentLine]
  split
  · next empty =>
    rw [List.isEmpty_iff.1 empty] at h
    exact h
  · exact h.trans (List.suffix_append _ _).isInfix

theorem exists_mem_markLines (marker : Text) {ls : List Text} {l : Text} (mem : l ∈ ls)
    (h : x <:+: l) : ∃ m ∈ markLines marker ls, x <:+: m := by
  cases ls with
  | nil => simp at mem
  | cons first rest =>
      rcases List.mem_cons.1 mem with rfl | later
      · exact ⟨marker ++ l, List.mem_cons_self, h.trans (List.suffix_append _ _).isInfix⟩
      · refine ⟨indentLine marker.length l, ?_, infix_indentLine _ h⟩
        exact List.mem_cons_of_mem _ (List.mem_map_of_mem later)

theorem infix_tidy (star : Starred x) {t : Text} (h : x <:+: t) : x <:+: tidy t := by
  obtain ⟨l, mem, inside⟩ := Text.exists_line_of_infix star h
  rw [tidy, Scan.tidyLines_eq_keepAll]
  -- A line with a starred text is not blank, so it is kept.
  have kept : l ∈ Scan.start.keepAll (Text.lines t) [] :=
    Scan.mem_keepAll_of_text mem (Text.not_isBlank_of_infix star inside) .start
  exact Text.infix_intercalate kept inside

/-! ## Drafts -/

namespace Draft

theorem infix_join (star : Starred x) {out : Draft} {piece : Text}
    (h : x <:+: out.text ∨ x <:+: piece) : x <:+: (out.join piece).text := by
  rw [join_eq, text_put]
  rcases h with before | here
  · exact before.trans (List.prefix_append _ _).isInfix
  · refine List.IsInfix.trans ?_ (List.suffix_append _ _).isInfix
    split
    · exact Text.infix_dropWhile star (by decide) here
    · exact here

theorem infix_breakLine (star : Starred x) {out : Draft} (h : x <:+: out.text) :
    x <:+: out.breakLine.text := by
  have kept : x <:+: Text.dropEndWhile (· == ' ') out.text :=
    Text.infix_dropEndWhile star (by decide) h
  refine kept.trans ⟨[], [' ', ' ', '\n'], ?_⟩
  simp [Text.dropEndWhile, text, breakLine]

/-- The two tildes that a struck text takes back are no part of a starred text. -/
theorem infix_of_tildes (star : Starred x) {before : Draft}
    (h : x <:+: text ('~' :: '~' :: before)) : x <:+: text before := by
  have kept : x <:+: Text.dropEndWhile (· == '~') (text ('~' :: '~' :: before)) :=
    Text.infix_dropEndWhile star (by decide) h
  have shape : Text.dropEndWhile (· == '~') (text ('~' :: '~' :: before)) =
      Text.dropEndWhile (· == '~') (text before) := by
    simp [Text.dropEndWhile, text]
  rw [shape] at kept
  exact kept.trans (Text.isPrefix_dropEndWhile _ _).isInfix

theorem infix_emphasize (star : Starred x) {out : Draft} {t : Text} (kind : Document.Emphasis)
    (h : x <:+: out.text ∨ x <:+: t) : x <:+: (out.emphasize kind t).text := by
  have joined : x <:+: (out.join (wrap (marks kind out) (marks kind out) t)).text :=
    infix_join star (h.imp_right (infix_wrap star _ _))
  unfold emphasize
  split
  · next before =>
    split
    · rw [text_put]
      rcases h with earlier | here
      · exact (infix_of_tildes star earlier).trans (List.prefix_append _ _).isInfix
      · exact (infix_wrap star _ _ here).trans (List.suffix_append _ _).isInfix
    · exact joined
  · exact joined

end Draft

end Markdown

end

end Wikidown
