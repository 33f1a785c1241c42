/-
# Wikidown.Proofs.Runs -- a character three times in a row

A run of three equal characters does not reach over a character that differs, nor over a seam
that its character does not stand on both sides of (`Tripled.of_append`); it stands in one line,
and trimming leaves it.  So a paragraph on a page of its own has the runs of what is written for
it (`tripled_render_iff`), and marks around a text that is free of a character make no runs of
it but their own (`not_tripled_wrap`).  Where marked text starts and ends visibly the marks
stand at its ends, and white space stays outside them.
-/
import Wikidown.Proofs.Paragraphs
import Wikidown.Proofs.StruckText

namespace Wikidown

set_option autoImplicit false

namespace Text

/-! ## Runs of three -/

/-- A character three times in a row. -/
def Tripled (c : Char) (t : Text) : Prop := [c, c, c] <:+: t

section

variable {c : Char} {t : Text}

theorem Tripled.mem (h : Tripled c t) : c ∈ t := h.subset List.mem_cons_self

theorem Tripled.of_infix {s : Text} (h : Tripled c s) (inside : s <:+: t) : Tripled c t :=
  h.trans inside

/-- A run does not reach over another character. -/
theorem Tripled.of_cons {a b : Text} {d : Char} (ne : d ≠ c) (h : Tripled c (a ++ d :: b)) :
    Tripled c a ∨ Tripled c b :=
  infix_of_notMem (by simpa using ne) h

/-- A run does not reach over a seam, unless its character stands on both sides. -/
theorem Tripled.of_append {a b : Text} (seam : a.getLast? = some c → b.head? ≠ some c)
    (h : Tripled c (a ++ b)) : Tripled c a ∨ Tripled c b := by
  rcases List.eq_nil_or_concat a with rfl | ⟨a, d, rfl⟩
  · exact .inr h
  · rw [List.concat_eq_append] at h seam ⊢
    by_cases same : d = c
    · cases b with
      | nil => exact .inl (by simpa using h)
      | cons e b =>
          have ne : e ≠ c := fun eq => seam (by simp [same]) (by simp [eq])
          exact (h.of_cons ne).imp_right fun later => later.of_infix (List.suffix_cons e b).isInfix
    · rw [List.append_assoc] at h
      exact (h.of_cons same).imp_left fun early => early.of_infix (List.prefix_append a _).isInfix

/-- A run of a visible character stands where the white space at the ends is trimmed off. -/
theorem tripled_trim_iff (visible : isSpace c = false) : Tripled c (trim t) ↔ Tripled c t := by
  refine ⟨fun h => h.of_infix (isInfix_trim t), fun h => ?_⟩
  have front : c ∉ t.takeWhile isSpace := fun mem => by
    rw [isSpace_of_mem_takeWhile mem] at visible
    cases visible
  have back : c ∉ takeEndWhile isSpace (trimStart t) := fun mem => by
    rw [isSpace_of_mem_takeEndWhile mem] at visible
    cases visible
  have whole : t = t.takeWhile isSpace ++ trimStart t := List.takeWhile_append_dropWhile.symm
  rw [whole] at h
  have inside := (h.of_append fun last => absurd (List.mem_of_getLast? last) front).resolve_left
    fun early => front early.mem
  rw [← dropEndWhile_append_takeEndWhile isSpace (trimStart t)] at inside
  exact (inside.of_append fun _ first => back (List.mem_of_head? first)).resolve_right
    fun later => back later.mem

/-- A run stands in one line. -/
theorem tripled_iff_segments (ne : c ≠ '\n') : Tripled c t ↔ ∃ l ∈ segments t, Tripled c l := by
  constructor
  · intro h
    exact exists_segment_of_infix (by simpa using Ne.symm ne) h
  · rintro ⟨l, mem, h⟩
    exact h.of_infix (infix_of_mem_segments mem)

theorem tripled_iff_textLines (visible : isSpace c = false) :
    Tripled c t ↔ ∃ l ∈ Page.textLines t, Tripled c l := by
  have ne : c ≠ '\n' := by
    rintro rfl
    cases visible
  rw [tripled_iff_segments ne]
  constructor
  · rintro ⟨l, mem, h⟩
    refine ⟨l, List.mem_filter.2 ⟨mem, ?_⟩, h⟩
    have text : isBlank l = false := by
      rw [Bool.eq_false_iff]
      intro blank
      rw [List.all_eq_true.1 blank c h.mem] at visible
      cases visible
    rw [text]
    rfl
  · rintro ⟨l, mem, h⟩
    exact ⟨l, (List.mem_filter.1 mem).1, h⟩

end

end Text

namespace Markdown

open Document (Node Forest Emphasis)
open Text (EndsVisibly Tripled)

theorem tripled_escapeFenceOpener_iff {c : Char} (visible : isSpace c = false) (slash : '\\' ≠ c)
    (line : Text) : Tripled c (escapeFenceOpener line) ↔ Tripled c line := by
  rw [escapeFenceOpener]
  split
  · have whole : line.takeWhile isSpace ++ Text.trimStart line = line :=
      List.takeWhile_append_dropWhile
    constructor
    · intro h
      rcases h.of_cons slash with early | later
      · exact early.of_infix (List.takeWhile_prefix _).isInfix
      · exact later.of_infix (Text.isSuffix_trimStart line).isInfix
    · intro h
      rw [← whole] at h
      have space : c ∉ line.takeWhile isSpace := fun mem => by
        rw [Text.isSpace_of_mem_takeWhile mem] at visible
        cases visible
      have body := (h.of_append fun last => absurd (List.mem_of_getLast? last) space).resolve_left
        fun early => space early.mem
      exact body.of_infix ⟨line.takeWhile isSpace ++ ['\\'], [], by simp⟩
  · exact Iff.rfl

/-- A paragraph on a page of its own has the runs of what is written for it. -/
theorem tripled_render_iff {language : Language} {cs : Forest}
    (inline : ∀ n ∈ cs, RunsInline language n) (plain : '\r' ∉ inlineText language cs) {c : Char}
    (visible : isSpace c = false) (slash : '\\' ≠ c) :
    Tripled c (render language [.paragraph cs]) ↔ Tripled c (inlineText language cs) := by
  rw [Text.tripled_iff_textLines visible, textLines_paragraph inline plain,
    ← Text.tripled_trim_iff visible, Text.tripled_iff_textLines visible (t := Text.trim _)]
  constructor
  · rintro ⟨l, mem, h⟩
    obtain ⟨m, line, rfl⟩ := List.mem_map.1 mem
    exact ⟨m, line, (tripled_escapeFenceOpener_iff visible slash m).1 h⟩
  · rintro ⟨m, line, h⟩
    exact ⟨_, List.mem_map_of_mem line, (tripled_escapeFenceOpener_iff visible slash m).2 h⟩

/-! ## Marks around a text -/

section

variable {opening closing t : Text}

/-- Marks around a line make no runs but their own. -/
theorem not_tripled_wrapLine {c : Char} (before : ¬ Tripled c opening)
    (behind : ¬ Tripled c closing) {line : Text} (free : c ∉ line) :
    ¬ Tripled c (wrapLine opening closing line) := by
  rw [wrapLine]
  split
  · exact fun run => free run.mem
  · next text =>
    intro run
    have body : c ∉ Text.trim line := fun mem => free ((Text.isInfix_trim line).subset mem)
    have filled : Text.trim line ≠ [] := fun none => by
      have empty := Text.isEmpty_trim line
      rw [none] at empty
      exact text empty.symm
    have lead : c ∉ line.takeWhile isSpace := fun mem =>
      free ((List.takeWhile_prefix _).subset mem)
    have trail : c ∉ Text.takeEndWhile isSpace line := fun mem =>
      free (Text.mem_of_mem_takeEndWhile mem)
    -- From the back to the front: every second piece is free of the character.
    have front := (run.of_append fun _ first => trail (List.mem_of_head? first)).resolve_right
      fun later => trail later.mem
    have ends : (line.takeWhile isSpace ++ opening ++ Text.trim line).getLast? ≠ some c := by
      rw [List.getLast?_append, List.getLast?_eq_some_getLast filled, Option.some_or]
      exact fun last => body (Option.some.inj last ▸ List.getLast_mem filled)
    have front := (front.of_append fun last => absurd last ends).resolve_right behind
    have front := (front.of_append fun _ first => body (List.mem_of_head? first)).resolve_right
      fun later => body later.mem
    have front :=
      (front.of_append fun last => absurd (List.mem_of_getLast? last) lead).resolve_right before
    exact lead front.mem

theorem not_tripled_wrap {c : Char} (visible : isSpace c = false)
    (unbroken : '\n' ∉ opening ++ closing) (before : ¬ Tripled c opening)
    (behind : ¬ Tripled c closing) (free : c ∉ t) : ¬ Tripled c (wrap opening closing t) := by
  have ne : c ≠ '\n' := by
    rintro rfl
    cases visible
  rw [Text.tripled_iff_segments ne, segments_wrap unbroken]
  rintro ⟨l, mem, run⟩
  obtain ⟨m, segment, rfl⟩ := List.mem_map.1 mem
  have noMark : c ∉ m := fun inLine => free (Text.mem_of_mem_segments segment c inLine).1
  exact not_tripled_wrapLine before behind noMark run

/-- A text that starts visibly starts with its opening mark. -/
theorem exists_wrap_front {d : Char} (visible : isSpace d = false) (rest : Text) :
    ∃ behind, wrap opening closing (d :: rest) = opening ++ d :: behind := by
  have noFeed : d ≠ '\n' := by
    rintro rfl
    cases visible
  cases cut : Text.segments rest with
  | nil => exact absurd cut (Text.segments_ne_nil rest)
  | cons l ls =>
      have text : Text.isBlank (d :: l) = false := by simp [Text.isBlank, visible]
      have start : Text.trimStart (d :: l) = d :: l := by simp [Text.trimStart, visible]
      obtain ⟨u, trimmed⟩ : ∃ u, Text.trim (d :: l) = d :: u := by
        have starts := Text.isPrefix_trimEnd (d :: l)
        rw [Text.trim, start]
        cases eq : Text.trimEnd (d :: l) with
        | nil =>
            rw [← Text.isBlank_trimEnd, eq] at text
            cases text
        | cons e u =>
            obtain ⟨behind, whole⟩ := eq ▸ starts
            exact ⟨u, by rw [(List.cons.inj whole).1]⟩
      have marked : wrapLine opening closing (d :: l) =
          opening ++ d :: (u ++ closing ++ Text.takeEndWhile isSpace (d :: l)) := by
        rw [wrapLine, if_neg (by simp [text]), List.takeWhile_cons, if_neg (by simp [visible]),
          trimmed]
        simp
      rw [wrap_eq_wrapLines, wrapLines, Text.segments_cons, if_neg noFeed, cut, List.modifyHead_cons,
        List.map_cons, marked, Text.joinLines, Text.intercalate_cons]
      exact ⟨_, by rw [List.append_assoc, List.cons_append]⟩

/-- A text that ends visibly ends with its closing mark. -/
theorem exists_wrap_back {d : Char} (visible : isSpace d = false) (front : Text) :
    ∃ before, wrap opening closing (front ++ [d]) = before ++ d :: closing := by
  have noFeed : d ≠ '\n' := by
    rintro rfl
    cases visible
  obtain ⟨ls, last, cut, -⟩ := Text.exists_terminated front
  have text : Text.isBlank (last ++ [d]) = false := by simp [Text.isBlank, visible]
  have ends : EndsVisibly (last ++ [d]) := ⟨last, d, rfl, visible⟩
  have trail : Text.takeEndWhile isSpace (last ++ [d]) = [] := by
    simp [Text.takeEndWhile, visible]
  obtain ⟨u, trimmed⟩ : ∃ u, Text.trim (last ++ [d]) = u ++ [d] := by
    obtain ⟨before, whole⟩ := Text.isSuffix_trimStart (last ++ [d])
    rcases List.eq_nil_or_concat (Text.trimStart (last ++ [d])) with none | ⟨u, e, eq⟩
    · rw [← Text.isBlank_trimStart, none] at text
      cases text
    · rw [eq, List.concat_eq_append, ← List.append_assoc] at whole
      have same : e = d := by simpa using (List.append_inj' whole rfl).2
      rw [List.concat_eq_append, same] at eq
      exact ⟨u, by rw [Text.trim, eq, Text.trimEnd_of_endsVisibly ⟨u, d, rfl, visible⟩]⟩
  have marked : wrapLine opening closing (last ++ [d]) =
      (last ++ [d]).takeWhile isSpace ++ opening ++ u ++ d :: closing := by
    rw [wrapLine, if_neg (by simp [text]), trimmed, trail]
    simp
  rw [wrap_eq_wrapLines, wrapLines, Text.segments_concat cut, if_neg noFeed, List.map_append,
    List.map_singleton, marked, Text.joinLines_concat]
  exact ⟨_, (List.append_assoc _ _ _).symm⟩

/-- White space at the start of a text stays in front of the marks. -/
theorem head?_wrap (unseen : t.head?.any isVisible = false) :
    (wrap opening closing t).head? = t.head? := by
  cases t with
  | nil => rfl
  | cons w rest =>
      have space : isSpace w = true := by simpa [isVisible] using unseen
      cases cut : Text.segments rest with
      | nil => exact absurd cut (Text.segments_ne_nil rest)
      | cons l ls =>
          rw [wrap_eq_wrapLines, wrapLines, Text.segments_cons, cut]
          split
          · next feed =>
            rw [List.map_cons, List.map_cons, Text.joinLines, Text.intercalate_cons,
              List.flatMap_cons, feed]
            rfl
          · have first : (wrapLine opening closing (w :: l)).head? = some w := by
              rw [wrapLine]
              split
              · rfl
              · rw [List.takeWhile_cons, if_pos space]
                rfl
            rw [List.modifyHead_cons, List.map_cons, Text.joinLines, Text.intercalate_cons,
              List.head?_append, first]
            rfl

/-- White space at the end of a text stays behind the marks. -/
theorem getLast?_wrap (unseen : t.getLast?.any isVisible = false) :
    (wrap opening closing t).getLast? = t.getLast? := by
  rcases List.eq_nil_or_concat t with rfl | ⟨front, w, rfl⟩
  · rfl
  · rw [List.concat_eq_append, List.getLast?_concat] at unseen ⊢
    have space : isSpace w = true := by simpa [isVisible] using unseen
    obtain ⟨ls, last, cut, -⟩ := Text.exists_terminated front
    rw [wrap_eq_wrapLines, wrapLines, Text.segments_concat cut]
    split
    · next feed =>
      have both : ls ++ [last, []] = (ls ++ [last]) ++ [[]] := by simp
      have none : wrapLine opening closing [] = [] := rfl
      rw [both, List.map_append, List.map_singleton, none, Text.joinLines_concat, List.append_nil,
        List.map_append, List.flatMap_append, feed]
      simp
    · have final : (wrapLine opening closing (last ++ [w])).getLast? = some w := by
        rw [wrapLine]
        split
        · exact List.getLast?_concat
        · rw [Text.takeEndWhile, List.reverse_append, List.reverse_singleton, List.singleton_append,
            List.takeWhile_cons, if_pos space, List.reverse_cons, ← List.append_assoc,
            List.getLast?_concat]
      rw [List.map_append, List.map_singleton, Text.joinLines_concat, List.getLast?_append, final]
      rfl

end

end Markdown

end Wikidown
