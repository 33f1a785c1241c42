/-
# Wikidown.Proofs.Ink -- visible characters through the layout of text

Layout moves white space and writes marks of its own.  The characters that satisfy a
predicate, where no white space does (`Inked`), come through every step: steps that only
trim or fold keep them exactly, and steps that write marks keep them in order among the
marks.
-/
import Wikidown.Markdown.Block
import Wikidown.Proofs.Wrapping

namespace Wikidown

set_option autoImplicit false

open scoped List

/-- A choice of characters without white space. -/
def Inked (p : Char → Bool) : Prop := ∀ c, isSpace c = true → p c = false

section

variable {p : Char → Bool}

/-! ## Steps that only trim or fold -/

namespace Text

theorem filter_dropWhile {q : Char → Bool} (h : ∀ c, q c = true → p c = false) (t : Text) :
    (t.dropWhile q).filter p = t.filter p := by
  induction t with
  | nil => rfl
  | cons c t ih =>
      cases drop : q c with
      | true => simp [drop, h c drop, ih]
      | false => simp [drop]

theorem filter_dropEndWhile {q : Char → Bool} (h : ∀ c, q c = true → p c = false) (t : Text) :
    (dropEndWhile q t).filter p = t.filter p := by
  rw [dropEndWhile, List.filter_reverse, filter_dropWhile h, List.filter_reverse,
    List.reverse_reverse]

theorem filter_trim (ink : Inked p) (t : Text) : (trim t).filter p = t.filter p :=
  (filter_dropEndWhile ink _).trans (filter_dropWhile ink t)

theorem filter_of_isBlank (ink : Inked p) {t : Text} (h : isBlank t = true) : t.filter p = [] := by
  rw [← filter_trim ink, trim_of_isBlank h]
  rfl

theorem filter_collapseFrom (ink : Inked p) (within : Bool) (t : Text) :
    (collapseFrom within t).filter p = t.filter p := by
  have blank : p ' ' = false := ink ' ' (by decide)
  induction t generalizing within with
  | nil => rfl
  | cons c t ih =>
      simp only [collapseFrom]
      split
      · next space => split <;> simp [ink c space, blank, ih]
      · rw [List.filter_cons, List.filter_cons, ih]

theorem filter_collapse (ink : Inked p) (t : Text) : (collapse t).filter p = t.filter p :=
  filter_collapseFrom ink false t

theorem sublist_filter_collapse (ink : Inked p) (t : Text) :
    t.filter p <+ (collapse t).filter p :=
  (filter_collapse ink t).symm ▸ List.Sublist.refl _

theorem filter_intercalate {sep : Text} (h : sep.filter p = []) (ts : List Text) :
    (List.intercalate sep ts).filter p = ts.flatten.filter p := by
  cases ts with
  | nil => rfl
  | cons t ts =>
      rw [intercalate_cons, List.flatten_cons, List.filter_append, List.filter_append]
      congr 1
      induction ts with
      | nil => rfl
      | cons u ts ih => simp [h, ih]

theorem filter_joinLines (ink : Inked p) (ls : List Text) :
    (joinLines ls).filter p = ls.flatten.filter p :=
  filter_intercalate (by simp [ink '\n' (by decide)]) ls

theorem filter_segments (ink : Inked p) (t : Text) :
    (segments t).flatten.filter p = t.filter p := by
  rw [← filter_joinLines ink, joinLines_segments]

theorem filter_dropReturn (ink : Inked p) (l : Text) : (dropReturn l).filter p = l.filter p := by
  by_cases h : l.getLast? = some '\r'
  · obtain ⟨before, rfl⟩ := List.getLast?_eq_some_iff.1 h
    have dropped : dropReturn (before ++ ['\r']) = before := by simp [dropReturn]
    simp [dropped, ink '\r' (by decide)]
  · rw [dropReturn_eq_self h]

theorem filter_linesOfSegments (ink : Inked p) (ls : List Text) :
    (linesOfSegments ls).flatten.filter p = ls.flatten.filter p := by
  fun_induction linesOfSegments ls with
  | case1 => rfl
  | case2 last empty => simp_all
  | case3 last filled => rfl
  | case4 line rest more ih =>
      simp only [List.flatten_cons, List.filter_append, filter_dropReturn ink, ih]

theorem filter_lines (ink : Inked p) (t : Text) : (lines t).flatten.filter p = t.filter p :=
  (filter_linesOfSegments ink _).trans (filter_segments ink t)

/-- Lines that each keep their ink keep it together. -/
theorem filter_flatten_map {g : Text → Text} {ls : List Text}
    (h : ∀ l ∈ ls, l.filter p <+ (g l).filter p) :
    ls.flatten.filter p <+ (ls.map g).flatten.filter p := by
  induction ls with
  | nil => exact List.Sublist.slnil
  | cons l ls ih =>
      simp only [List.map_cons, List.flatten_cons, List.filter_append]
      exact (h l List.mem_cons_self).append (ih fun m hm => h m (List.mem_cons_of_mem _ hm))

end Text

/-! ## Steps that write marks -/

namespace Markdown

theorem sublist_escapeWhere (q : Char → Bool) (t : Text) : t <+ escapeWhere q t := by
  induction t with
  | nil => exact List.Sublist.slnil
  | cons c t ih =>
      have here : [c] <+ if q c then ['\\', c] else [c] := by
        split <;> simp
      exact here.append ih

theorem sublist_link (t href : Text) : t <+ link t href := by
  have inner : t <+ "[" ++ linkText t :=
    (sublist_escapeWhere _ t).trans (List.sublist_append_right _ _)
  simp only [link]
  exact ((inner.trans (List.sublist_append_left _ _)).trans
    (List.sublist_append_left _ _)).trans (List.sublist_append_left _ _)

theorem sublist_codeSpan (code : Text) : code <+ codeSpan code := by
  simp only [codeSpan]
  split
  · refine List.Sublist.trans ?_ (List.sublist_append_left _ _)
    exact (List.sublist_cons_self _ _).trans (List.sublist_append_right _ _)
  · exact (List.sublist_append_right _ _).trans (List.sublist_append_left _ _)

theorem sublist_escapeFenceOpener (line : Text) : line <+ escapeFenceOpener line := by
  simp only [escapeFenceOpener]
  split
  · calc line
      _ = line.takeWhile isSpace ++ line.dropWhile isSpace := List.takeWhile_append_dropWhile.symm
      _ <+ line.takeWhile isSpace ++ '\\' :: Text.trimStart line :=
          (List.Sublist.refl _).append (List.sublist_cons_self _ _)
  · exact List.Sublist.refl _

theorem filter_escapeFenceOpeners (ink : Inked p) (t : Text) :
    t.filter p <+ (escapeFenceOpeners t).filter p := by
  rw [escapeFenceOpeners, Text.filter_joinLines ink, ← Text.filter_segments ink t]
  exact Text.filter_flatten_map fun l _ => (sublist_escapeFenceOpener l).filter p

theorem filter_wrapLine (ink : Inked p) (opening closing line : Text) :
    line.filter p <+ (wrapLine opening closing line).filter p := by
  simp only [wrapLine]
  split
  · exact List.Sublist.refl _
  · rw [← Text.filter_trim ink line]
    apply List.Sublist.filter p
    exact ((List.sublist_append_right _ _).trans (List.sublist_append_left _ _)).trans
      (List.sublist_append_left _ _)

theorem filter_wrap (ink : Inked p) (opening closing t : Text) :
    t.filter p <+ (wrap opening closing t).filter p := by
  rw [wrap_eq_wrapLines, wrapLines, Text.filter_joinLines ink, ← Text.filter_segments ink t]
  exact Text.filter_flatten_map fun l _ => filter_wrapLine ink opening closing l

theorem filter_headingText (ink : Inked p) (level : Nat) (t : Text) :
    t.filter p <+ (headingText level t).filter p := by
  have trimmed : ((Text.segments t).map Text.trim).flatten.filter p = t.filter p := by
    rw [← Text.filter_segments ink t]
    induction Text.segments t with
    | nil => rfl
    | cons l ls ih => simp [Text.filter_trim ink, ih]
  have pieces : (((Text.segments t).map Text.trim).filter fun q => !q.isEmpty).flatten.filter p =
      t.filter p := by
    rw [List.flatten_filter_not_isEmpty, trimmed]
  simp only [headingText]
  split
  · next none =>
    rw [List.isEmpty_iff.1 none] at pieces
    rw [← pieces]
    exact List.Sublist.refl _
  · rw [← pieces, ← Text.filter_intercalate (by simp [ink ' ' (by decide)] : [' '].filter p = [])]
    apply List.Sublist.filter p
    exact (List.sublist_cons_self _ _).trans (List.sublist_append_right _ _)

theorem filter_codeBlock (ink : Inked p) (info code : Text) :
    code.filter p <+ (codeBlock info code).filter p := by
  have ends : ∀ c, (c == '\n' || c == '\r') = true → p c = false := by
    intro c h
    rcases (by simpa using h : c = '\n' ∨ c = '\r') with rfl | rfl
    · exact ink _ (by decide)
    · exact ink _ (by decide)
  rw [← Text.filter_dropEndWhile ends code]
  apply List.Sublist.filter p
  simp only [codeBlock]
  refine List.Sublist.trans ?_ (List.sublist_append_left _ _)
  exact (List.sublist_cons_self _ _).trans (List.sublist_append_right _ _)

theorem filter_quoteText (ink : Inked p) (t : Text) :
    t.filter p <+ (quoteText t).filter p := by
  rw [quoteText, Text.filter_joinLines ink, ← Text.filter_lines ink t]
  refine Text.filter_flatten_map fun l _ => List.Sublist.filter p ?_
  simp only [quoteLine]
  split
  · next empty => simp [List.isEmpty_iff.1 empty]
  · exact (List.sublist_cons_self _ _).trans (List.sublist_cons_self _ _)

theorem filter_boxText (ink : Inked p) (opening title t : Text) :
    t.filter p <+ (boxText opening title t).filter p := by
  have body : Text.trim t <+ if (Text.trim t).isEmpty then [] else ' ' :: Text.trim t := by
    split
    · next empty => simp [List.isEmpty_iff.1 empty]
    · exact List.sublist_cons_self _ _
  simp only [boxText]
  refine List.Sublist.trans ?_ (filter_quoteText ink _)
  rw [← Text.filter_trim ink t]
  exact (body.trans (List.sublist_append_right _ _)).filter p

theorem filter_indentLine (width : Nat) (line : Text) :
    line.filter p <+ (indentLine width line).filter p := by
  apply List.Sublist.filter p
  simp only [indentLine]
  split
  · next empty => simp [List.isEmpty_iff.1 empty]
  · exact List.sublist_append_right _ _

theorem filter_markLines (marker : Text) (ls : List Text) :
    ls.flatten.filter p <+ (markLines marker ls).flatten.filter p := by
  cases ls with
  | nil => simp
  | cons l ls =>
      simp only [markLines, List.flatten_cons, List.filter_append]
      exact (List.sublist_append_right _ _).append
        (Text.filter_flatten_map fun m _ => filter_indentLine marker.length m)

/-- `tidy` removes white space only, and adds line feeds only. -/
theorem filter_tidyLines (ink : Inked p) (place : Scan) (ls : List Text) :
    (tidyLines place ls).flatten.filter p = ls.flatten.filter p := by
  fun_induction tidyLines place ls with
  | case1 => rfl
  | case2 fence line rest ih => simp [ih]
  | case3 place line rest _ blank ih => simp [ih, Text.filter_of_isBlank ink blank]
  | case4 place line rest notCode text ih =>
      cases place <;> simp [Scan.separator, ih]

theorem filter_tidy (ink : Inked p) (t : Text) : (tidy t).filter p = t.filter p := by
  rw [tidy, Text.filter_joinLines ink, filter_tidyLines ink, Text.filter_lines ink]

end Markdown

end

/-! ## Visible characters -/

namespace Markdown

/-- A character that is no white space. -/
def isVisible (c : Char) : Bool := !isSpace c

theorem inked_isVisible : Inked isVisible := fun c h => by simp [isVisible, h]

theorem isBlank_iff_filter (t : Text) : Text.isBlank t = true ↔ t.filter isVisible = [] := by
  simp [Text.isBlank, isVisible]

/-- Texts of the same ink are blank together. -/
theorem isBlank_congr {s t : Text} (same : s.filter isVisible = t.filter isVisible) :
    Text.isBlank s = Text.isBlank t := by
  rw [Bool.eq_iff_iff, isBlank_iff_filter, isBlank_iff_filter, same]

/-- A text with the ink of one that is not blank is not blank. -/
theorem not_isBlank_of_sublist {s t : Text} (text : Text.isBlank s = false)
    (kept : List.Sublist (s.filter isVisible) (t.filter isVisible)) : Text.isBlank t = false := by
  rw [Bool.eq_false_iff, ne_eq, isBlank_iff_filter] at text ⊢
  intro none
  exact text (List.sublist_nil.1 (none ▸ kept))

end Markdown

end Wikidown
