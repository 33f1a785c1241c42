/-
# Wikidown.Proofs.Seams -- two texts with blank lines between them

`tidy` looks ahead for the end of a code block, so a text may be cleaned otherwise once another
one follows it: a fence that nothing closed may find a closing line there.  `AllClosed ls` says
that the lines need nothing of the kind: wherever the scan stands outside of code, a line that
opens a code block has a later line that closes it.  That leaves no loose fence
(`looseFences_eq_nil_iff`), so the scan goes through the lines as if nothing followed, ends
outside of code, and waits behind the blank lines at the seam as it does at the start
(`run_blanks`).

The lines of the whole are those of the two texts with blank lines between
(`exists_lines_seam`), and with that `tidy_seam` is the main statement: clean texts are put
together as they are, with one blank line in place of whatever stood at the seam.
-/
import Wikidown.Proofs.BlankLines

namespace Wikidown.Markdown

set_option autoImplicit false

/-! ## Lines that close what they open -/

/-- Each line that opens a code block where the scan stands outside of one has a later line that
closes it. -/
def AllClosed (ls : List Text) : Prop :=
  ∀ before line after fence, ls = before ++ line :: after →
    (Scan.start.run before (line :: after)).inCode = false → Fence.open? line = some fence →
      after.any fence.isClosedBy = true

namespace Scan

theorem looseFences_eq_nil_iff_of_run {place : Scan} {ls : List Text} :
    place.looseFences ls = [] ↔
      ∀ before line after fence, ls = before ++ line :: after →
        (place.run before (line :: after)).inCode = false → Fence.open? line = some fence →
          after.any fence.isClosedBy = true := by
  induction ls generalizing place with
  | nil => simp [looseFences]
  | cons l ls ih =>
      constructor
      · intro none before line after fence cut out opens
        cases before with
        | nil =>
            obtain ⟨rfl, rfl⟩ := List.cons.inj cut
            have opened : place.opened? l = some fence := by
              rw [Scan.opened?, show place.inCode = false from out]
              exact opens
            cases closed : ls.any fence.isClosedBy with
            | true => rfl
            | false =>
                have loose : fence ∈ place.looseFences (l :: ls) :=
                  mem_looseFences_cons.2 (.inl ⟨opened, closed⟩)
                rw [none] at loose
                cases loose
        | cons first before =>
            obtain ⟨rfl, rfl⟩ := List.cons.inj cut
            have later : (place.next l (before ++ line :: after)).looseFences
                (before ++ line :: after) = [] := (List.append_eq_nil_iff.1 none).2
            exact ih.1 later before line after fence rfl out opens
      · intro closed
        refine List.eq_nil_iff_forall_not_mem.2 fun fence loose => ?_
        rcases mem_looseFences_cons.1 loose with ⟨opened, unclosed⟩ | later
        · obtain ⟨out, opens⟩ := opened?_eq_some opened
          rw [closed [] l ls fence rfl out opens] at unclosed
          cases unclosed
        · have none : (place.next l ls).looseFences ls = [] := by
            refine ih.2 fun before line after fence cut out opens => ?_
            subst cut
            exact closed (l :: before) line after fence rfl out opens
          rw [none] at later
          cases later

end Scan

/-- Lines close what they open exactly if none of their fences is loose. -/
theorem looseFences_eq_nil_iff {ls : List Text} :
    Scan.start.looseFences ls = [] ↔ AllClosed ls :=
  Scan.looseFences_eq_nil_iff_of_run

namespace Scan

/-! ## The scan at the seam -/

/-- A scan that has kept a line is no longer at its start. -/
theorem run_ne_start_of_keepAll {place : Scan} {ls following : List Text}
    (kept : place.keepAll ls following ≠ []) : place.run ls following ≠ start := by
  induction ls generalizing place with
  | nil => exact absurd rfl kept
  | cons l ls ih =>
      cases place with
      | start =>
          simp only [keepAll, keep, next, run] at kept ⊢
          split at kept
          · next blank =>
            simp only [blank, if_true] at kept ⊢
            exact ih kept
          · next text =>
            simp only [text, Bool.false_eq_true, if_false]
            exact run_ne_start (after_ne_start l _) ls following
      | _ => exact run_ne_start (next_ne_start (by simp) l _) ls following

theorem next_of_isBlank {place : Scan} (begun : place ≠ start) (out : place.inCode = false)
    {l : Text} (blank : Text.isBlank l = true) (following : List Text) :
    place.next l following = gap ∧ place.keep l = [] := by
  cases place with
  | start => exact absurd rfl begun
  | code fence => cases out
  | _ => simp [next, keep, blank, Scan.blank]

/-- Behind blank lines the scan waits, and it has kept none of them. -/
theorem run_blanks {place : Scan} (begun : place ≠ start) (out : place.inCode = false)
    {blanks : List Text} (ne : blanks ≠ []) (blank : ∀ l ∈ blanks, Text.isBlank l = true)
    (following : List Text) :
    place.run blanks following = gap ∧ place.keepAll blanks following = [] := by
  induction blanks generalizing place with
  | nil => exact absurd rfl ne
  | cons l blanks ih =>
      obtain ⟨behind, kept⟩ :=
        next_of_isBlank begun out (blank l List.mem_cons_self) (blanks ++ following)
      simp only [run, keepAll, behind, kept, List.nil_append]
      by_cases last : blanks = []
      · subst last
        exact ⟨rfl, rfl⟩
      · exact ih (by simp) rfl last fun m mem => blank m (List.mem_cons_of_mem _ mem)

end Scan

/-- Lines are cleaned on either side of blank lines as they are on their own. -/
theorem tidyLines_seam {ls rest blanks : List Text} (closed : AllClosed ls) (ne : blanks ≠ [])
    (blank : ∀ l ∈ blanks, Text.isBlank l = true) (kept : tidyLines .start ls ≠ []) :
    tidyLines .start (ls ++ (blanks ++ rest)) =
      tidyLines .start ls ++ Scan.gap.separated (tidyLines .start rest) := by
  simp only [Scan.tidyLines_eq_keepAll] at kept ⊢
  have noLoose : ∀ fence ∈ Scan.start.looseFences ls,
      (blanks ++ rest).any fence.isClosedBy = false := by
    rw [looseFences_eq_nil_iff.2 closed]
    exact fun _ mem => absurd mem List.not_mem_nil
  have out : (Scan.start.run ls []).inCode = false :=
    Scan.inCode_run fun fence here => by cases here
  have begun : Scan.start.run ls [] ≠ .start := Scan.run_ne_start_of_keepAll kept
  obtain ⟨same, ended, -⟩ := Scan.alone noLoose
  obtain ⟨behind, nothing⟩ := Scan.run_blanks begun out ne blank rest
  rw [Scan.keepAll_append, List.append_nil, same, ended, Scan.keepAll_append, List.append_nil,
    behind, nothing, List.nil_append, Scan.keepAll_of_waits (.inr rfl)]

/-! ## The lines of the whole -/

/-- Once a line feed ends the last line of a text, its segments are its lines, but for an empty
one at the end. -/
theorem exists_map_dropReturn_segments {t : Text} (noReturn : t.getLast? ≠ some '\r') :
    ∃ blanks, (Text.segments t).map Text.dropReturn = Text.lines t ++ blanks ∧
      ∀ l ∈ blanks, Text.isBlank l = true := by
  obtain ⟨ls, last, cut, whole⟩ := Text.exists_terminated t
  have lines : Text.lines t = ls.map Text.dropReturn ++ Text.linesOfSegments [last] := by
    rw [Text.lines, cut, Text.linesOfSegments_append ls (List.cons_ne_nil _ _)]
  by_cases empty : last = []
  · refine ⟨[[]], ?_, by simp [Text.isBlank]⟩
    rw [lines, cut, empty]
    simp [Text.linesOfSegments, Text.dropReturn]
  · have ends : last.getLast? = t.getLast? := by
      rw [whole, List.getLast?_append, List.getLast?_eq_some_getLast empty, Option.some_or]
    refine ⟨[], ?_, by simp⟩
    rw [lines, cut, List.map_append, List.map_singleton, Text.dropReturn_eq_self (ends ▸ noReturn)]
    simp [Text.linesOfSegments, empty]

/-- The lines of two texts and of white space between them. -/
theorem exists_lines_seam {a b gap : Text} (noReturn : a.getLast? ≠ some '\r')
    (blank : Text.isBlank gap = true) :
    ∃ blanks, blanks ≠ [] ∧ (∀ l ∈ blanks, Text.isBlank l = true) ∧
      Text.lines (a ++ '\n' :: (gap ++ '\n' :: b)) = Text.lines a ++ (blanks ++ Text.lines b) := by
  obtain ⟨tail, front, blankTail⟩ := exists_map_dropReturn_segments noReturn
  refine ⟨tail ++ (Text.segments gap).map Text.dropReturn, ?_, ?_, ?_⟩
  · simp [Text.segments_ne_nil]
  · intro l mem
    rcases List.mem_append.1 mem with mem | mem
    · exact blankTail l mem
    · obtain ⟨m, inGap, rfl⟩ := List.mem_map.1 mem
      rw [Text.isBlank_dropReturn]
      exact Text.isBlank_of_mem_segments inGap blank
  · have cut : Text.segments (a ++ '\n' :: (gap ++ '\n' :: b)) =
        Text.segments a ++ Text.segments gap ++ Text.segments b := by
      rw [Text.segments_append_newline, Text.segments_append_newline, List.append_assoc]
    have behind : Text.linesOfSegments (Text.segments b) = Text.lines b := rfl
    rw [Text.lines, cut, Text.linesOfSegments_append _ (Text.segments_ne_nil b), behind,
      List.map_append, front, List.append_assoc, List.append_assoc, List.append_assoc]

/-! ## The main statement -/

/-- **Cleanup goes text by text.**  Where a text closes every code block that it opens, and what
follows is set off by at least one blank line, each of the two is cleaned as it is on its own, and
one blank line stands between them.  The gap may hold any white space, line feeds included;
white space behind the last line of the first text or before the first of the second is part of
that text.  A carriage return matters only at the end of the first text, where a line feed
would take it. -/
theorem tidy_seam {a b gap : Text} (closed : AllClosed (Text.lines a))
    (noReturn : a.getLast? ≠ some '\r') (blank : Text.isBlank gap = true) (keptA : tidy a ≠ [])
    (keptB : tidy b ≠ []) :
    tidy (a ++ '\n' :: (gap ++ '\n' :: b)) = tidy a ++ '\n' :: '\n' :: tidy b := by
  obtain ⟨blanks, ne, blankLines, lines⟩ := exists_lines_seam (b := b) noReturn blank
  have front : tidyLines .start (Text.lines a) ≠ [] := mt (tidy_eq_nil_iff a).2 keptA
  have behind : tidyLines .start (Text.lines b) ≠ [] := mt (tidy_eq_nil_iff b).2 keptB
  have parted : Scan.gap.separated (tidyLines .start (Text.lines b)) =
      [[]] ++ tidyLines .start (Text.lines b) := by
    simp [Scan.separated, Scan.separator, behind]
  have blankLine : Text.joinLines [[]] = [] := rfl
  rw [tidy, lines, tidyLines_seam closed ne blankLines front, parted,
    Text.joinLines_append front (by simp), Text.joinLines_append (List.cons_ne_nil _ _) behind,
    blankLine]
  rfl

/-- A code block with blank lines of its own, and behind a gap a fence that nothing closes. -/
theorem tidy_seam_fences :
    AllClosed (Text.lines "> ```\n\n\n> ```\nx\n\n") ∧
      ("> ```\n\n\n> ```\nx\n\n".toList).getLast? ≠ some '\r' ∧
      Text.isBlank " \n\t\n" = true ∧
      tidy "> ```\n\n\n> ```\nx\n\n" ≠ [] ∧ tidy "\n```\n\n\n y" ≠ [] ∧
      tidy ("> ```\n\n\n> ```\nx\n\n".toList ++ '\n' :: (" \n\t\n".toList ++ '\n' ::
          "\n```\n\n\n y".toList)) =
        tidy "> ```\n\n\n> ```\nx\n\n" ++ '\n' :: '\n' :: tidy "\n```\n\n\n y" := by
  have closed : AllClosed (Text.lines "> ```\n\n\n> ```\nx\n\n") :=
    looseFences_eq_nil_iff.1 (by decide)
  have noReturn : ("> ```\n\n\n> ```\nx\n\n".toList).getLast? ≠ some '\r' := by decide
  have blank : Text.isBlank " \n\t\n" = true := by decide
  have keptA : tidy "> ```\n\n\n> ```\nx\n\n" ≠ [] := by decide
  have keptB : tidy "\n```\n\n\n y" ≠ [] := by decide
  exact ⟨closed, noReturn, blank, keptA, keptB, tidy_seam closed noReturn blank keptA keptB⟩

end Wikidown.Markdown
