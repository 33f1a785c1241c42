/-
# Wikidown.Proofs.SteadyLines -- lines that stay as they are behind markers and quote marks

What stands in a list item or in a quote is written behind marks, read as lines again and
cleaned again, once for each list and quote around it.  `Lined ls` says that the lines are
those of the text they join to, and `Steady ls` that cleaning keeps them: none is blank, or
they are a code block behind list markers and no quote mark.

Both go through the marks of an item (`Lined.mark`, `Steady.mark`) and of a quote
(`Lined.quote`, `Steady.quote`), so that they hold at any depth.  A list marker in front of
the opening fence is dropped when a fence is looked for, and so are the spaces in front of
the other lines; behind a quote mark no line is blank.
-/
import Wikidown.Proofs.BlankLines
import Wikidown.Proofs.CodeBlocks
import Wikidown.Proofs.Cuts

namespace Wikidown.Markdown

set_option autoImplicit false

/-! ## Marks in front of a line -/

/-- A marker starts with a hyphen or a digit. -/
theorem exists_first_itemMarker (ordered : Bool) (number : Nat) :
    ∃ c rest, itemMarker ordered number = c :: rest ∧ isSpace c = false ∧ c ≠ '>' := by
  cases ordered with
  | false => exact ⟨'-', [' '], rfl, by decide, by decide⟩
  | true =>
      cases eq : Nat.toDigits 10 number with
      | nil => exact absurd eq Nat.toDigits_ne_nil
      | cons c rest =>
          have digit : c.isDigit = true :=
            Nat.isDigit_of_mem_toDigits (by decide) (by decide) (eq ▸ List.mem_cons_self)
          refine ⟨c, rest ++ ['.', ' '], by simp [itemMarker, eq], ?_, ?_⟩
          · rw [Char.isDigit_iff_toNat] at digit
            have zero : '0'.toNat = 48 := rfl
            have nine : '9'.toNat = 57 := rfl
            simp only [isSpace, Bool.or_eq_false_iff, Bool.and_eq_false_iff,
              decide_eq_false_iff_not, beq_eq_false_iff_ne]
            omega
          · rintro rfl
            exact absurd digit (by decide)

/-- The rest of a number and the full stop behind it are dropped. -/
theorem dropMarkersFrom_digits {digits : Text} (all : ∀ c ∈ digits, c.isDigit = true)
    (whole l : Text) :
    dropMarkersFrom (some whole) (digits ++ '.' :: ' ' :: l) = dropMarkers l := by
  induction digits with
  | nil => rfl
  | cons c digits ih =>
      have here := all c List.mem_cons_self
      have later := ih fun d mem => all d (List.mem_cons_of_mem _ mem)
      rw [List.cons_append, dropMarkersFrom, if_pos here]
      exact later

/-- The marker of an item is dropped. -/
theorem dropMarkers_itemMarker (ordered : Bool) (number : Nat) (l : Text) :
    dropMarkers (itemMarker ordered number ++ l) = dropMarkers l := by
  cases ordered with
  | false => rfl
  | true =>
      have all : ∀ c ∈ Nat.toDigits 10 number, c.isDigit = true := fun c mem =>
        Nat.isDigit_of_mem_toDigits (by decide) (by decide) mem
      obtain ⟨c, rest, first, visible, -⟩ := exists_first_itemMarker true number
      cases eq : Nat.toDigits 10 number with
      | nil => exact absurd eq Nat.toDigits_ne_nil
      | cons d digits =>
          rw [eq] at all
          have digit := all d List.mem_cons_self
          have shape : itemMarker true number ++ l = d :: (digits ++ '.' :: ' ' :: l) := by
            simp [itemMarker, eq]
          obtain rfl : d = c := by
            rw [first] at shape
            exact (List.cons.inj shape).1.symm
          -- the first digit is kept in mind, in case that no marker comes of it
          rw [shape, dropMarkers, dropMarkersFrom]
          simp only [visible, digit, Bool.false_eq_true, if_false, if_true]
          exact dropMarkersFrom_digits (fun c mem => all c (List.mem_cons_of_mem _ mem)) _ l

/-- Spaces in front of a line make no difference to its quote marks. -/
theorem dropQuotes_spaces (limit width : Nat) (l : Text) :
    dropQuotes limit (List.replicate width ' ' ++ l) = dropQuotes limit l := by
  induction width with
  | zero => rfl
  | succ width ih =>
      have space : isSpace ' ' = true := by decide
      rw [List.replicate_succ, List.cons_append, dropQuotes.eq_def]
      simp only [space, if_true, ih]

/-- List markers are looked for behind white space. -/
theorem dropMarkers_dropQuotes_zero (l : Text) : dropMarkers (dropQuotes 0 l) = dropMarkers l := by
  induction l with
  | nil => rfl
  | cons c l ih =>
      cases space : isSpace c with
      | true =>
          have dropped : dropMarkers (c :: l) = dropMarkers l := by
            rw [dropMarkers, dropMarkersFrom, if_pos space]
            rfl
          rw [dropQuotes, if_pos space, dropped]
          exact ih
      | false =>
          rw [dropQuotes, space]
          split
          · contradiction
          · split <;> rfl

namespace Fence

theorem quotes_of_open? {l : Text} {fence : Fence} (h : open? l = some fence) :
    fence.quotes = quoteDepth l := by
  unfold open? at h
  simp only at h
  split at h
  · rw [← Option.some.inj h]
  · cases h

/-- A marker in front of a fence without quote marks leaves it the fence that it is. -/
theorem open?_mark {l : Text} {ticks : Nat} (h : open? l = some ⟨ticks, 0⟩) (ordered : Bool)
    (number : Nat) : open? (itemMarker ordered number ++ l) = some ⟨ticks, 0⟩ := by
  obtain ⟨c, rest, first, visible, unquoted⟩ := exists_first_itemMarker ordered number
  have none : quoteDepth l = 0 := (quotes_of_open? h).symm
  have none' : quoteDepth (itemMarker ordered number ++ l) = 0 := by
    rw [first, List.cons_append, quoteDepth, visible]
    simp [unquoted]
  have same : dropMarkers (dropQuotes 0 (itemMarker ordered number ++ l)) =
      dropMarkers (dropQuotes 0 l) := by
    rw [dropMarkers_dropQuotes_zero, dropMarkers_dropQuotes_zero, dropMarkers_itemMarker]
  rw [← h]
  simp only [open?, none, none', same]

/-- Whether a line closes a block does not depend on the spaces in front of it. -/
theorem isClosedBy_indentLine (fence : Fence) (width : Nat) (l : Text) :
    fence.isClosedBy (indentLine width l) = fence.isClosedBy l := by
  unfold indentLine
  split
  · next empty => rw [List.isEmpty_iff.1 empty]
  · simp only [isClosedBy, dropQuotes_spaces]

end Fence

theorem isBlank_indentLine (width : Nat) (l : Text) :
    Text.isBlank (indentLine width l) = Text.isBlank l := by
  unfold indentLine
  split
  · next empty => rw [List.isEmpty_iff.1 empty]
  · have spaces : (List.replicate width ' ').all isSpace = true := by
      rw [List.all_eq_true]
      intro c mem
      rw [List.eq_of_mem_replicate mem]
      decide
    rw [Text.isBlank, List.all_append, spaces, Bool.true_and]
    rfl

/-- No line behind a quote mark is blank. -/
theorem isBlank_quoteLine (l : Text) : Text.isBlank (quoteLine l) = false := by
  unfold quoteLine
  split <;> rfl

/-! ## Lines of their text -/

/-- What is the same whether it is cut off at a line feed or read as a line. -/
structure OneLine (l : Text) : Prop where
  noBreak : '\n' ∉ l
  noReturn : l.getLast? ≠ some '\r'

theorem OneLine.append {a b : Text} (ha : OneLine a) (hb : OneLine b) : OneLine (a ++ b) where
  noBreak := by
    rw [List.mem_append]
    rintro (mem | mem)
    · exact ha.noBreak mem
    · exact hb.noBreak mem
  noReturn := by
    rw [List.getLast?_append]
    cases last : b.getLast? with
    | none => exact ha.noReturn
    | some c =>
        rw [← last, Option.or_of_isSome (by rw [last]; rfl)]
        exact hb.noReturn

theorem oneLine_itemMarker (ordered : Bool) (number : Nat) :
    OneLine (itemMarker ordered number) := by
  cases ordered with
  | false =>
      show OneLine ['-', ' ']
      exact ⟨by decide, by decide⟩
  | true =>
      refine ⟨?_, by simp [itemMarker]⟩
      intro mem
      simp only [itemMarker, if_true, List.mem_append] at mem
      rcases mem with digit | mark
      · exact absurd (Nat.isDigit_of_mem_toDigits (by decide) (by decide) digit) (by decide)
      · revert mark
        decide

theorem oneLine_spaces (width : Nat) : OneLine (List.replicate width ' ') := by
  refine ⟨fun mem => ?_, fun last => ?_⟩
  · exact absurd (List.eq_of_mem_replicate mem) (by decide)
  · exact absurd (List.eq_of_mem_replicate (List.mem_of_getLast? last)) (by decide)

theorem oneLine_indentLine {l : Text} (h : OneLine l) (width : Nat) :
    OneLine (indentLine width l) := by
  unfold indentLine
  split
  · exact ⟨by simp, by simp⟩
  · exact (oneLine_spaces width).append h

theorem oneLine_quoteLine {l : Text} (h : OneLine l) : OneLine (quoteLine l) := by
  unfold quoteLine
  split
  · exact ⟨by decide, by decide⟩
  · exact OneLine.append (a := ['>', ' ']) ⟨by decide, by decide⟩ h

/-- The lines are those of the text that they join to. -/
structure Lined (ls : List Text) : Prop where
  filled : ls ≠ []
  each : ∀ l ∈ ls, OneLine l
  ends : ls.getLast? ≠ some []

namespace Lined

variable {ls : List Text}

theorem segments_joinLines (h : Lined ls) : Text.segments (Text.joinLines ls) = ls :=
  Text.segments_joinLines h.filled fun l mem => (h.each l mem).noBreak

theorem lines_joinLines (h : Lined ls) : Text.lines (Text.joinLines ls) = ls := by
  have cut := h.segments_joinLines
  rw [Text.lines_eq_segments, cut]
  · rw [cut]
    exact fun l mem => (h.each l mem).noReturn
  · rw [cut]
    exact h.ends

theorem isEmpty_joinLines (h : Lined ls) : (Text.joinLines ls).isEmpty = false := by
  rw [Bool.eq_false_iff]
  intro empty
  have cut := h.segments_joinLines
  rw [List.isEmpty_iff.1 empty, Text.segments_nil] at cut
  exact h.ends (by rw [← cut]; rfl)

theorem mark (h : Lined ls) (ordered : Bool) (number : Nat) :
    Lined (markLines (itemMarker ordered number) ls) := by
  have marker := oneLine_itemMarker ordered number
  cases ls with
  | nil => exact absurd rfl h.filled
  | cons first later =>
      refine ⟨by simp [markLines], ?_, ?_⟩
      · intro l mem
        rw [markLines, List.mem_cons, List.mem_map] at mem
        rcases mem with rfl | ⟨m, mem, rfl⟩
        · exact marker.append (h.each first List.mem_cons_self)
        · exact oneLine_indentLine (h.each m (List.mem_cons_of_mem _ mem)) _
      · have ends := h.ends
        rw [List.getLast?_cons, Ne, Option.some.injEq] at ends
        rw [markLines, List.getLast?_cons, List.getLast?_map, Ne, Option.some.injEq]
        cases last : later.getLast? with
        | none =>
            rw [last] at ends
            exact List.append_ne_nil_of_right_ne_nil _ ends
        | some l =>
            rw [last] at ends
            have ends : l ≠ [] := ends
            simp [indentLine, ends]

theorem quote (h : Lined ls) : Lined (ls.map quoteLine) where
  filled := by simpa using h.filled
  each := by
    intro l mem
    obtain ⟨m, here, rfl⟩ := List.mem_map.1 mem
    exact oneLine_quoteLine (h.each m here)
  ends := by
    intro last
    have text : Text.isBlank ([] : Text) = false := by
      obtain ⟨m, -, eq⟩ := List.mem_map.1 (List.mem_of_getLast? last)
      rw [← eq]
      exact isBlank_quoteLine m
    cases text

end Lined

/-! ## Lines that cleaning keeps -/

/-- No line is blank, or the lines are a code block without quote marks in front of it. -/
inductive Steady : List Text → Prop where
  | text {ls : List Text} (filled : ∀ l ∈ ls, Text.isBlank l = false) : Steady ls
  | code {opening closing : Text} {inside : List Text} {ticks : Nat}
      (opens : Fence.open? opening = some ⟨ticks, 0⟩)
      (stays : ∀ l ∈ inside, Fence.isClosedBy ⟨ticks, 0⟩ l = false)
      (closes : Fence.isClosedBy ⟨ticks, 0⟩ closing = true) :
      Steady (opening :: (inside ++ [closing]))

theorem after_ne_gap (line : Text) (following : List Text) : Scan.after line following ≠ .gap := by
  unfold Scan.after
  split
  · split <;> simp
  · simp

/-- Lines that are not blank are kept wherever no gap stands in front of them. -/
theorem tidyLines_of_text {place : Scan} (joined : place ≠ .gap) {ls : List Text}
    (filled : ∀ l ∈ ls, Text.isBlank l = false) : tidyLines place ls = ls := by
  induction ls generalizing place with
  | nil =>
      cases place <;> rfl
  | cons l ls ih =>
      have text := filled l List.mem_cons_self
      have others : ∀ m ∈ ls, Text.isBlank m = false := fun m mem =>
        filled m (List.mem_cons_of_mem _ mem)
      cases place with
      | gap => exact absurd rfl joined
      | code fence =>
          have next : (if fence.isClosedBy l then Scan.line else .code fence) ≠ .gap := by
            split <;> simp
          rw [tidyLines, ih next others]
      | start =>
          rw [tidyLines_text rfl text, ih (after_ne_gap l ls) others]
          rfl
      | line =>
          rw [tidyLines_text rfl text, ih (after_ne_gap l ls) others]
          rfl

/-- A line of text is clean. -/
theorem tidy_of_line {t : Text} (oneLine : '\n' ∉ t) (text : Text.isBlank t = false) : tidy t = t := by
  have filled : t.isEmpty = false := by
    cases t with
    | nil => cases text
    | cons c t => rfl
  have lines : Text.lines t = [t] := by
    simp [Text.lines, Text.segments_of_notMem oneLine, Text.linesOfSegments, filled]
  rw [tidy, lines, tidyLines_of_text (by simp) (by simpa using text)]
  exact List.intercalate_singleton

namespace Steady

variable {ls : List Text}

theorem tidyLines_eq (h : Steady ls) : tidyLines .start ls = ls := by
  cases h with
  | text filled => exact tidyLines_of_text (by simp) filled
  | @code opening closing inside ticks opens stays closes =>
      have behind : Scan.after opening (inside ++ [closing]) = .code ⟨ticks, 0⟩ := by
        simp [Scan.after, opens, closes]
      rw [tidyLines_text rfl (Fence.isBlank_of_open? opens), behind,
        tidyLines_code stays closes []]
      rfl

/-- Steady lines are the clean form of the text that they join to. -/
theorem tidy_joinLines (h : Steady ls) (lined : Lined ls) :
    tidy (Text.joinLines ls) = Text.joinLines ls := by
  rw [tidy, lined.lines_joinLines, h.tidyLines_eq]

theorem mark (h : Steady ls) (lined : Lined ls) (ordered : Bool) (number : Nat) :
    Steady (markLines (itemMarker ordered number) ls) := by
  cases h with
  | text filled =>
      -- neither a marker nor spaces make a line blank
      apply Steady.text
      intro l mem
      cases ls with
      | nil => exact absurd rfl lined.filled
      | cons first later =>
          rw [markLines, List.mem_cons, List.mem_map] at mem
          rcases mem with rfl | ⟨m, mem, rfl⟩
          · have text : first.all isSpace = false := filled first List.mem_cons_self
            rw [Text.isBlank, List.all_append, text, Bool.and_false]
          · rw [isBlank_indentLine]
            exact filled m (List.mem_cons_of_mem _ mem)
  | @code opening closing inside ticks opens stays closes =>
      -- the marker stands in front of the fence, spaces in front of every other line
      rw [markLines, List.map_append, List.map_singleton]
      apply Steady.code (Fence.open?_mark opens ordered number)
      · intro l mem
        obtain ⟨m, here, rfl⟩ := List.mem_map.1 mem
        rw [Fence.isClosedBy_indentLine]
        exact stays m here
      · rw [Fence.isClosedBy_indentLine]
        exact closes

/-- Behind quote marks any lines are steady. -/
theorem quote (ls : List Text) : Steady (ls.map quoteLine) := by
  apply Steady.text
  intro l mem
  obtain ⟨m, -, rfl⟩ := List.mem_map.1 mem
  exact isBlank_quoteLine m

end Steady

/-! ## A code block that names its language -/

variable {label code : Text}

/-- A name without backticks behind a fence leaves it the fence that it is. -/
theorem open?_ticks_append {n : Nat} (enough : 3 ≤ n) (noTick : tick ∉ label) :
    Fence.open? (ticks n ++ label) = some ⟨n, 0⟩ := by
  -- with one backtick in sight, no quote mark and no marker is looked for behind it
  obtain ⟨m, rfl⟩ : ∃ m, n = m + 1 := ⟨n - 1, by omega⟩
  have all : ∀ c ∈ ticks (m + 1), (c == tick) = true := by
    intro c mem
    rw [beq_iff_eq]
    exact List.eq_of_mem_replicate mem
  have ends : Text.EndsRun (· == tick) label := by
    intro c head
    rw [beq_eq_false_iff_ne]
    rintro rfl
    exact noTick (List.mem_of_head? head)
  have length : (ticks (m + 1)).length = m + 1 := List.length_replicate
  have unquoted : quoteDepth (ticks (m + 1) ++ label) = 0 := rfl
  have body : dropMarkers (dropQuotes 0 (ticks (m + 1) ++ label)) = ticks (m + 1) ++ label := rfl
  simp only [Fence.open?, unquoted, body, Text.takeWhile_run all ends, length]
  rw [List.drop_left' length, if_pos ⟨enough, noTick⟩]

theorem lined_labelledLines (noBreak : '\n' ∉ label) (trimmed : Text.trim label = label)
    (plain : '\r' ∉ code) : Lined (labelledLines label code) where
  filled := by simp [labelledLines]
  each := by
    have fence : OneLine (codeFence code) :=
      ⟨notMem_codeFence (by decide) code,
        fun last => notMem_codeFence (by decide) code (List.mem_of_getLast? last)⟩
    have name : OneLine label := by
      refine ⟨noBreak, fun last => ?_⟩
      rw [← trimmed] at last
      exact absurd (Text.isSpace_getLast?_trim last) (by decide)
    intro l mem
    rw [labelledLines, List.mem_cons, List.mem_append, List.mem_singleton] at mem
    rcases mem with rfl | mem | rfl
    · exact fence.append name
    · refine ⟨Text.newline_notMem_of_mem_segments mem, fun last => plain ?_⟩
      exact (Text.mem_of_mem_segments mem _ (List.mem_of_getLast? last)).1
    · exact fence
  ends := by
    rw [labelledLines, List.getLast?_cons, List.getLast?_append]
    simp [codeFence, ticks]

theorem steady_labelledLines (noTick : tick ∉ label) (code : Text) :
    Steady (labelledLines label code) := by
  apply Steady.code (open?_ticks_append (by omega) noTick)
  · intro l mem
    exact isClosedBy_line_of_code mem
  · show (fenceOf code).isClosedBy (codeFence code) = true
    rw [isClosedBy_codeFence]
    simp

end Wikidown.Markdown
