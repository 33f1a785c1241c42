/-
# Wikidown.Proofs.Edges -- white space at the edges of a page

Every part of a page ends with a visible character, and every part but a list starts with
one.  A list starts with the marker of its first item, unless a list stands before it: that
list has no item to stand under and is indented all the same.

`firstMargin?` reads off a forest the number of spaces that its page starts with, `none` if
nothing shows: it is zero but for lists that start with a list, each of which adds two.
`Framed margin? t` says that a text starts behind that margin and ends visibly; it goes
through items, quotes, lists and `tidy`, so that it holds of a page (`framed_render`).  The
main statement is `fragment_edges`: a page is that many spaces and a text without white space
at its edges, and so is its own trim exactly if there is no margin.
-/
import Wikidown.Page.Conversion
import Wikidown.Proofs.KeptText
import Wikidown.Proofs.SteadyLines
import Wikidown.Proofs.Visible

namespace Wikidown

set_option autoImplicit false

/-! ## Starts and ends of texts -/

namespace Text

/-- A text starts with some spaces and a visible character behind them. -/
def OpensAt (width : Nat) (t : Text) : Prop :=
  ∃ c rest, t = List.replicate width ' ' ++ c :: rest ∧ isSpace c = false

/-- A text ends with a visible character. -/
def EndsVisibly (t : Text) : Prop := ∃ front c, t = front ++ [c] ∧ isSpace c = false

theorem opensAt_zero_cons {c : Char} (rest : Text) (visible : isSpace c = false) :
    OpensAt 0 (c :: rest) := ⟨c, rest, rfl, visible⟩

theorem OpensAt.append {width : Nat} {t : Text} (h : OpensAt width t) (behind : Text) :
    OpensAt width (t ++ behind) := by
  obtain ⟨c, rest, rfl, visible⟩ := h
  exact ⟨c, rest ++ behind, by simp, visible⟩

theorem EndsVisibly.append {t : Text} (h : EndsVisibly t) (before : Text) :
    EndsVisibly (before ++ t) := by
  obtain ⟨front, c, rfl, visible⟩ := h
  exact ⟨before ++ front, c, by simp, visible⟩

theorem EndsVisibly.cons {t : Text} (h : EndsVisibly t) (c : Char) : EndsVisibly (c :: t) :=
  h.append [c]

theorem OpensAt.not_isBlank {width : Nat} {t : Text} (h : OpensAt width t) : isBlank t = false := by
  obtain ⟨c, rest, rfl, visible⟩ := h
  simp [isBlank, visible]

theorem EndsVisibly.not_isBlank {t : Text} (h : EndsVisibly t) : isBlank t = false := by
  obtain ⟨front, c, rfl, visible⟩ := h
  simp [isBlank, visible]

theorem EndsVisibly.ne_nil {t : Text} (h : EndsVisibly t) : t ≠ [] := by
  obtain ⟨front, c, rfl, -⟩ := h
  simp

theorem endsVisibly_of_getLast? {t : Text} (text : t ≠ [])
    (h : ∀ c, t.getLast? = some c → isSpace c = false) : EndsVisibly t := by
  obtain ⟨front, eq⟩ := List.getLast?_eq_some_iff.1 (List.getLast?_eq_some_getLast text)
  exact ⟨front, _, eq, h _ (List.getLast?_eq_some_getLast text)⟩

theorem EndsVisibly.of_suffix {s t : Text} (h : EndsVisibly t) (suffix : s <:+ t) (ne : s ≠ []) :
    EndsVisibly s := by
  obtain ⟨front, c, eq, visible⟩ := h
  obtain ⟨before, whole⟩ := suffix
  refine endsVisibly_of_getLast? ne fun d last => ?_
  have same : t.getLast? = some d := by rw [← whole, List.getLast?_append, last, Option.some_or]
  rw [eq, List.getLast?_concat, Option.some.injEq] at same
  exact same ▸ visible

/-- The end of the text without white space at its end. -/
theorem trimEnd_of_endsVisibly {t : Text} (h : EndsVisibly t) : trimEnd t = t := by
  obtain ⟨front, c, rfl, visible⟩ := h
  simp [trimEnd, dropEndWhile, visible]

theorem trim_of_framed {t : Text} {width : Nat} (opens : OpensAt width t) (ends : EndsVisibly t) :
    ∃ core, t = List.replicate width ' ' ++ core ∧ trim t = core ∧ trim core = core := by
  obtain ⟨c, rest, rfl, visible⟩ := opens
  have core : EndsVisibly (c :: rest) := ends.of_suffix (List.suffix_append _ _) (by simp)
  have start : trimStart (c :: rest) = c :: rest := by simp [trimStart, visible]
  have spaces : trimStart (List.replicate width ' ' ++ c :: rest) = c :: rest := by
    rw [trimStart, List.dropWhile_append_of_pos, ← trimStart, start]
    intro d mem
    rw [List.eq_of_mem_replicate mem]
    decide
  refine ⟨c :: rest, rfl, ?_, ?_⟩
  · rw [trim, spaces, trimEnd_of_endsVisibly core]
  · rw [trim, start, trimEnd_of_endsVisibly core]

/-- A trimmed text that is not empty starts and ends visibly. -/
theorem framed_trim {t : Text} (text : isBlank t = false) :
    OpensAt 0 (trim t) ∧ EndsVisibly (trim t) := by
  have ne : trim t ≠ [] := fun none => by
    have filled := isEmpty_trim t
    rw [none, text] at filled
    cases filled
  refine ⟨?_, endsVisibly_of_getLast? ne fun c last => isSpace_getLast?_trim last⟩
  cases eq : trim t with
  | nil => exact absurd eq ne
  | cons c rest =>
      have visible := List.head?_dropWhile_not isSpace (trim t)
      rw [show (trim t).dropWhile isSpace = trimStart (trim t) from rfl, trimStart_trim, eq] at visible
      exact opensAt_zero_cons rest visible

/-! ## Lines -/

/-- The first segment ends before the first line feed. -/
theorem head?_segments (t : Text) : (segments t).head? = some (t.takeWhile (· != '\n')) := by
  induction t with
  | nil => rfl
  | cons c t ih =>
      rw [segments_cons]
      by_cases feed : c = '\n'
      · simp [feed]
      · cases cut : segments t with
        | nil => exact absurd cut (segments_ne_nil t)
        | cons l more =>
            rw [cut, List.head?_cons, Option.some.injEq] at ih
            simp [feed, ih]

theorem OpensAt.takeWhile {width : Nat} {t : Text} (h : OpensAt width t) :
    OpensAt width (t.takeWhile (· != '\n')) := by
  obtain ⟨c, rest, rfl, visible⟩ := h
  have spaces : ∀ d ∈ List.replicate width ' ', (d != '\n') = true := fun d mem => by
    rw [List.eq_of_mem_replicate mem]
    decide
  have noFeed : (c != '\n') = true := by
    rw [bne_iff_ne]
    rintro rfl
    cases visible
  rw [List.takeWhile_append_of_pos spaces, List.takeWhile_cons, if_pos noFeed]
  exact ⟨c, _, rfl, visible⟩

theorem OpensAt.dropReturn {width : Nat} {l : Text} (h : OpensAt width l) :
    OpensAt width (dropReturn l) := by
  by_cases ends : l.getLast? = some '\r'
  · obtain ⟨front, rfl⟩ := List.getLast?_eq_some_iff.1 ends
    obtain ⟨c, rest, eq, visible⟩ := h
    rw [show Text.dropReturn (front ++ ['\r']) = front by simp [Text.dropReturn]]
    rcases List.eq_nil_or_concat rest with rfl | ⟨rest, d, rfl⟩
    · -- The carriage return would be the visible character.
      obtain ⟨-, same⟩ := List.append_inj' eq rfl
      rw [← (List.cons.inj same).1] at visible
      cases visible
    · rw [List.concat_eq_append, ← List.cons_append, ← List.append_assoc] at eq
      exact ⟨c, rest, (List.append_inj' eq rfl).1, visible⟩
  · rwa [dropReturn_eq_self ends]

end Text

/-- Texts of which the first starts behind a margin and the last ends visibly; without a
margin there are none. -/
def FramedAll : Option Nat → List Text → Prop
  | none, ts => ts = []
  | some width, ts =>
      (∃ t, ts.head? = some t ∧ Text.OpensAt width t) ∧
        ∃ t, ts.getLast? = some t ∧ Text.EndsVisibly t

/-- A text that starts behind a margin and ends visibly; without a margin it is empty. -/
def Framed : Option Nat → Text → Prop
  | none, t => t = []
  | some width, t => Text.OpensAt width t ∧ Text.EndsVisibly t

namespace FramedAll

variable {margin? : Option Nat} {ts : List Text}

theorem append {other? : Option Nat} {us : List Text} (ha : FramedAll margin? ts)
    (hb : FramedAll other? us) : FramedAll (margin?.or other?) (ts ++ us) := by
  cases margin? with
  | none => rwa [show ts = [] from ha]
  | some width =>
      obtain ⟨⟨first, head, opens⟩, last, tail, ends⟩ := ha
      refine ⟨⟨first, by rw [List.head?_append, head, Option.some_or], opens⟩, ?_⟩
      cases other? with
      | none => exact ⟨last, by rw [show us = [] from hb, List.append_nil, tail], ends⟩
      | some =>
          obtain ⟨-, last, tail, ends⟩ := hb
          exact ⟨last, by rw [List.getLast?_append, tail, Option.some_or], ends⟩

theorem singleton {t : Text} (h : Framed margin? t) (text : t ≠ []) : FramedAll margin? [t] := by
  cases margin? with
  | none => exact absurd h text
  | some => exact ⟨⟨t, rfl, h.1⟩, t, rfl, h.2⟩

/-- Put together with something between each two, the texts start as the first and end as
the last. -/
theorem intercalate (sep : Text) (h : FramedAll margin? ts) :
    Framed margin? (List.intercalate sep ts) := by
  cases margin? with
  | none => rw [show ts = [] from h]; rfl
  | some width =>
      obtain ⟨⟨first, head, opens⟩, last, tail, ends⟩ := h
      constructor
      · obtain ⟨more, rfl⟩ := List.head?_eq_some_iff.1 head
        rw [Text.intercalate_cons]
        exact opens.append _
      · obtain ⟨before, rfl⟩ := List.getLast?_eq_some_iff.1 tail
        cases before with
        | nil => simpa using ends
        | cons t before =>
            rw [List.cons_append, Text.intercalate_cons, List.flatMap_append, List.flatMap_singleton]
            exact (ends.append sep).append _ |>.append t

/-- Lines that keep a visible start and a visible end keep the frame, up to its margin. -/
theorem map {other? : Option Nat} {g : Text → Text} (h : FramedAll margin? ts)
    (none_iff : margin? = none ↔ other? = none)
    (opens : ∀ l width shifted, margin? = some width → other? = some shifted →
      Text.OpensAt width l → Text.OpensAt shifted (g l))
    (ends : ∀ l, Text.EndsVisibly l → Text.EndsVisibly (g l)) : FramedAll other? (ts.map g) := by
  cases margin? with
  | none =>
      rw [none_iff.1 rfl, show ts = [] from h]
      rfl
  | some width =>
      obtain ⟨⟨first, head, start⟩, last, tail, ending⟩ := h
      cases other? with
      | none => exact absurd (none_iff.2 rfl) (by simp)
      | some shifted =>
          exact ⟨⟨g first, by simp [head], opens first width shifted rfl rfl start⟩,
            g last, by simp [tail], ends last ending⟩

end FramedAll

/-- The segments of a text are framed as it is. -/
theorem Framed.segments {width : Nat} {t : Text} (h : Framed (some width) t) :
    FramedAll (some width) (Text.segments t) := by
  refine ⟨⟨_, Text.head?_segments t, h.1.takeWhile⟩, ?_⟩
  obtain ⟨ls, last, cut, whole⟩ := Text.exists_terminated t
  refine ⟨last, by simp [cut], h.2.of_suffix ⟨_, whole.symm⟩ ?_⟩
  rintro rfl
  -- Otherwise the text would end with a line feed, or be empty.
  obtain ⟨front, c, eq, visible⟩ := h.2
  rcases List.eq_nil_or_concat ls with rfl | ⟨ls, l, rfl⟩
  · simp [whole] at eq
  · rw [whole, List.concat_eq_append, List.flatMap_append, List.flatMap_singleton, List.append_nil,
      ← List.append_assoc] at eq
    rw [← (List.cons.inj (List.append_inj' eq rfl).2).1] at visible
    cases visible

/-- So are its lines. -/
theorem Framed.lines {margin? : Option Nat} {t : Text} (h : Framed margin? t) :
    FramedAll margin? (Text.lines t) := by
  cases margin? with
  | none => rw [show t = [] from h]; rfl
  | some width =>
      obtain ⟨⟨first, head, opens⟩, last, tail, ends⟩ := h.segments
      obtain ⟨before, cut⟩ := List.getLast?_eq_some_iff.1 tail
      have lines : Text.lines t = before.map Text.dropReturn ++ [last] := by
        rw [Text.lines, cut, Text.linesOfSegments_append before (by simp)]
        simp [Text.linesOfSegments, ends.ne_nil]
      rw [lines]
      refine ⟨?_, last, by simp, ends⟩
      cases before with
      | nil =>
          rw [cut, List.nil_append, List.head?_cons, Option.some.injEq] at head
          exact ⟨last, rfl, head ▸ opens⟩
      | cons l before =>
          rw [cut, List.cons_append, List.head?_cons, Option.some.injEq] at head
          exact ⟨Text.dropReturn l, rfl, head ▸ opens.dropReturn⟩

namespace Markdown

open Document (Node Forest DirectiveKind Admonition)
open Text (OpensAt EndsVisibly)

/-! ## Marks in front of lines -/

theorem endsVisibly_indentLine (width : Nat) {l : Text} (h : EndsVisibly l) :
    EndsVisibly (indentLine width l) := by
  rw [indentLine, if_neg (by simpa using h.ne_nil)]
  exact h.append _

theorem opensAt_indentLine (width : Nat) {inner : Nat} {l : Text} (h : OpensAt inner l) :
    OpensAt (inner + width) (indentLine width l) := by
  obtain ⟨c, rest, rfl, visible⟩ := h
  refine ⟨c, rest, ?_, visible⟩
  rw [indentLine, if_neg (by simp), ← List.append_assoc, List.replicate_append_replicate,
    Nat.add_comm]

theorem framedAll_indent {margin? : Option Nat} {ls : List Text} (width : Nat)
    (h : FramedAll margin? ls) :
    FramedAll (margin?.map (· + width)) (ls.map (indentLine width)) := by
  refine h.map (by simp) ?_ fun l ends => endsVisibly_indentLine width ends
  rintro l inner _ rfl shift opens
  exact Option.some.inj shift ▸ opensAt_indentLine width opens

theorem opensAt_quoteLine (l : Text) : OpensAt 0 (quoteLine l) := by
  rw [quoteLine]
  split <;> exact Text.opensAt_zero_cons _ (by decide)

theorem endsVisibly_quoteLine {l : Text} (h : EndsVisibly l) : EndsVisibly (quoteLine l) := by
  rw [quoteLine, if_neg (by simpa using h.ne_nil)]
  exact (h.cons _).cons _

theorem framed_quoteText {margin? : Option Nat} {t : Text} (h : Framed margin? t) :
    Framed (margin?.map fun _ => 0) (quoteText t) := by
  refine FramedAll.intercalate ['\n'] (h.lines.map (by simp) ?_ fun l => endsVisibly_quoteLine)
  rintro l width _ rfl shift -
  exact Option.some.inj shift ▸ opensAt_quoteLine l

/-- A marker that stands alone has no space behind it. -/
theorem framed_trimEnd_itemMarker (ordered : Bool) (number : Nat) :
    Framed (some 0) (Text.trimEnd (itemMarker ordered number)) := by
  obtain ⟨c, rest, marker, visible, -⟩ := exists_first_itemMarker ordered number
  have start : Text.trimStart (itemMarker ordered number) = itemMarker ordered number := by
    rw [marker, Text.trimStart, List.dropWhile_cons, if_neg (by simp [visible])]
  have alone : Text.trimEnd (itemMarker ordered number) = Text.trim (itemMarker ordered number) := by
    rw [Text.trim, start]
  rw [alone]
  refine Text.framed_trim ?_
  rw [marker]
  exact (Text.opensAt_zero_cons rest visible).not_isBlank

theorem framedAll_itemLines {margin? : Option Nat} {item : Flow} (ordered : Bool) (number : Nat)
    (h : FramedAll margin? item.texts) :
    FramedAll (some 0) (itemLines (itemMarker ordered number) item) := by
  have body : FramedAll margin? (Text.lines item.itemText) := (h.intercalate ['\n']).lines
  rw [itemLines]
  cases lines : Text.lines item.itemText with
  | nil =>
      have alone := framed_trimEnd_itemMarker ordered number
      exact ⟨⟨_, rfl, alone.1⟩, _, rfl, alone.2⟩
  | cons l more =>
      rw [lines] at body
      cases margin? with
      | none => cases body
      | some width =>
          obtain ⟨-, last, tail, ends⟩ := body
          obtain ⟨c, rest, marker, visible, -⟩ := exists_first_itemMarker ordered number
          refine ⟨⟨_, rfl, by rw [marker]; exact Text.opensAt_zero_cons _ visible⟩, ?_⟩
          rcases List.eq_nil_or_concat more with rfl | ⟨between, m, rfl⟩
          · rw [List.getLast?_singleton, Option.some.injEq] at tail
            exact ⟨_, rfl, (tail ▸ ends).append _⟩
          · rw [List.concat_eq_append, ← List.cons_append, List.getLast?_concat,
              Option.some.injEq] at tail
            rw [markLines, List.concat_eq_append, List.map_append, ← List.cons_append]
            exact ⟨_, List.getLast?_concat, endsVisibly_indentLine _ (tail ▸ ends)⟩

/-! ## Blank lines -/

theorem getLast?_keep (place : Scan) {l : Text} (text : Text.isBlank l = false) :
    (place.keep l).getLast? = some l := by
  cases place <;> simp [Scan.keep, text]

/-- `tidy` keeps the first and the last line of a text that has them visible. -/
theorem framed_tidy {margin? : Option Nat} {t : Text} (h : Framed margin? t) :
    Framed margin? (tidy t) := by
  refine FramedAll.intercalate ['\n'] ?_
  have lines := h.lines
  cases margin? with
  | none => rw [show Text.lines t = [] from lines]; rfl
  | some width =>
      obtain ⟨⟨first, head, opens⟩, last, tail, ends⟩ := lines
      rw [Scan.tidyLines_eq_keepAll]
      constructor
      · obtain ⟨more, eq⟩ := List.head?_eq_some_iff.1 head
        exact ⟨first, by simp [eq, Scan.keepAll, Scan.keep, Scan.separator, opens.not_isBlank], opens⟩
      · obtain ⟨before, eq⟩ := List.getLast?_eq_some_iff.1 tail
        refine ⟨last, ?_, ends⟩
        rw [eq, Scan.keepAll_append, Scan.keepAll, Scan.keepAll, List.append_nil (Scan.keep _ _),
          List.getLast?_append, getLast?_keep _ ends.not_isBlank, Option.some_or]

/-! ## Parts -/

theorem endsVisibly_escapeFenceOpener {l : Text} (h : EndsVisibly l) :
    EndsVisibly (escapeFenceOpener l) := by
  rw [escapeFenceOpener]
  split
  · have ne : Text.trimStart l ≠ [] := fun none => by
      have text := Text.isBlank_trimStart l
      rw [none, h.not_isBlank] at text
      cases text
    exact ((h.of_suffix (Text.isSuffix_trimStart l) ne).cons _).append _
  · exact h

theorem opensAt_escapeFenceOpener {l : Text} (h : OpensAt 0 l) : OpensAt 0 (escapeFenceOpener l) := by
  obtain ⟨c, rest, rfl, visible⟩ := h
  rw [List.replicate_zero, List.nil_append, escapeFenceOpener]
  split
  · rw [List.takeWhile_cons, if_neg (by simp [visible])]
    exact Text.opensAt_zero_cons _ (by decide)
  · exact Text.opensAt_zero_cons rest visible

/-- A paragraph that is not blank. -/
theorem framed_paragraph {t : Text} (text : Text.isBlank t = false) :
    Framed (some 0) (escapeFenceOpeners (Text.trim t)) := by
  have trimmed : Framed (some 0) (Text.trim t) := Text.framed_trim text
  refine FramedAll.intercalate ['\n'] (trimmed.segments.map (by simp) ?_ fun l =>
    endsVisibly_escapeFenceOpener)
  rintro l _ _ ⟨⟩ ⟨⟩ opens
  exact opensAt_escapeFenceOpener opens

/-- Nothing for a blank text, else a text without margin. -/
def marginOf (blank : Bool) : Option Nat := if blank then none else some 0

theorem framed_headingText (level : Nat) (t : Text) :
    Framed (marginOf (Text.isBlank t)) (headingText level t) := by
  cases blank : Text.isBlank t with
  | true =>
      have each : ∀ l ∈ Text.segments t, Text.trim l = [] := fun l mem =>
        Text.trim_of_isBlank (Text.isBlank_of_mem_segments mem blank)
      have none : ((Text.segments t).map Text.trim).filter (fun p => !p.isEmpty) = [] := by
        simpa [List.filter_eq_nil_iff] using each
      simp only [headingText, none]
      rfl
  | false =>
      have text := not_isBlank_of_sublist blank (filter_headingText inked_isVisible level t)
      simp only [headingText] at text ⊢
      split at text
      · cases text
      · next some =>
        rw [if_neg some]
        have ne : ((Text.segments t).map Text.trim).filter (fun p => !p.isEmpty) ≠ [] := by
          simpa using some
        have pieces : FramedAll (.some 0)
            (((Text.segments t).map Text.trim).filter fun p => !p.isEmpty) := by
          have framed : ∀ p ∈ ((Text.segments t).map Text.trim).filter (fun p => !p.isEmpty),
              OpensAt 0 p ∧ EndsVisibly p := by
            intro p mem
            obtain ⟨mem, filled⟩ := List.mem_filter.1 mem
            obtain ⟨l, -, rfl⟩ := List.mem_map.1 mem
            exact Text.framed_trim (by simpa [Text.isEmpty_trim] using filled)
          exact ⟨⟨_, List.head?_eq_some_head ne, (framed _ (List.head_mem ne)).1⟩,
            _, List.getLast?_eq_some_getLast ne, (framed _ (List.getLast_mem ne)).2⟩
        constructor
        · rw [show max 1 (min level 6) = max 1 (min level 6) - 1 + 1 by omega, List.replicate_succ]
          exact Text.opensAt_zero_cons _ (by decide)
        · exact ((pieces.intercalate [' ']).2.cons _).append _

theorem framed_codeBlock (info code : Text) : Framed (some 0) (codeBlock info code) := by
  have tickVisible : isSpace tick = false := by decide
  simp only [codeBlock]
  constructor
  · rw [codeFence, ticks, List.replicate_succ]
    exact Text.opensAt_zero_cons _ tickVisible
  · have fence : EndsVisibly (codeFence (Text.dropEndWhile (fun c => c == '\n' || c == '\r') code)) := by
      rw [codeFence, ticks, List.replicate_succ']
      exact ⟨_, tick, rfl, tickVisible⟩
    exact (fence.cons _).append _

variable (language : Language)

theorem framed_admonition (kind : Admonition) : Framed (some 0) (language.admonition kind) := by
  have trimmed : Text.trim (language.admonition kind) = language.admonition kind := by
    cases language <;> cases kind <;> decide
  rw [← trimmed]
  exact Text.framed_trim (by cases language <;> cases kind <;> decide)

theorem framed_boxText {opening : Text} (h : Framed (some 0) opening) (title t : Text) :
    Framed (some 0) (boxText opening title t) := by
  have inside : ∀ behind, (behind = [] ∨ EndsVisibly behind) → ∀ {before : Text},
      Framed (some 0) before → Framed (some 0) (before ++ behind) := by
    rintro behind (rfl | ends) before framed
    · rwa [List.append_nil]
    · exact ⟨framed.1.append _, ends.append _⟩
  have quoted : ∀ {box : Text}, Framed (some 0) box → Framed (some 0) (quoteText box) := fun box =>
    framed_quoteText box
  refine quoted (inside _ ?_ (inside _ ?_ h))
  · split
    · exact .inl rfl
    · next filled =>
      refine .inr ((Text.framed_trim ?_).2.cons _)
      rw [← Text.isEmpty_trim]
      exact Bool.eq_false_iff.2 filled
  · split
    · exact .inl rfl
    · exact .inr (EndsVisibly.append ⟨['*'], '*', rfl, by decide⟩ _)

theorem framed_tableNotice : Framed (some 0) language.tableNotice := by
  have trimmed : Text.trim language.tableNotice = language.tableNotice := by
    cases language <;> decide
  rw [← trimmed]
  exact Text.framed_trim (isBlank_tableNotice language)

theorem framed_directiveText (kind : DirectiveKind) (parameters : Dictionary) (body : Forest) :
    Framed (some 0) (directiveText language kind parameters body) := by
  cases kind with
  | code => exact framed_codeBlock _ _
  | admonition kind => exact framed_boxText (framed_admonition language kind) _ _
  | unsupported name =>
      have ends : EndsVisibly "]*".toList := ⟨[']'], '*', rfl, by decide⟩
      cases language <;>
        exact ⟨Text.opensAt_zero_cons _ (by decide), ends.append _⟩

/-! ## Margins -/

mutual

/-- The margin that a node gives the page that it opens, if it shows on the page at all. -/
def margin? : Node → Option Nat
  | .heading _ cs => marginOf (!showsAny cs)
  | .paragraph cs | .element _ _ cs => firstMargin? cs
  | .list _ cs => listMargin? 2 cs
  | .quote cs => (firstMargin? cs).map fun _ => 0
  | .item _ | .rule | .table _ | .directive _ _ _ => some 0
  | .text content => marginOf (!shows (.text content))
  | .emphasis kind cs => marginOf (!shows (.emphasis kind cs))
  | .codeSpan cs => marginOf (!shows (.codeSpan cs))
  | .link href cs => marginOf (!shows (.link href cs))
  | .lineBreak => none
  | .malformed _ => some 0

/-- The margin that a page starts with: that of the first node that shows. -/
def firstMargin? : List Node → Option Nat
  | [] => none
  | n :: ns => (margin? n).or (firstMargin? ns)

/-- The margin that a list starts with.  An item has none; a list is indented by the width
of the marker that it stands under, also where there is none. -/
def listMargin? (width : Nat) : List Node → Option Nat
  | [] => none
  | .list _ cs :: ns => ((listMargin? 2 cs).map (· + width)).or (listMargin? width ns)
  | n :: ns => if n.isBlankText then listMargin? width ns else some 0

end

theorem listMargin?_other {width : Nat} {n : Node} (ns : List Node)
    (notList : ∀ ordered cs, n ≠ .list ordered cs) :
    listMargin? width (n :: ns) = if n.isBlankText then listMargin? width ns else some 0 := by
  rw [listMargin?]
  exact notList

/-! ## Layouts -/

/-- A layout whose parts and draft, once that is closed, are framed. -/
def Flow.IsFramed (f : Flow) (margin? : Option Nat) : Prop :=
  ∃ closed?, FramedAll closed? f.parts.reverse ∧
    margin? = closed?.or (marginOf (Text.isBlank f.draft))

namespace Flow.IsFramed

variable {f : Flow} {before? : Option Nat}

theorem close (h : f.IsFramed before?) : f.close.IsFramed before? ∧ f.close.draft = [] := by
  obtain ⟨closed?, parts, rfl⟩ := h
  have blank : (Text.trim f.draft.text).isEmpty = Text.isBlank f.draft := by
    rw [Text.isEmpty_trim, isBlank_text]
  simp only [Flow.close, blank]
  cases text : Text.isBlank f.draft with
  | true => exact ⟨⟨closed?, parts, rfl⟩, rfl⟩
  | false =>
      have paragraph := framed_paragraph ((isBlank_text f.draft).trans text)
      refine ⟨⟨closed?.or (some 0), ?_, ?_⟩, rfl⟩
      · simpa using parts.append (FramedAll.singleton paragraph paragraph.2.ne_nil)
      · cases closed? <;> rfl

theorem texts (h : f.IsFramed before?) : FramedAll before? f.texts := by
  obtain ⟨⟨closed?, parts, rfl⟩, empty⟩ := h.close
  rw [empty]
  cases closed? <;> exact parts

theorem add {part : Text} {margin? : Option Nat} (h : f.IsFramed before?)
    (framed : Framed margin? part) : (f.add part).IsFramed (before?.or margin?) := by
  unfold Flow.add
  split
  · next empty =>
    cases margin? with
    | none => rw [Option.or_none]; exact h.close.1
    | some => exact absurd (List.isEmpty_iff.1 empty) framed.2.ne_nil
  · next filled =>
    refine ⟨before?.or margin?, ?_, by cases before? <;> cases margin? <;> rfl⟩
    rw [List.reverse_cons]
    exact h.texts.append (FramedAll.singleton framed (by simpa using filled))

/-- A node in the line makes the draft show if it shows itself. -/
theorem write (language : Language) (n : Node) (h : f.IsFramed before?) :
    ({ f with draft := writeNode language n f.draft } : Flow).IsFramed
      (before?.or (marginOf (!shows n))) := by
  obtain ⟨closed?, parts, rfl⟩ := h
  refine ⟨closed?, parts, ?_⟩
  rw [isBlank_writeNode]
  cases closed? <;> cases Text.isBlank f.draft <;> cases shows n <;> rfl

end Flow.IsFramed

theorem isFramed_start : Flow.start.IsFramed none := ⟨none, rfl, rfl⟩

variable (language : Language)

mutual

theorem isFramed_layNode : (n : Node) → {f : Flow} → {before? : Option Nat} →
    f.IsFramed before? → (layNode language n f).IsFramed (before?.or (margin? n))
  | .heading level cs, f, _, h => by
      simp only [layNode, margin?, ← isBlank_inlineText language]
      exact h.add (framed_headingText level _)
  | .paragraph cs, f, _, h => by
      simp only [layNode, margin?]
      exact (isFramed_layForest cs h.close.1).close.1
  | .list ordered cs, f, _, h => by
      simp only [layNode, margin?]
      exact h.add ((framedAll_listLines ordered 1 2 cs).intercalate ['\n'])
  | .item cs, f, _, h => by
      simp only [layNode, margin?]
      have item := (isFramed_layForest cs isFramed_start).texts
      exact h.add ((framedAll_itemLines false 1 item).intercalate ['\n'])
  | .quote cs, f, _, h => by
      simp only [layNode, margin?]
      have page := (isFramed_layForest cs isFramed_start).texts.intercalate ['\n', '\n']
      rw [Option.none_or] at page
      exact h.add (framed_quoteText (framed_tidy page))
  | .rule, f, _, h => by
      simp only [layNode, margin?]
      exact h.add ⟨Text.opensAt_zero_cons _ (by decide), ['-', '-'], '-', rfl, by decide⟩
  | .table _, f, _, h => by
      simp only [layNode, margin?]
      exact h.add (framed_tableNotice language)
  | .directive kind parameters cs, f, _, h => by
      simp only [layNode, margin?]
      exact h.add (framed_directiveText language kind parameters cs)
  | .element _ _ cs, f, _, h => by
      simp only [layNode, margin?]
      exact isFramed_layForest cs h
  | .text content, f, _, h => by
      simp only [layNode, margin?]
      exact h.write language (.text content)
  | .emphasis kind cs, f, _, h => by
      simp only [layNode, margin?]
      exact h.write language (.emphasis kind cs)
  | .codeSpan cs, f, _, h => by
      simp only [layNode, margin?]
      exact h.write language (.codeSpan cs)
  | .link href cs, f, _, h => by
      simp only [layNode, margin?]
      exact h.write language (.link href cs)
  | .lineBreak, f, _, h => by
      simp only [layNode, margin?]
      exact h.write language .lineBreak
  | .malformed source, f, _, h => by
      simp only [layNode, margin?]
      exact h.write language (.malformed source)

theorem isFramed_layForest : (ns : List Node) → {f : Flow} → {before? : Option Nat} →
    f.IsFramed before? → (layForest language ns f).IsFramed (before?.or (firstMargin? ns))
  | [], f, _, h => by
      simp only [layForest, firstMargin?, Option.or_none]
      exact h
  | n :: ns, f, _, h => by
      simp only [layForest, firstMargin?, ← Option.or_assoc]
      exact isFramed_layForest ns (isFramed_layNode n h)

theorem framedAll_listLines (ordered : Bool) (number width : Nat) : (ns : List Node) →
    FramedAll (listMargin? width ns) (listLines language ordered number width ns)
  | [] => by
      simp only [listLines, listMargin?]
      rfl
  | n :: ns => by
      have behind := fun number width => framedAll_listLines ordered number width ns
      have item := (isFramed_layNode n isFramed_start).texts
      cases n with
      | list nested cs =>
          simp only [listLines, listMargin?]
          have inner := (framedAll_listLines nested 1 2 cs).intercalate ['\n']
          exact (framedAll_indent width inner.lines).append (behind number width)
      | item cs =>
          simp only [listLines, listMargin?]
          have item := (isFramed_layForest cs isFramed_start).texts
          exact (framedAll_itemLines ordered number item).append (behind _ _)
      | _ =>
          rw [listLines_other ns (by simp) (by simp), listMargin?_other ns (by simp)]
          split
          · exact behind number width
          · exact (framedAll_itemLines ordered number item).append (behind _ _)

end

/-- A page starts behind its margin and ends visibly. -/
theorem framed_render (nodes : Forest) : Framed (firstMargin? nodes) (render language nodes) := by
  have page := (isFramed_layForest language nodes isFramed_start).texts.intercalate ['\n', '\n']
  rw [Option.none_or] at page
  exact framed_tidy page

end Markdown

namespace Page

open Document (Forest)

/-- The number of spaces that the page of some markup starts with: that of its resolved
forest, and none if nothing shows. -/
def margin (markup : Text) : Nat := (Markdown.firstMargin? (forestOfMarkup markup)).getD 0

/-- A page is its margin and a text without white space at its edges, so that it is its own
trim exactly if it has no margin. -/
theorem fragment_edges (language : Language) (markup : Text) :
    (∃ core, Text.trim core = core ∧
        fragment language markup = List.replicate (margin markup) ' ' ++ core) ∧
      (Text.trim (fragment language markup) = fragment language markup ↔ margin markup = 0) := by
  have framed : Framed _ (fragment language markup) :=
    Markdown.framed_render language (forestOfMarkup markup)
  unfold margin
  cases found : Markdown.firstMargin? (forestOfMarkup markup) with
  | none =>
      rw [found] at framed
      rw [show fragment language markup = [] from framed]
      exact ⟨⟨[], rfl, rfl⟩, iff_of_true rfl rfl⟩
  | some width =>
      rw [found] at framed
      obtain ⟨core, whole, trimmed, again⟩ := Text.trim_of_framed framed.1 framed.2
      refine ⟨⟨core, again, whole⟩, ?_⟩
      rw [trimmed, whole, Option.getD_some]
      constructor
      · intro same
        have length := congrArg List.length same
        rw [List.length_append, List.length_replicate] at length
        omega
      · rintro rfl
        rfl

/-- A list that starts with a list starts a page with white space. -/
theorem fragment_sublist_indented :
    fragment .english "<ul><ul><li>x</li></ul></ul>" = "  - x" ∧
      Text.trim (fragment .english "<ul><ul><li>x</li></ul></ul>") ≠
        fragment .english "<ul><ul><li>x</li></ul></ul>" := by
  have tokens : Markup.tokens "<ul><ul><li>x</li></ul></ul>" =
      [.startTag "ul" .empty "<ul>", .startTag "ul" .empty "<ul>", .startTag "li" .empty "<li>",
        .text "x" "x", .endTag "li" "</li>", .endTag "ul" "</ul>", .endTag "ul" "</ul>"] := by
    decide +kernel
  have page : fragment .english "<ul><ul><li>x</li></ul></ul>" = "  - x" := by
    rw [fragment, forestOfMarkup, tokens]
    decide
  rw [page]
  exact ⟨rfl, by decide⟩

end Page

end Wikidown
