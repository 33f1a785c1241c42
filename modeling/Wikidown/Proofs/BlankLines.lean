/-
# Wikidown.Proofs.BlankLines -- the normal form that `tidy` brings blank lines into

A reader of Markdown takes lines as stretches: blank lines, lines of text, and code blocks
from the line that opens one to the first line that closes it.  `Reads ls stretches` says
so, and every list of lines can be read (`exists_reads`).  `tidy` settles the blank lines
among the stretches and leaves the others alone: what it keeps of lines is read as
`settle .start stretches` (`reads_tidyLines`), so that cleaning never changes where code is.

`Settled stretches kept` says what settled means: the stretches that are not blank are the
same, with a blank line between two of them exactly where there was one; a blank line is
empty; no two of them are neighbours, and none stands at an end (`settled_settle`).  The
main statement is `tidy_settles`.
-/
import Wikidown.Proofs.Tidied

namespace Wikidown.Markdown

set_option autoImplicit false

/-! ## Stretches -/

/-- What a reader takes at once. -/
inductive Stretch where
  | blank (line : Text)
  | flow (line : Text)
  | code (opening : Text) (inside : List Text) (closing : Text)

namespace Stretch

/-- The lines of a stretch. -/
def lines : Stretch → List Text
  | blank line | flow line => [line]
  | code opening inside closing => opening :: (inside ++ [closing])

/-- Whether a stretch is a blank line. -/
def isBlank : Stretch → Bool
  | blank _ => true
  | _ => false

/-- The first line of a stretch. -/
def first : Stretch → Text
  | blank line | flow line | code line _ _ => line

/-- The last line of a stretch. -/
def last : Stretch → Text
  | blank line | flow line | code _ _ line => line

theorem head?_lines (s : Stretch) : s.lines.head? = some s.first := by
  cases s <;> rfl

theorem getLast?_lines (s : Stretch) : s.lines.getLast? = some s.last := by
  cases s with
  | code opening inside closing => simp [lines, last, List.getLast?_cons]
  | _ => rfl

end Stretch

open Stretch (blank flow code)

/-- The lines are read as the stretches, from the first line on.  A line of text opens no code
block, or one that no later line closes; and a code block goes up to the first line that
closes it. -/
inductive Reads : List Text → List Stretch → Prop where
  | nil : Reads [] []
  | blank {line : Text} {ls : List Text} {stretches : List Stretch}
      (space : Text.isBlank line = true) (others : Reads ls stretches) :
      Reads (line :: ls) (blank line :: stretches)
  | flow {line : Text} {ls : List Text} {stretches : List Stretch}
      (text : Text.isBlank line = false)
      (loose : ∀ fence, Fence.open? line = some fence → ls.any fence.isClosedBy = false)
      (others : Reads ls stretches) : Reads (line :: ls) (flow line :: stretches)
  | code {opening closing : Text} {inside ls : List Text} {stretches : List Stretch}
      {fence : Fence} (opens : Fence.open? opening = some fence)
      (stays : ∀ l ∈ inside, fence.isClosedBy l = false)
      (closes : fence.isClosedBy closing = true) (others : Reads ls stretches) :
      Reads (opening :: (inside ++ closing :: ls)) (code opening inside closing :: stretches)

/-- The lines up to the first one that closes a block, if there is one. -/
theorem exists_closing {fence : Fence} {ls : List Text} (h : ls.any fence.isClosedBy = true) :
    ∃ inside closing behind, ls = inside ++ closing :: behind ∧
      (∀ l ∈ inside, fence.isClosedBy l = false) ∧ fence.isClosedBy closing = true := by
  induction ls with
  | nil => simp at h
  | cons l ls ih =>
      cases closes : fence.isClosedBy l with
      | true => exact ⟨[], l, ls, rfl, by simp, closes⟩
      | false =>
          obtain ⟨inside, closing, behind, rfl, stays, last⟩ := ih (by simpa [closes] using h)
          exact ⟨l :: inside, closing, behind, rfl, by simpa [closes] using stays, last⟩

/-- Any lines can be read. -/
theorem exists_reads : (ls : List Text) → ∃ stretches, Reads ls stretches
  | [] => ⟨[], .nil⟩
  | l :: ls => by
      obtain ⟨stretches, others⟩ := exists_reads ls
      cases space : Text.isBlank l with
      | true => exact ⟨_, .blank space others⟩
      | false =>
          by_cases opens : ∃ fence, Fence.open? l = some fence ∧ ls.any fence.isClosedBy = true
          · obtain ⟨fence, opens, closed⟩ := opens
            obtain ⟨inside, closing, behind, whole, stays, closes⟩ := exists_closing closed
            have shorter : behind.length < (l :: ls).length := by
              rw [whole]
              simp only [List.length_cons, List.length_append]
              omega
            obtain ⟨later, read⟩ := exists_reads behind
            rw [whole]
            exact ⟨_, .code opens stays closes read⟩
          · refine ⟨_, .flow space (fun fence here => ?_) others⟩
            rw [← Bool.not_eq_true]
            exact fun closed => opens ⟨fence, here, closed⟩
termination_by ls => ls.length
decreasing_by
  · simp
  · exact shorter

namespace Reads

variable {ls : List Text} {stretches : List Stretch}

/-- Reading loses no line. -/
theorem lines_eq (h : Reads ls stretches) : ls = stretches.flatMap Stretch.lines := by
  induction h with
  | nil => rfl
  | blank _ _ ih => rw [List.flatMap_cons, ← ih]; rfl
  | flow _ _ _ ih => rw [List.flatMap_cons, ← ih]; rfl
  | code _ _ _ _ ih => rw [List.flatMap_cons, ← ih]; simp [Stretch.lines]

/-- A stretch that is not blank starts and ends with text. -/
theorem isBlank_ends (h : Reads ls stretches) :
    ∀ s ∈ stretches, Text.isBlank s.first = s.isBlank ∧ Text.isBlank s.last = s.isBlank := by
  induction h with
  | nil => simp
  | blank space _ ih =>
      rw [List.forall_mem_cons]
      exact ⟨⟨space, space⟩, ih⟩
  | flow text _ _ ih =>
      rw [List.forall_mem_cons]
      exact ⟨⟨text, text⟩, ih⟩
  | @code opening closing inside _ _ fence opens stays closes _ ih =>
      have text : Text.isBlank closing = false := by
        cases space : Text.isBlank closing with
        | false => rfl
        | true =>
            rw [Fence.isClosedBy_of_isBlank opens space] at closes
            cases closes
      rw [List.forall_mem_cons]
      exact ⟨⟨Fence.isBlank_of_open? opens, text⟩, ih⟩

end Reads

/-! ## Settled stretches -/

/-- The stretches that are not blank, each with whether a blank line stands before it; for the
first one, `behind` says so. -/
def parted (behind : Bool) : List Stretch → List (Stretch × Bool)
  | [] => []
  | s :: stretches =>
      if s.isBlank then parted true stretches else (s, behind) :: parted false stretches

/-- The blank lines among the stretches are settled in `kept`. -/
structure Settled (stretches kept : List Stretch) : Prop where
  /-- What is not blank is the same, with a blank line between two of them where there was
  one.  At the start of a text it makes no difference whether there was one. -/
  same : parted true kept = parted true stretches
  blank_eq : ∀ line, blank line ∈ kept → line = []
  apart : ∀ a b, [a, b] <:+: kept → a.isBlank = false ∨ b.isBlank = false
  first : ∀ s, kept.head? = some s → s.isBlank = false
  last : ∀ s, kept.getLast? = some s → s.isBlank = false

/-- The stretches that a scan keeps from a place on. -/
def settle (place : Scan) : List Stretch → List Stretch
  | [] => []
  | s :: stretches =>
      if s.isBlank then settle place.blank stretches
      else place.separator.map blank ++ s :: settle .line stretches

/-- Nothing, or one empty line. -/
theorem separator_eq (place : Scan) : place.separator = [] ∨ place.separator = [[]] := by
  cases place with
  | gap => exact .inr rfl
  | _ => exact .inl rfl

section

variable {stretches : List Stretch}

theorem settle_blank {s : Stretch} (space : s.isBlank = true) (place : Scan) :
    settle place (s :: stretches) = settle place.blank stretches := by
  rw [settle, if_pos space]

theorem settle_text {s : Stretch} (text : s.isBlank = false) (place : Scan) :
    settle place (s :: stretches) =
      place.separator.map blank ++ s :: settle .line stretches := by
  rw [settle, text]
  rfl

/-- Behind a gap, what is kept starts with an empty line and goes on as at the start. -/
theorem settle_gap (stretches : List Stretch) :
    settle .gap stretches = [] ∧ settle .start stretches = [] ∨
      settle .gap stretches = blank [] :: settle .start stretches ∧
        ∃ s, (settle .start stretches).head? = some s ∧ s.isBlank = false := by
  induction stretches with
  | nil => exact .inl ⟨rfl, rfl⟩
  | cons s stretches ih =>
      cases space : s.isBlank with
      | true =>
          rw [settle_blank space, settle_blank space]
          exact ih
      | false =>
          rw [settle_text space, settle_text space]
          exact .inr ⟨rfl, s, rfl, space⟩

theorem parted_settle (stretches : List Stretch) :
    parted true (settle .start stretches) = parted true stretches ∧
      parted false (settle .line stretches) = parted false stretches := by
  induction stretches with
  | nil => exact ⟨rfl, rfl⟩
  | cons s stretches ih =>
      obtain ⟨start, line⟩ := ih
      cases space : s.isBlank with
      | true =>
          have gap : parted false (settle .gap stretches) = parted true stretches := by
            rcases settle_gap stretches with ⟨none, none'⟩ | ⟨some, -⟩
            · rw [none, ← start, none']
              rfl
            · rw [some, ← start]
              rfl
          rw [settle_blank space, settle_blank space, parted, if_pos space, parted, if_pos space]
          exact ⟨start, gap⟩
      | false =>
          rw [settle_text space, settle_text space]
          simp only [parted, space, Scan.separator, List.map_nil, List.nil_append, line]
          exact ⟨rfl, rfl⟩

theorem blank_of_mem_settle {place : Scan} {line : Text}
    (h : blank line ∈ settle place stretches) : line = [] := by
  induction stretches generalizing place with
  | nil => cases h
  | cons s stretches ih =>
      cases space : s.isBlank with
      | true =>
          rw [settle_blank space] at h
          exact ih h
      | false =>
          rw [settle_text space, List.mem_append, List.mem_cons] at h
          rcases h with h | rfl | h
          · rcases separator_eq place with none | one
            · simp [none] at h
            · simpa [one] using h
          · cases space
          · exact ih h

/-- Behind a line of text no blank line follows a blank line, and none stands at the end. -/
theorem apart_settle (stretches : List Stretch) :
    (∀ place a b, [a, b] <:+: settle place stretches → a.isBlank = false ∨ b.isBlank = false) ∧
      ∀ place s, (settle place stretches).getLast? = some s → s.isBlank = false := by
  induction stretches with
  | nil =>
      constructor
      · intro place a b inside
        cases List.infix_nil.1 inside
      · intro place s last
        cases last
  | cons s stretches ih =>
      obtain ⟨apart, ends⟩ := ih
      cases space : s.isBlank with
      | true =>
          simp only [settle_blank space]
          exact ⟨fun place => apart place.blank, fun place => ends place.blank⟩
      | false =>
          have behind : ∀ a b, [a, b] <:+: s :: settle .line stretches →
              a.isBlank = false ∨ b.isBlank = false := by
            intro a b inside
            rcases List.infix_cons_iff.1 inside with here | later
            · obtain ⟨rfl, -⟩ := List.cons_prefix_cons.1 here
              exact .inl space
            · exact apart .line a b later
          constructor
          · intro place a b inside
            rw [settle_text space] at inside
            rcases separator_eq place with none | one
            · rw [none] at inside
              exact behind a b inside
            · rw [one] at inside
              rcases List.infix_cons_iff.1 inside with here | later
              · obtain ⟨-, next⟩ := List.cons_prefix_cons.1 here
                obtain ⟨rfl, -⟩ := List.cons_prefix_cons.1 next
                exact .inr space
              · exact behind a b later
          · intro place t last
            rw [settle_text space, List.getLast?_append, List.getLast?_cons] at last
            cases later : (settle .line stretches).getLast? with
            | none =>
                rw [later] at last
                obtain rfl : s = t := Option.some.inj last
                exact space
            | some u =>
                rw [later] at last
                obtain rfl : u = t := Option.some.inj last
                exact ends .line u later

theorem settled_settle (stretches : List Stretch) : Settled stretches (settle .start stretches) where
  same := (parted_settle stretches).1
  blank_eq := fun _ => blank_of_mem_settle
  apart := (apart_settle stretches).1 .start
  last := (apart_settle stretches).2 .start
  first := by
    intro s head
    rcases settle_gap stretches with ⟨-, none⟩ | ⟨-, t, head', text⟩
    · rw [none] at head
      cases head
    · rw [head'] at head
      obtain rfl := Option.some.inj head
      exact text

end

/-! ## What is kept of lines -/

/-- A code block is kept up to the line that closes it. -/
theorem tidyLines_code {fence : Fence} {inside : List Text} {closing : Text}
    (stays : ∀ l ∈ inside, fence.isClosedBy l = false) (closes : fence.isClosedBy closing = true)
    (behind : List Text) :
    tidyLines (.code fence) (inside ++ closing :: behind) =
      inside ++ closing :: tidyLines .line behind := by
  obtain ⟨kept, ended, -, -⟩ := Scan.code_lines (closing :: behind) stays
  rw [Scan.tidyLines_eq_keepAll, Scan.tidyLines_eq_keepAll, Scan.keepAll_append, List.append_nil,
    kept, ended]
  simp [Scan.keepAll, Scan.keep, Scan.next, closes]

/-- A line of text is kept behind its separator. -/
theorem tidyLines_text {place : Scan} (out : place.inCode = false) {line : Text}
    (text : Text.isBlank line = false) (ls : List Text) :
    tidyLines place (line :: ls) = place.separator ++ line :: tidyLines (.after line ls) ls := by
  cases place with
  | code fence => cases out
  | _ => simp only [tidyLines, text]; rfl

/-- The run: what is kept of lines is read as the settled stretches of the lines. -/
theorem reads_tidyLines {ls : List Text} {stretches : List Stretch} (h : Reads ls stretches)
    {place : Scan} (out : place.inCode = false) :
    Reads (tidyLines place ls) (settle place stretches) := by
  have separated : ∀ (place : Scan) (ls : List Text) (stretches : List Stretch),
      Reads ls stretches →
      Reads (place.separator ++ ls) (place.separator.map blank ++ stretches) := by
    intro place ls stretches read
    rcases separator_eq place with none | one
    · rw [none]
      exact read
    · rw [one]
      exact .blank rfl read
  induction h generalizing place with
  | nil =>
      cases place <;> exact .nil
  | blank space _ ih =>
      rw [settle_blank rfl]
      cases place with
      | code fence => cases out
      | _ =>
          rw [tidyLines, if_pos space]
          · exact ih rfl
          · intro fence eq
            cases eq
  | @flow line ls stretches text loose _ ih =>
      have behind : Scan.after line ls = .line := by
        unfold Scan.after
        split
        · next fence opens => rw [if_neg (by simp [loose fence opens])]
        · rfl
      rw [settle_text rfl, tidyLines_text out text, behind]
      refine separated place _ _ (.flow text (fun fence opens => ?_) (ih rfl))
      -- what is kept is old or empty, so that it closes no fence that was not closed before
      rw [List.any_eq_false]
      intro l mem
      rcases mem_tidyLines mem with old | rfl
      · exact List.any_eq_false.1 (loose fence opens) l old
      · rw [Fence.isClosedBy_of_isBlank opens rfl]
        exact Bool.false_ne_true
  | @code opening closing inside ls stretches fence opens stays closes _ ih =>
      have behind : Scan.after opening (inside ++ closing :: ls) = .code fence := by
        simp [Scan.after, opens, closes]
      rw [settle_text rfl, tidyLines_text out (Fence.isBlank_of_open? opens), behind,
        tidyLines_code stays closes]
      exact separated place _ _ (.code opens stays closes (ih rfl))

/-- Whatever is code, the lines of text are kept, and no other ones. -/
theorem filter_text_tidyLines (place : Scan) (ls : List Text) :
    (tidyLines place ls).filter (!Text.isBlank ·) = ls.filter (!Text.isBlank ·) := by
  rw [Scan.tidyLines_eq_keepAll]
  induction ls generalizing place with
  | nil => rfl
  | cons l ls ih =>
      have here : (place.keep l).filter (!Text.isBlank ·) = [l].filter (!Text.isBlank ·) := by
        cases place with
        | code fence => rfl
        | _ => simp only [Scan.keep]; split <;> simp_all [Scan.separator, Text.isBlank]
      rw [Scan.keepAll, List.filter_append, here, ih, ← List.filter_append]
      rfl

/-! ## Texts -/

/-- The kept lines start and end with text. -/
theorem ends_tidyLines {ls : List Text} (some : tidyLines .start ls ≠ []) :
    ∃ first last, (tidyLines .start ls).head? = .some first ∧
      (tidyLines .start ls).getLast? = .some last ∧ Text.isBlank first = false ∧
        Text.isBlank last = false := by
  obtain ⟨stretches, read⟩ := exists_reads ls
  have kept : Reads (tidyLines .start ls) (settle .start stretches) := reads_tidyLines read rfl
  have settled := settled_settle stretches
  have lines := kept.lines_eq
  obtain ⟨s, head⟩ : ∃ s, (settle .start stretches).head? = .some s := by
    cases eq : settle .start stretches with
    | nil =>
        rw [eq] at lines
        exact absurd lines some
    | cons s _ => exact ⟨s, rfl⟩
  obtain ⟨u, last⟩ : ∃ u, (settle .start stretches).getLast? = .some u := by
    cases eq : settle .start stretches with
    | nil => simp [eq] at head
    | cons s more => exact ⟨_, List.getLast?_eq_some_getLast (List.cons_ne_nil s more)⟩
  refine ⟨s.first, u.last, ?_, ?_, ?_, ?_⟩
  · obtain ⟨more, eq⟩ := List.head?_eq_some_iff.1 head
    rw [lines, eq, List.flatMap_cons, List.head?_append, s.head?_lines]
    rfl
  · obtain ⟨front, eq⟩ := List.getLast?_eq_some_iff.1 last
    rw [lines, eq, List.flatMap_append, List.flatMap_singleton, List.getLast?_append,
      u.getLast?_lines]
    rfl
  · rw [(kept.isBlank_ends s (List.mem_of_head? head)).1]
    exact settled.first s head
  · rw [(kept.isBlank_ends u (List.mem_of_getLast? last)).2]
    exact settled.last u last

theorem tidy_eq_nil_iff (t : Text) : tidy t = [] ↔ tidyLines .start (Text.lines t) = [] := by
  constructor
  · intro empty
    by_cases none : tidyLines .start (Text.lines t) = []
    · exact none
    · obtain ⟨first, -, head, -, text, -⟩ := ends_tidyLines none
      rw [← segments_tidy none, empty] at head
      obtain rfl : [] = first := Option.some.inj head
      cases text
  · intro none
    rw [tidy, none]
    rfl

/-- A text without carriage returns has, once it is clean, its kept lines as lines. -/
theorem lines_tidy {t : Text} (plain : '\r' ∉ t) :
    Text.lines (tidy t) = tidyLines .start (Text.lines t) := by
  by_cases none : tidyLines .start (Text.lines t) = []
  · rw [tidy, none]
    rfl
  · have cut := segments_tidy none
    rw [Text.lines_eq_segments, cut]
    · intro l mem last
      rw [cut] at mem
      rcases mem_tidyLines mem with mem | rfl
      · exact plain (Text.mem_of_mem_lines mem (List.mem_of_getLast? last))
      · cases last
    · obtain ⟨-, last, -, ends, -, text⟩ := ends_tidyLines none
      rw [cut, ends]
      intro empty
      rw [Option.some.inj empty] at text
      cases text

/-- The lines of text in a clean text are those of the text. -/
theorem filter_text_tidy (t : Text) :
    (Text.segments (tidy t)).filter (!Text.isBlank ·) =
      (Text.lines t).filter (!Text.isBlank ·) := by
  rw [← filter_text_tidyLines .start (Text.lines t)]
  by_cases none : tidyLines .start (Text.lines t) = []
  · rw [tidy, none]
    rfl
  · rw [segments_tidy none]

/-- **Clean text is settled.**  The lines of any text can be read, and its clean form has
the same stretches with the blank lines among them settled: so its lines of text are those
of the text, in order, and a line of text stands at either end.  Cleaning a second time
changes nothing, unless the text has carriage returns. -/
theorem tidy_settles (t : Text) :
    (∃ stretches, Reads (Text.lines t) stretches) ∧
      (∀ stretches, Reads (Text.lines t) stretches → ∃ kept, Settled stretches kept ∧
        if tidy t = [] then kept = [] else Reads (Text.segments (tidy t)) kept) ∧
      (Text.segments (tidy t)).filter (!Text.isBlank ·) =
        (Text.lines t).filter (!Text.isBlank ·) ∧
      (tidy t = [] ∨ ∃ first last, (Text.segments (tidy t)).head? = some first ∧
        (Text.segments (tidy t)).getLast? = some last ∧ Text.isBlank first = false ∧
          Text.isBlank last = false) ∧
      ('\r' ∉ t → tidy (tidy t) = tidy t) := by
  refine ⟨exists_reads _, fun stretches read => ?_, filter_text_tidy t, ?_, fun plain => ?_⟩
  · refine ⟨settle .start stretches, settled_settle stretches, ?_⟩
    have again : Reads (tidyLines .start (Text.lines t)) (settle .start stretches) :=
      reads_tidyLines read rfl
    split
    · next empty =>
      rw [(tidy_eq_nil_iff t).1 empty] at again
      generalize settle .start stretches = kept at again ⊢
      cases again
      rfl
    · next filled =>
      rwa [segments_tidy fun none => filled ((tidy_eq_nil_iff t).2 none)]
  · by_cases none : tidyLines .start (Text.lines t) = []
    · exact .inl ((tidy_eq_nil_iff t).2 none)
    · right
      rw [segments_tidy none]
      exact ends_tidyLines none
  · rw [tidy, lines_tidy plain, tidyLines_tidyLines]
    rfl

/-- Blank lines at both ends and in the middle, and a code block with two of its own. -/
def spacedText : Text := "\n\na\n \n\n- ```\n  b\n\n\n  c\n  ```\nd\n\n"

theorem tidy_spacedText : '\r' ∉ spacedText ∧
    tidy spacedText = "a\n\n- ```\n  b\n\n\n  c\n  ```\nd".toList ∧
    tidy (tidy spacedText) = tidy spacedText := by
  have plain : '\r' ∉ spacedText := by decide
  have clean : tidy spacedText = "a\n\n- ```\n  b\n\n\n  c\n  ```\nd".toList := by decide
  exact ⟨plain, clean, (tidy_settles spacedText).2.2.2.2 plain⟩

end Wikidown.Markdown
