/-
# Wikidown.Proofs.Quotes -- quotes around quotes

A quote writes the Markdown of what is in it, each line behind a quote mark (`segments_quote`).
The text is cleaned once more with the marks in front of its lines, but no such line is blank
and so all of them stay.  Taking one mark off each line gives back the text (`unquote?_quote`),
and a forest in `n` quotes has `n` marks in front of each of its lines (`render_quoteTimes`).

A carriage return is the one character that a line can lose, where it stands at its end.
Those of a page come from the strings of the forest (`mem_render`).
-/
import Mathlib.Logic.Function.Iterate
import Wikidown.Proofs.Characters
import Wikidown.Proofs.WrappedCode

namespace Wikidown.Markdown

set_option autoImplicit false

open Document (Node Forest)

/-! ## Taking a quote mark off -/

/-- A line less its quote mark; a mark alone stands for an empty line. -/
def unquoteLine? : Text → Option Text
  | ['>'] => some []
  | '>' :: ' ' :: line => some line
  | _ => none

/-- A text less the quote mark of each line. -/
def unquote? (t : Text) : Option Text :=
  ((Text.segments t).mapM unquoteLine?).map Text.joinLines

/-- A text less `n` quote marks of each line. -/
def unquoteTimes? : Nat → Text → Option Text
  | 0, t => some t
  | n + 1, t => (unquote? t).bind (unquoteTimes? n)

/-- A forest in `n` quotes. -/
def quoteTimes : Nat → Forest → Forest
  | 0, nodes => nodes
  | n + 1, nodes => [.quote (quoteTimes n nodes)]

theorem unquoteLine?_quoteLine (line : Text) : unquoteLine? (quoteLine line) = some line := by
  unfold quoteLine
  split
  · next empty =>
    rw [List.isEmpty_iff.1 empty]
    rfl
  · rfl

theorem mapM_unquoteLine? (ls : List Text) : (ls.map quoteLine).mapM unquoteLine? = some ls := by
  induction ls with
  | nil => rfl
  | cons l ls ih => simp [unquoteLine?_quoteLine, ih]

/-! ## One quote -/

/-- The lines of a clean text without carriage returns. -/
theorem lined_segments_tidy {t : Text} (filled : tidy t ≠ []) (plain : '\r' ∉ tidy t) :
    Lined (Text.segments (tidy t)) where
  filled := Text.segments_ne_nil _
  each := by
    intro l mem
    refine ⟨Text.newline_notMem_of_mem_segments mem, fun last => plain ?_⟩
    exact (Text.mem_of_mem_segments mem _ (List.mem_of_getLast? last)).1
  ends := by
    have kept : tidyLines .start (Text.lines t) ≠ [] := fun none =>
      filled ((tidy_eq_nil_iff t).2 none)
    obtain ⟨-, last, -, ends, -, text⟩ := ends_tidyLines kept
    rw [segments_tidy kept, ends]
    intro empty
    rw [Option.some.inj empty] at text
    cases text

section

variable {language : Language} {nodes : Forest}

/-- A page has carriage returns only where its strings have them. -/
theorem return_notMem_render (plain : ∀ s ∈ Forest.strings nodes, '\r' ∉ s) :
    '\r' ∉ render language nodes := by
  intro mem
  rcases mem_render mem with own | ⟨s, here, inString⟩
  · revert own
    cases language <;> decide
  · exact plain s here inString

/-- A quote around an empty page is an empty page. -/
theorem render_quote_nil (empty : render language nodes = []) :
    render language [.quote nodes] = [] := by
  have nothing : layForest language [.quote nodes] .start = .start := by
    show Flow.start.add (quoteText (render language nodes)) = .start
    rw [empty]
    rfl
  rw [render, nothing]
  rfl

/-- A quote is laid out as the lines of the page in it, each behind a quote mark. -/
theorem laid_quote (filled : render language nodes ≠ []) (plain : '\r' ∉ render language nodes) :
    Page.Laid language (.quote nodes) ((Text.segments (render language nodes)).map quoteLine) := by
  have lined : Lined (Text.segments (render language nodes)) := lined_segments_tidy filled plain
  have lines : Text.lines (render language nodes) = Text.segments (render language nodes) := by
    have whole := lined.lines_joinLines
    rwa [Text.joinLines_segments] at whole
  refine ⟨?_, lined.quote, .quote _⟩
  show Flow.start.add (quoteText (render language nodes)) = _
  rw [quoteText, lines, Page.add_joinLines lined.quote]

/-- The step: a quote puts a mark in front of each line. -/
theorem segments_quote (filled : render language nodes ≠ [])
    (plain : '\r' ∉ render language nodes) :
    Text.segments (render language [.quote nodes]) =
      (Text.segments (render language nodes)).map quoteLine := by
  have laid := laid_quote filled plain
  rw [laid.render_eq, laid.lined.segments_joinLines]

theorem render_quote_eq_nil_iff (plain : '\r' ∉ render language nodes) :
    render language [.quote nodes] = [] ↔ render language nodes = [] := by
  constructor
  · intro empty
    by_cases nothing : render language nodes = []
    · exact nothing
    · have laid := laid_quote nothing plain
      have written := laid.lined.isEmpty_joinLines
      rw [← laid.render_eq, empty] at written
      cases written
  · exact render_quote_nil

/-- Taking the marks of a quote off gives back the page in it. -/
theorem unquote?_quote (filled : render language nodes ≠ [])
    (plain : '\r' ∉ render language nodes) :
    unquote? (render language [.quote nodes]) = some (render language nodes) := by
  rw [unquote?, segments_quote filled plain, mapM_unquoteLine?]
  exact congrArg some (Text.joinLines_segments _)

/-! ## Quotes in quotes -/

theorem strings_quoteTimes (n : Nat) (nodes : Forest) :
    Forest.strings (quoteTimes n nodes) = Forest.strings nodes := by
  induction n with
  | zero => rfl
  | succ n ih =>
      rw [quoteTimes, Forest.strings_cons, ← ih]
      exact List.append_nil _

/-- **Quotes only prefix.**  A forest in `n` quotes has no text exactly if it has none by
itself.  If it has, each line of it stands behind `n` quote marks, and taking these off gives
back its text. -/
theorem render_quoteTimes (plain : ∀ s ∈ Forest.strings nodes, '\r' ∉ s) (n : Nat) :
    (render language (quoteTimes n nodes) = [] ↔ render language nodes = []) ∧
      (render language nodes ≠ [] →
        Text.segments (render language (quoteTimes n nodes)) =
            (Text.segments (render language nodes)).map quoteLine^[n] ∧
          unquoteTimes? n (render language (quoteTimes n nodes)) =
            some (render language nodes)) := by
  induction n with
  | zero => exact ⟨Iff.rfl, fun _ => ⟨(List.map_id _).symm, rfl⟩⟩
  | succ n ih =>
      obtain ⟨empty, inner⟩ := ih
      have inside : '\r' ∉ render language (quoteTimes n nodes) := by
        apply return_notMem_render
        rw [strings_quoteTimes]
        exact plain
      refine ⟨(render_quote_eq_nil_iff inside).trans empty, fun filled => ?_⟩
      have filled' : render language (quoteTimes n nodes) ≠ [] := fun none =>
        filled (empty.1 none)
      obtain ⟨lines, back⟩ := inner filled
      constructor
      · rw [quoteTimes, segments_quote filled' inside, lines, List.map_map,
          ← Function.iterate_succ']
      · rw [quoteTimes, unquoteTimes?, unquote?_quote filled' inside]
        exact back

end

/-- A page with a list, a quote of its own and code with a blank line in it. -/
def quotedPage : Forest :=
  [.list true [.item [.text "a"], .item [.text "b"]],
    .quote [.paragraph [.text "c"], .paragraph [.text "d"]],
    .directive .code .empty [.text "x\n\n y"]]

theorem render_quotedPage :
    (∀ s ∈ Forest.strings quotedPage, '\r' ∉ s) ∧ render .english quotedPage ≠ [] ∧
      unquoteTimes? 3 (render .english (quoteTimes 3 quotedPage)) =
        some "1. a\n2. b\n\n> c\n>\n> d\n\n\x60\x60\x60\nx\n\n y\n\x60\x60\x60".toList := by
  have plain : ∀ s ∈ Forest.strings quotedPage, '\r' ∉ s := by decide
  have written : render .english quotedPage =
      "1. a\n2. b\n\n> c\n>\n> d\n\n\x60\x60\x60\nx\n\n y\n\x60\x60\x60".toList := by decide
  have filled : render .english quotedPage ≠ [] := by
    rw [written]
    decide
  refine ⟨plain, filled, ?_⟩
  rw [((render_quoteTimes plain 3).2 filled).2, written]

end Wikidown.Markdown
