/-
# Wikidown.Proofs.Delimiters -- spans side by side

The marks of a span differ from an asterisk in front of them, and a struck span behind a struck
one goes on with it, so that runs of marks stay as short as the marks themselves.  But a struck
span that breaks a line does not go on: its two tildes stand behind the two of the span before.

`Stress` is a span of texts and line breaks without the characters that marks are made of.
`Untangled` is what holds of the draft behind such spans as long as no two collide; a span that
does not collide keeps it (`Untangled.emphasize`), and a collision leaves a run that nothing
takes back (`Untangled.exists_run`, `prefix_emphasize`).  The main statement is
`delimiters_apart_iff`: a paragraph of spans has no character of marks three times in a row
exactly if none of its spans collide.
-/
import Wikidown.Proofs.LineEnds
import Wikidown.Proofs.Runs

namespace Wikidown.Markdown

set_option autoImplicit false

open Document (Node Forest Emphasis)
open Text (Tripled)

/-! ## Spans -/

/-- The characters that the marks of spans are made of. -/
def markChars : Text := ['*', '_', '~']

theorem isSpace_of_mem_markChars {c : Char} (h : c ∈ markChars) : isSpace c = false := by
  simp only [markChars, List.mem_cons, List.not_mem_nil, or_false] at h
  rcases h with rfl | rfl | rfl <;> rfl

/-- Texts and line breaks, of which no text holds a character of marks. -/
def Flat (inner : List Phrase) : Prop :=
  ∀ p ∈ inner, p = .lineBreak ∨ ∃ t, p = .text t ∧ ∀ c ∈ markChars, c ∉ t

theorem Flat.tail {p : Phrase} {inner : List Phrase} (h : Flat (p :: inner)) : Flat inner :=
  fun q mem => h q (List.mem_cons_of_mem p mem)

/-- A span of texts and line breaks. -/
structure Stress where
  kind : Emphasis
  inner : List Phrase
  flat : Flat inner

namespace Stress

/-- The span as a phrase. -/
def phrase (s : Stress) : Phrase := .emphasis s.kind s.inner

/-- The text of the span; a line break is a line feed in it. -/
def content (s : Stress) : Text := Forest.textContents (phraseNodes s.inner)

/-- The text of the span as it stands between its marks. -/
def written (language : Language) (s : Stress) : Text :=
  inlineText language (phraseNodes s.inner)

end Stress

/-- How a draft shows what was read: the ends of the two are visible together. -/
structure Mirrors (read : Text) (out : Draft) : Prop where
  empty : out.isEmpty = read.isEmpty
  first : out.text.head?.any isVisible = read.head?.any isVisible
  last : out.head?.any isVisible = read.getLast?.any isVisible
  chars : ∀ c ∈ out, c ∈ read ∨ c = ' ' ∨ c = '\n'

namespace Mirrors

variable {read : Text} {out : Draft}

/-- One more character is read and written. -/
theorem push (h : Mirrors read out) {c d : Char} (same : isVisible d = isVisible c)
    (char : d = c ∨ d = ' ') : Mirrors (read ++ [c]) (d :: out) := by
  refine ⟨by simp, ?_, by simp [same], ?_⟩
  · have first := h.first
    have empty := h.empty
    rw [Draft.text, List.reverse_cons, List.head?_append, List.head?_append]
    cases read with
    | nil =>
        rw [List.isEmpty_iff.1 empty]
        simp [same]
    | cons e read =>
        cases eq : out.reverse with
        | nil =>
            rw [List.reverse_eq_nil_iff.1 eq] at empty
            cases empty
        | cons f rest => simpa [Draft.text, eq] using first
  · intro e he
    rcases List.mem_cons.1 he with rfl | he
    · exact char.imp (fun eq => by simp [eq]) .inl
    · exact (h.chars e he).imp_left (List.mem_append_left _)

/-- White space is read behind white space. -/
theorem skip (h : Mirrors read out) {c : Char} (space : isVisible c = false)
    (spaced : out.spaced = true) : Mirrors (read ++ [c]) out := by
  have filled : read ≠ [] := by
    rintro rfl
    have empty := h.empty
    rw [List.isEmpty_nil, List.isEmpty_iff] at empty
    rw [empty] at spaced
    cases spaced
  refine ⟨?_, ?_, ?_, fun d hd => (h.chars d hd).imp_left (List.mem_append_left _)⟩
  · have empty := h.empty
    cases read with
    | nil => exact absurd rfl filled
    | cons d read => exact empty
  · cases read with
    | nil => exact absurd rfl filled
    | cons d read => exact h.first
  · rw [List.getLast?_concat, Option.any_some, space]
    unfold Draft.spaced at spaced
    split at spaced
    · rfl
    · rfl
    · cases spaced

theorem join_collapse (h : Mirrors read out) (t : Text) :
    Mirrors (read ++ t) (out.join (Text.collapse t)) := by
  refine Draft.join_collapse_run ?_ ?_ h t
  · intro read out c _ mirrored
    exact mirrored.push rfl (.inl rfl)
  · intro read out c space mirrored
    have unseen : isVisible c = false := by simp [isVisible, space]
    cases spaced : out.spaced with
    | true => exact mirrored.skip unseen spaced
    | false => exact mirrored.push unseen.symm (.inr rfl)

theorem breakLine (h : Mirrors read out) : Mirrors (read ++ ['\n']) out.breakLine := by
  refine ⟨by simp [Draft.breakLine], ?_, by simp [Draft.breakLine, isVisible, isSpace], ?_⟩
  · have written : out.breakLine.text =
        Draft.text (out.dropWhile (· == ' ')) ++ [' ', ' ', '\n'] := by
      simp [Draft.breakLine, Draft.text]
    have whole : out.text = Draft.text (out.dropWhile (· == ' ')) ++
        Draft.text (out.takeWhile (· == ' ')) := by
      rw [Draft.text, Draft.text, Draft.text, ← List.reverse_append,
        List.takeWhile_append_dropWhile]
    have first : (read ++ ['\n']).head?.any isVisible = out.text.head?.any isVisible := by
      rw [h.first]
      cases read <;> rfl
    rw [first, written, whole]
    cases kept : Draft.text (out.dropWhile (· == ' ')) with
    | cons c rest => rfl
    | nil =>
        -- The draft holds spaces only, if anything.
        cases spaces : Draft.text (out.takeWhile (· == ' ')) with
        | nil => rfl
        | cons c rest =>
            have mem : c ∈ out.takeWhile (· == ' ') :=
              List.mem_reverse.1 (show c ∈ Draft.text _ from spaces ▸ List.mem_cons_self)
            have space := List.all_eq_true.1 List.all_takeWhile c mem
            rw [beq_iff_eq] at space
            rw [space]
            rfl
  · intro c hc
    simp only [Draft.breakLine, List.mem_cons] at hc
    rcases hc with rfl | rfl | rfl | hc
    · exact .inr (.inr rfl)
    · exact .inr (.inl rfl)
    · exact .inr (.inl rfl)
    · exact (h.chars c ((List.dropWhile_suffix _).subset hc)).imp_left (List.mem_append_left _)

end Mirrors

section

variable (language : Language)

theorem mirrors_phrases {inner : List Phrase} (flat : Flat inner) {read : Text} {out : Draft}
    (h : Mirrors read out) :
    Mirrors (read ++ Forest.textContents (phraseNodes inner))
      (writeForest language (phraseNodes inner) out) := by
  induction inner generalizing read out with
  | nil => simpa [phraseNodes, Forest.textContents, writeForest] using h
  | cons p inner ih =>
      rw [phraseNodes, Forest.textContents, writeForest, ← List.append_assoc]
      rcases flat p List.mem_cons_self with rfl | ⟨t, rfl, -⟩
      · exact ih flat.tail h.breakLine
      · exact ih flat.tail (h.join_collapse t)

theorem feed_mem_phrases {inner : List Phrase} (flat : Flat inner) (out : Draft) :
    '\n' ∈ writeForest language (phraseNodes inner) out ↔ '\n' ∈ out ∨ .lineBreak ∈ inner := by
  induction inner generalizing out with
  | nil => simp [phraseNodes, writeForest]
  | cons p inner ih =>
      rw [phraseNodes, writeForest, ih flat.tail]
      rcases flat p List.mem_cons_self with rfl | ⟨t, rfl, -⟩
      · simp [Phrase.node, writeNode, Draft.breakLine]
      · have here : '\n' ∉ Text.collapseFrom (Draft.spaced out) t := fun mem => by
          rcases Text.mem_collapseFrom mem with eq | visible
          · cases eq
          · cases visible
        rw [Phrase.node, writeNode, Draft.join_collapse]
        simp [Draft.put, here]

namespace Stress

variable (s : Stress)

theorem mirrors_written :
    Mirrors s.content (writeForest language (phraseNodes s.inner) []) := by
  have start : Mirrors [] [] := ⟨rfl, rfl, rfl, by simp⟩
  exact mirrors_phrases language s.flat start

theorem written_eq_nil_iff : s.written language = [] ↔ s.content = [] := by
  have empty := (s.mirrors_written language).empty
  rw [Bool.eq_iff_iff, List.isEmpty_iff, List.isEmpty_iff] at empty
  rw [written, inlineText, Draft.text, List.reverse_eq_nil_iff]
  exact empty

theorem head?_written :
    (s.written language).head?.any isVisible = s.content.head?.any isVisible :=
  (s.mirrors_written language).first

theorem getLast?_written :
    (s.written language).getLast?.any isVisible = s.content.getLast?.any isVisible := by
  rw [written, inlineText, Draft.text, List.getLast?_reverse]
  exact (s.mirrors_written language).last

theorem feed_mem_written : '\n' ∈ s.written language ↔ .lineBreak ∈ s.inner := by
  rw [written, inlineText, Draft.text, List.mem_reverse, feed_mem_phrases language s.flat]
  simp

theorem unmarked_written {c : Char} (h : c ∈ markChars) : c ∉ s.written language := by
  intro mem
  have visible := isSpace_of_mem_markChars h
  have read : c ∈ s.content := by
    rcases (s.mirrors_written language).chars c (List.mem_reverse.1 mem) with read | rfl | rfl
    · exact read
    · cases visible
    · cases visible
  have free : ∀ inner : List Phrase, Flat inner →
      c ∉ Forest.textContents (phraseNodes inner) := by
    intro inner flat
    induction inner with
    | nil => simp [phraseNodes, Forest.textContents]
    | cons p inner ih =>
        rw [phraseNodes, Forest.textContents, List.mem_append, not_or]
        refine ⟨?_, ih flat.tail⟩
        rcases flat p List.mem_cons_self with rfl | ⟨t, rfl, plain⟩
        · rintro feed
          rw [List.mem_singleton.1 feed] at visible
          cases visible
        · exact plain c h
  exact free s.inner s.flat read

end Stress

end

/-! ## Marks that have been written -/

/-- What holds of a draft as long as no marks run together: no character of marks stands three
times in a row, and tildes at the end are the two of a struck span. -/
structure Untangled (out : Draft) (struck : Prop) : Prop where
  runs : ∀ c ∈ markChars, ¬ Tripled c out.text
  tildes : struck → ∃ x before, out = '~' :: '~' :: x :: before ∧ x ∉ markChars
  other : ¬ struck → out.head? ≠ some '~'

theorem getLast?_text (out : Draft) : out.text.getLast? = out.head? := List.getLast?_reverse

theorem marks_strikethrough (out : Draft) : marks .strikethrough out = "~~" := rfl

theorem marks_ends {kind : Emphasis} (other : kind ≠ .strikethrough) (out : Draft) :
    (marks kind out).getLast?.any (· != '~') = true := by
  unfold marks
  split
  · rfl
  · rfl
  · rfl
  · rfl
  · exact absurd rfl other

/-- Marks differ from an asterisk or an underscore in front of them. -/
theorem marks_seam {kind : Emphasis} {out : Draft} {c : Char} (char : c ∈ markChars)
    (last : out.head? = some c) (first : (marks kind out).head? = some c) :
    c = '~' ∧ kind = .strikethrough := by
  simp only [markChars, List.mem_cons, List.not_mem_nil, or_false] at char
  cases out with
  | nil => cases last
  | cons d out =>
      obtain rfl : d = c := by simpa using last
      rcases char with rfl | rfl | rfl
      · cases kind <;> simp [marks] at first
      · cases kind <;> simp [marks] at first
      · cases kind with
        | strikethrough => exact ⟨rfl, rfl⟩
        | bold => simp [marks] at first
        | italic => simp [marks] at first

theorem not_tripled_marks (kind : Emphasis) (out : Draft) (c : Char) :
    ¬ Tripled c (marks kind out) := by
  intro run
  have long := run.length_le
  have short : (marks kind out).length ≤ 2 := by
    unfold marks
    split <;> decide
  have three : [c, c, c].length = 3 := rfl
  omega

theorem feed_notMem_marks (kind : Emphasis) (out : Draft) :
    '\n' ∉ marks kind out ++ marks kind out := by
  intro mem
  have visible := (marks_visible kind out).2 '\n' (by simpa using mem)
  cases visible

section

variable {out : Draft} {struck : Prop} {kind : Emphasis} {t : Text}

theorem any_isVisible_of_spaced (spaced : out.spaced = true) : out.head?.any isVisible = false := by
  unfold Draft.spaced at spaced
  split at spaced
  · rfl
  · rfl
  · cases spaced

/-- What is joined brings its own runs only, unless it goes on with a character at the end. -/
theorem Untangled.runs_join (h : Untangled out struck) {piece : Text}
    (free : ∀ c ∈ markChars, ¬ Tripled c piece)
    (seam : ∀ c ∈ markChars, out.head? = some c → piece.head? ≠ some c) :
    ∀ c ∈ markChars, ¬ Tripled c (out.join piece).text := by
  intro c char run
  rw [Draft.join_eq, Draft.text_put] at run
  cases spaced : out.spaced with
  | false =>
      rw [spaced, if_neg (by simp)] at run
      rcases run.of_append (by rw [getLast?_text]; exact seam c char) with early | later
      · exact h.runs c char early
      · exact free c char later
  | true =>
      rw [spaced, if_pos rfl] at run
      have space : out.head? ≠ some c := by
        intro last
        have unseen := any_isVisible_of_spaced spaced
        rw [last, Option.any_some, isVisible, isSpace_of_mem_markChars char] at unseen
        cases unseen
      rcases run.of_append (by rw [getLast?_text]; exact fun last => absurd last space) with
        early | later
      · exact h.runs c char early
      · exact free c char (later.of_infix (List.dropWhile_suffix _).isInfix)

/-- The draft behind a span, by how its text ends. -/
theorem untangled_of_ends (kind : Emphasis) (out : Draft) {next : Draft}
    (free : ∀ c ∈ markChars, c ∉ t) (filled : t ≠ [])
    (runs : ∀ c ∈ markChars, ¬ Tripled c next.text)
    (shown : ∀ front d, t = front ++ [d] → isSpace d = false →
      ∃ before, next.text = before ++ d :: marks kind out)
    (unseen : t.getLast?.any isVisible = false → next.head?.any isVisible = false) :
    Untangled next (kind = .strikethrough ∧ t.getLast?.any isVisible = true) := by
  rcases List.eq_nil_or_concat t with none | ⟨front, d, eq⟩
  · exact absurd none filled
  rw [List.concat_eq_append] at eq
  subst eq
  have last : (front ++ [d]).getLast? = some d := List.getLast?_concat
  refine ⟨runs, ?_, ?_⟩
  · rintro ⟨rfl, visible⟩
    rw [last, Option.any_some, isVisible, Bool.not_eq_true'] at visible
    obtain ⟨before, text⟩ := shown front d rfl visible
    have reversed := congrArg List.reverse text
    rw [Draft.text, List.reverse_reverse] at reversed
    refine ⟨d, before.reverse, by simp [reversed, marks_strikethrough], fun char => ?_⟩
    exact free d char (by simp)
  · intro other ends
    cases visible : isVisible d with
    | false =>
        have hidden := unseen (by rw [last, Option.any_some, visible])
        rw [ends] at hidden
        cases hidden
    | true =>
        have space : isSpace d = false := by simpa [isVisible] using visible
        obtain ⟨before, text⟩ := shown front d rfl space
        have plain : kind ≠ .strikethrough := fun struck =>
          other ⟨struck, by rw [last, Option.any_some, visible]⟩
        have final := marks_ends plain out
        rw [← getLast?_text, text, List.getLast?_append, List.getLast?_cons] at ends
        cases closing : (marks kind out).getLast? with
        | none =>
            rw [closing] at final
            cases final
        | some e =>
            rw [closing] at final ends
            simp_all

/-- A span that is joined and does not collide with tildes. -/
theorem Untangled.emphasize_join (h : Untangled out struck) (free : ∀ c ∈ markChars, c ∉ t)
    (filled : t ≠ [])
    (clear : struck → kind = .strikethrough → t.head?.any isVisible = false) :
    Untangled (out.join (wrap (marks kind out) (marks kind out) t))
      (kind = .strikethrough ∧ t.getLast?.any isVisible = true) := by
  have unbroken := feed_notMem_marks kind out
  refine untangled_of_ends kind out free filled ?_ ?_ ?_
  · refine h.runs_join (fun c char => ?_) fun c char last first => ?_
    · exact not_tripled_wrap (isSpace_of_mem_markChars char) unbroken (not_tripled_marks kind out c)
        (not_tripled_marks kind out c) (free c char)
    · cases seen : t.head?.any isVisible with
      | false =>
          rw [head?_wrap seen] at first
          exact free c char (List.mem_of_head? first)
      | true =>
          cases t with
          | nil => cases seen
          | cons d rest =>
              have visible : isSpace d = false := by simpa [isVisible] using seen
              obtain ⟨behind, eq⟩ := exists_wrap_front visible rest
              have opens : (marks kind out).head? = some c := by
                rw [eq, List.head?_append] at first
                cases mark : marks kind out with
                | nil => exact absurd mark (marks_visible kind out).1
                | cons e more => simpa [mark] using first
              obtain ⟨rfl, struckThrough⟩ := marks_seam char last opens
              have is : struck := Classical.byContradiction fun isNot => h.other isNot last
              rw [clear is struckThrough] at seen
              cases seen
  · rintro front d rfl visible
    obtain ⟨before, eq⟩ := exists_wrap_back visible front
    have kept : (d :: marks kind out).dropWhile (· == ' ') = d :: marks kind out := by
      rw [List.dropWhile_cons, if_neg]
      rintro space
      rw [beq_iff_eq.1 space] at visible
      cases visible
    rw [Draft.join_eq, Draft.text_put, eq]
    cases spaced : out.spaced with
    | false => exact ⟨out.text ++ before, by simp⟩
    | true =>
        rw [if_pos rfl, List.dropWhile_append, kept]
        split
        · exact ⟨out.text, rfl⟩
        · exact ⟨out.text ++ before.dropWhile (· == ' '), by simp⟩
  · intro unseen
    have last := @getLast?_wrap (marks kind out) (marks kind out) t unseen
    rw [← getLast?_text, Draft.join_eq, Draft.text_put, List.getLast?_append, getLast?_text]
    generalize wrap (marks kind out) (marks kind out) t = piece at last
    cases spaced : out.spaced with
    | false =>
        rw [if_neg (by simp), last]
        rw [List.getLast?_eq_some_getLast filled] at unseen ⊢
        exact unseen
    | true =>
        rw [if_pos rfl]
        obtain ⟨dropped, whole⟩ := List.dropWhile_suffix (· == ' ') (l := piece)
        cases rest : (piece.dropWhile (· == ' ')).getLast? with
        | none => exact any_isVisible_of_spaced spaced
        | some c =>
            rw [← whole, List.getLast?_append, rest, Option.some_or] at last
            rw [← last] at unseen
            exact unseen

/-- A struck span that goes on with the one before it. -/
theorem Untangled.emphasize_goesOn {before : Draft} (h : Untangled ('~' :: '~' :: before) struck)
    (free : ∀ c ∈ markChars, c ∉ t) (filled : t ≠ []) :
    Untangled (before.put (wrap [] "~~" t))
      (Emphasis.strikethrough = .strikethrough ∧ t.getLast?.any isVisible = true) := by
  have is : struck := Classical.byContradiction fun isNot => h.other isNot rfl
  obtain ⟨x, front, eq, plain⟩ := h.tildes is
  obtain rfl : before = x :: front := by simpa using eq
  refine untangled_of_ends .strikethrough [] free filled ?_ ?_ ?_
  · intro c char run
    have noRun := @not_tripled_wrap [] "~~" t c (isSpace_of_mem_markChars char) (by decide)
      (fun run => nomatch run.mem) (not_tripled_marks .strikethrough [] c) (free c char)
    have ne : x ≠ c := by
      rintro rfl
      exact plain char
    rw [Draft.text_put, Draft.text, List.reverse_cons, List.append_assoc] at run
    rcases run.of_cons ne with early | later
    · refine h.runs c char (early.of_infix ⟨[], [x, '~', '~'], ?_⟩)
      simp [Draft.text]
    · exact noRun later
  · rintro u d rfl visible
    obtain ⟨behind, shown⟩ := @exists_wrap_back [] "~~" d visible u
    exact ⟨Draft.text (x :: front) ++ behind, by rw [Draft.text_put, shown, List.append_assoc]; rfl⟩
  · intro unseen
    have last := @getLast?_wrap [] "~~" t unseen
    rw [← getLast?_text, Draft.text_put, List.getLast?_append, last]
    rw [List.getLast?_eq_some_getLast filled] at unseen ⊢
    exact unseen

/-- A span that does not collide: no struck span with a line break in it and nothing but marks
between it and the struck span before it. -/
theorem Untangled.emphasize (h : Untangled out struck) (free : ∀ c ∈ markChars, c ∉ t)
    (clear : struck → kind = .strikethrough → t.head?.any isVisible = true → '\n' ∉ t) :
    Untangled (out.emphasize kind t)
      (t = [] ∧ struck ∨ kind = .strikethrough ∧ t.getLast?.any isVisible = true) := by
  by_cases empty : t = []
  · subst empty
    have same : out.emphasize kind [] = out := by
      have none : wrap (marks kind out) (marks kind out) [] = [] := rfl
      have joined := @Draft.emphasize_eq_join out kind [] fun _ _ _ goesOn => by cases goesOn
      rw [joined, none, Draft.join_eq, List.dropWhile_nil, ite_self]
      rfl
    have still : (([] : Text) = [] ∧ struck ∨ kind = .strikethrough ∧
        ([] : Text).getLast?.any isVisible = true) = struck := by simp
    rw [same, still]
    exact h
  · have final : (t = [] ∧ struck ∨ kind = .strikethrough ∧ t.getLast?.any isVisible = true) =
        (kind = .strikethrough ∧ t.getLast?.any isVisible = true) := by simp [empty]
    rw [final]
    by_cases goesOn : ∃ before, kind = .strikethrough ∧ out = '~' :: '~' :: before ∧
        continuesStrike t = true
    · obtain ⟨before, rfl, rfl, continues⟩ := goesOn
      rw [Draft.emphasize_goesOn before continues]
      exact h.emphasize_goesOn free empty
    · rw [Draft.emphasize_eq_join fun before struck ends continues =>
        goesOn ⟨before, struck, ends, continues⟩]
      refine h.emphasize_join free empty fun is struckThrough => ?_
      -- A text that starts visibly behind tildes goes on, unless a line breaks in it.
      rw [Bool.eq_false_iff]
      intro seen
      obtain ⟨x, before, ends, -⟩ := h.tildes is
      refine goesOn ⟨x :: before, struckThrough, ends, ?_⟩
      rw [continuesStrike, Bool.and_eq_true]
      exact ⟨by simpa using clear is struckThrough seen, seen⟩

/-- What ends with another character than a tilde is never taken back. -/
theorem prefix_emphasize {k : Text} {d : Char} (notTilde : d ≠ '~') (kind : Emphasis) (t : Text)
    (h : k ++ [d] <+: out.text) : k ++ [d] <+: (out.emphasize kind t).text := by
  by_cases goesOn : ∃ before, kind = .strikethrough ∧ out = '~' :: '~' :: before ∧
      continuesStrike t = true
  · obtain ⟨before, rfl, rfl, continues⟩ := goesOn
    have split : Draft.text ('~' :: '~' :: before) = Draft.text before ++ ['~', '~'] := by
      simp [Draft.text]
    rw [split] at h
    rw [Draft.emphasize_goesOn before continues, Draft.text_put]
    exact (prefix_of_tildes notTilde h).trans (List.prefix_append _ _)
  · rw [Draft.emphasize_eq_join fun before struck ends continues =>
      goesOn ⟨before, struck, ends, continues⟩, Draft.join_eq, Draft.text_put]
    exact h.trans (List.prefix_append _ _)

/-- A struck span that breaks a line, directly behind a struck span: a run of four tildes. -/
theorem Untangled.exists_run (h : Untangled out struck) (free : ∀ c ∈ markChars, c ∉ t)
    (is : struck) (seen : t.head?.any isVisible = true) (feed : '\n' ∈ t) :
    ∃ k d, d ≠ '~' ∧ Tripled '~' k ∧ k ++ [d] <+: (out.emphasize .strikethrough t).text := by
  obtain ⟨x, before, rfl, -⟩ := h.tildes is
  cases t with
  | nil => cases seen
  | cons d rest =>
      have visible : isSpace d = false := by simpa [isVisible] using seen
      obtain ⟨behind, eq⟩ := @exists_wrap_front "~~" "~~" d visible rest
      have stops : continuesStrike (d :: rest) = false := by
        rw [continuesStrike, List.contains_eq_mem, decide_eq_true feed]
        rfl
      have joined := @Draft.emphasize_eq_join ('~' :: '~' :: x :: before) .strikethrough (d :: rest)
        fun _ _ _ goesOn => by
          rw [stops] at goesOn
          cases goesOn
      refine ⟨Draft.text (x :: before) ++ "~~~~", d, ?_, ?_, ?_⟩
      · rintro rfl
        exact free '~' (by decide) List.mem_cons_self
      · exact ⟨Draft.text (x :: before), ['~'], by simp⟩
      · rw [joined, marks_strikethrough, eq, Draft.join_eq, if_neg (by simp [Draft.spaced]),
          Draft.text_put]
        exact ⟨behind, by simp [Draft.text]⟩

end

/-! ## Spans side by side -/

/-- A struck span that ends visibly stands at the end of the spans, empty ones behind it aside. -/
def EndsStruck (spans : List Stress) : Prop :=
  ∃ before s gap, spans = before ++ s :: gap ∧ s.kind = .strikethrough ∧
    s.content.getLast?.any isVisible = true ∧ ∀ e ∈ gap, e.content = []

/-- A struck span that starts visibly and has a line break in it. -/
def Stress.Breaks (s : Stress) : Prop :=
  s.kind = .strikethrough ∧ s.content.head?.any isVisible = true ∧ .lineBreak ∈ s.inner

/-- Such a span stands behind a struck one that ends visibly, with nothing in between. -/
def Collides (spans : List Stress) : Prop :=
  ∃ before s behind, spans = before ++ s :: behind ∧ EndsStruck before ∧ s.Breaks

/-- A list with one more element, cut somewhere. -/
theorem concat_eq_append_cons {α : Type} {before behind xs : List α} {x y : α}
    (h : xs ++ [x] = before ++ y :: behind) :
    (behind = [] ∧ xs = before ∧ x = y) ∨
      ∃ rest, behind = rest ++ [x] ∧ xs = before ++ y :: rest := by
  rcases List.eq_nil_or_concat behind with rfl | ⟨rest, z, rfl⟩
  · obtain ⟨same, last⟩ := List.append_inj' h rfl
    exact .inl ⟨rfl, same, by simpa using last⟩
  · rw [List.concat_eq_append, ← List.cons_append, ← List.append_assoc] at h
    obtain ⟨same, last⟩ := List.append_inj' h rfl
    obtain rfl : x = z := by simpa using last
    exact .inr ⟨rest, List.concat_eq_append, same⟩

theorem endsStruck_concat_iff (spans : List Stress) (s : Stress) :
    EndsStruck (spans ++ [s]) ↔ s.content = [] ∧ EndsStruck spans ∨
      s.kind = .strikethrough ∧ s.content.getLast?.any isVisible = true := by
  constructor
  · rintro ⟨before, a, gap, cut, struck, shown, empty⟩
    rcases concat_eq_append_cons cut with ⟨rfl, rfl, rfl⟩ | ⟨rest, rfl, rfl⟩
    · exact .inr ⟨struck, shown⟩
    · exact .inl ⟨empty s (by simp), before, a, rest, rfl, struck, shown,
        fun e mem => empty e (List.mem_append_left _ mem)⟩
  · rintro (⟨none, before, a, gap, rfl, struck, shown, empty⟩ | ⟨struck, shown⟩)
    · refine ⟨before, a, gap ++ [s], by simp, struck, shown, fun e mem => ?_⟩
      rcases List.mem_append.1 mem with mem | mem
      · exact empty e mem
      · exact List.mem_singleton.1 mem ▸ none
    · exact ⟨spans, s, [], rfl, struck, shown, by simp⟩

theorem collides_concat_iff (spans : List Stress) (s : Stress) :
    Collides (spans ++ [s]) ↔ Collides spans ∨ EndsStruck spans ∧ s.Breaks := by
  constructor
  · rintro ⟨before, b, behind, cut, struck, breaks⟩
    rcases concat_eq_append_cons cut with ⟨rfl, rfl, rfl⟩ | ⟨rest, rfl, rfl⟩
    · exact .inr ⟨struck, breaks⟩
    · exact .inl ⟨before, b, rest, rfl, struck, breaks⟩
  · rintro (⟨before, b, behind, rfl, struck, breaks⟩ | ⟨struck, breaks⟩)
    · exact ⟨before, b, behind ++ [s], by simp, struck, breaks⟩
    · exact ⟨spans, s, [], rfl, struck, breaks⟩

section

variable (language : Language)

/-- The draft behind spans. -/
def writeStresses (spans : List Stress) : Draft :=
  writeForest language (phraseNodes (spans.map Stress.phrase)) []

theorem writeStresses_concat (spans : List Stress) (s : Stress) :
    writeStresses language (spans ++ [s]) =
      (writeStresses language spans).emphasize s.kind (s.written language) := by
  have run : ∀ (spans : List Stress) (out : Draft),
      writeForest language (phraseNodes ((spans ++ [s]).map Stress.phrase)) out =
        (writeForest language (phraseNodes (spans.map Stress.phrase)) out).emphasize s.kind
          (s.written language) := by
    intro spans
    induction spans with
    | nil => exact fun _ => rfl
    | cons a spans ih => exact fun out => ih _
  exact run spans []

/-- Spans that do not collide leave no runs. -/
theorem untangled_writeStresses {spans : List Stress} (apart : ¬ Collides spans) :
    Untangled (writeStresses language spans) (EndsStruck spans) := by
  obtain ⟨r, rfl⟩ : ∃ r : List Stress, spans = r.reverse := ⟨spans.reverse, by simp⟩
  induction r with
  | nil =>
      have none : ¬ EndsStruck [] := by
        rintro ⟨before, s, gap, cut, -⟩
        simp at cut
      exact ⟨fun c _ run => (nomatch run.mem), fun struck => absurd struck none, fun _ => nofun⟩
  | cons s r ih =>
      rw [List.reverse_cons, collides_concat_iff, not_or] at apart
      have clear : EndsStruck r.reverse → s.kind = .strikethrough →
          (s.written language).head?.any isVisible = true → '\n' ∉ s.written language := by
        intro struck kind seen feed
        rw [s.head?_written language] at seen
        rw [s.feed_mem_written language] at feed
        exact apart.2 ⟨struck, kind, seen, feed⟩
      have step := (ih apart.1).emphasize (fun c => s.unmarked_written language) clear
      rw [s.written_eq_nil_iff language, s.getLast?_written language,
        ← endsStruck_concat_iff] at step
      rw [List.reverse_cons, writeStresses_concat]
      exact step

/-- Spans that collide leave a run, and what comes behind it leaves it alone. -/
theorem exists_run_of_collides {spans : List Stress} (h : Collides spans) :
    ∃ k d, d ≠ '~' ∧ Tripled '~' k ∧ k ++ [d] <+: (writeStresses language spans).text := by
  obtain ⟨r, rfl⟩ : ∃ r : List Stress, spans = r.reverse := ⟨spans.reverse, by simp⟩
  induction r with
  | nil =>
      obtain ⟨before, s, behind, cut, -⟩ := h
      simp at cut
  | cons s r ih =>
      rw [List.reverse_cons, writeStresses_concat]
      rw [List.reverse_cons, collides_concat_iff] at h
      by_cases early : Collides r.reverse
      · obtain ⟨k, d, notTilde, run, starts⟩ := ih early
        exact ⟨k, d, notTilde, run, prefix_emphasize notTilde s.kind _ starts⟩
      · obtain ⟨struck, kind, seen, feed⟩ := h.resolve_left early
        rw [kind]
        refine (untangled_writeStresses language early).exists_run
          (fun c => s.unmarked_written language) struck ?_ ((s.feed_mem_written language).2 feed)
        rw [s.head?_written language, seen]

end

/-- **When neighbouring spans keep their marks apart.**  A paragraph of spans, each of texts
without characters of marks and line breaks, has no asterisk, underscore or tilde three times in
a row if and only if no struck span that starts visibly and has a line break in it stands
directly behind a struck span that ends visibly. -/
theorem delimiters_apart_iff (language : Language) (spans : List Stress) :
    (∀ c ∈ markChars,
        ¬ Tripled c (render language (phraseLine (spans.map Stress.phrase)))) ↔
      ¬ Collides spans := by
  have page : ∀ c ∈ markChars,
      (Tripled c (render language (phraseLine (spans.map Stress.phrase))) ↔
        Tripled c (writeStresses language spans).text) := by
    intro c char
    have slash : '\\' ≠ c := by
      rintro rfl
      cases (by decide : ¬ '\\' ∈ markChars) char
    exact tripled_render_iff (runsInline_phrases language) (noReturn_phrases language _)
      (isSpace_of_mem_markChars char) slash
  constructor
  · intro clear collides
    obtain ⟨k, d, -, run, starts⟩ := exists_run_of_collides language collides
    have tilde : '~' ∈ markChars := by decide
    refine clear '~' tilde ((page '~' tilde).2 (run.of_infix ?_))
    exact (List.prefix_append k [d]).isInfix.trans starts.isInfix
  · intro apart c char run
    exact (untangled_writeStresses language apart).runs c char ((page c char).1 run)

/-- A struck letter, and behind it a struck span of two lines. -/
def struckLines : List Stress :=
  [⟨.strikethrough, [.text "a"], by simp [Flat, markChars]⟩,
    ⟨.strikethrough, [.text "b", .lineBreak, .text "c"], by simp [Flat, markChars]⟩]

/-- The tildes of the two stand side by side. -/
theorem struck_lines_run_together :
    ¬ ∀ c ∈ markChars,
      ¬ Tripled c (render .english (phraseLine (struckLines.map Stress.phrase))) := by
  intro clear
  refine clear '~' (by decide) ?_
  exact ⟨"~~a".toList, "~b~~  \n~~c~~".toList, by decide⟩

end Wikidown.Markdown
