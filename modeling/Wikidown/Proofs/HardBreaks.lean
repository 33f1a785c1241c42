/-
# Wikidown.Proofs.HardBreaks -- line breaks that stay hard

A Markdown reader takes a line feed for a line break if two spaces stand in front of it.  In a
paragraph of phrases these are written for every break, but for one that opens a span behind a
space (`OpensBehindSpace`): of its two spaces one is dropped.  The main statement is
`hard_breaks_iff`: every line but the last ends with the spaces that the reader of the phrases
says, and all of them end with two exactly if no break with visible text behind it opens a
span behind a space.
-/
import Mathlib.Data.List.Forall2
import Wikidown.Proofs.LineEnds

namespace Wikidown.Markdown

set_option autoImplicit false

open Text (EndsVisibly)

/-! ## Breaks that open a span behind a space -/

/-- Strokes that show nothing and break no line. -/
def Quiet (strokes : List Stroke) : Prop := .visible ∉ strokes ∧ .lineBreak ∉ strokes

/-- No span ends among the strokes that did not begin there. -/
def StaysInside (strokes : List Stroke) : Prop :=
  ∀ front, front <+: strokes → front.count .ends ≤ front.count .begins

/-- Strokes behind which a span that has shown nothing yet stands behind a space in a line that
shows something. -/
def OpensBehindSpace (strokes : List Stroke) : Prop :=
  ∃ before gap inner, strokes = before ++ .visible :: gap ++ .begins :: inner ∧
    Quiet gap ∧ .space ∈ gap ∧ Quiet inner ∧ StaysInside inner

theorem Quiet.concat {strokes : List Stroke} (h : Quiet strokes) {s : Stroke} (shows : s ≠ .visible)
    (breaks : s ≠ .lineBreak) : Quiet (strokes ++ [s]) := by
  simp only [Quiet, List.mem_append, List.mem_singleton, not_or]
  exact ⟨⟨h.1, Ne.symm shows⟩, h.2, Ne.symm breaks⟩

theorem quiet_nil : Quiet [] := ⟨by simp, by simp⟩

theorem StaysInside.concat {strokes : List Stroke} (h : StaysInside strokes) {s : Stroke}
    (balanced : (strokes ++ [s]).count .ends ≤ (strokes ++ [s]).count .begins) :
    StaysInside (strokes ++ [s]) := by
  intro front starts
  rcases List.prefix_concat_iff.1 starts with rfl | inside
  · exact balanced
  · exact h front inside

/-- What the strokes are when the reader stands in a given line behind them. -/
def Line.Explains (strokes : List Stroke) : Line → Prop
  | .blank => True
  | .shown spaces =>
      ∃ before gap, strokes = before ++ .visible :: gap ∧ Quiet gap ∧ (spaces ≠ 0 → .space ∈ gap)
  | .folded deeper =>
      ∃ before gap inner, strokes = before ++ .visible :: gap ++ .begins :: inner ∧
        Quiet gap ∧ .space ∈ gap ∧ Quiet inner ∧ StaysInside inner ∧
        inner.count .begins = inner.count .ends + deeper

theorem Line.explains_next {strokes : List Stroke} {line : Line} (h : line.Explains strokes)
    (s : Stroke) : (line.next s).Explains (strokes ++ [s]) := by
  cases s with
  | visible => exact ⟨strokes, [], rfl, quiet_nil, fun some => absurd rfl some⟩
  | lineBreak => trivial
  | space =>
      cases line with
      | blank => trivial
      | shown spaces =>
          obtain ⟨before, gap, rfl, quiet, -⟩ := h
          exact ⟨before, gap ++ [.space], by simp, quiet.concat nofun nofun, by simp⟩
      | folded deeper =>
          obtain ⟨before, gap, inner, rfl, quiet, space, silent, stays, depth⟩ := h
          refine ⟨before, gap, inner ++ [.space], by simp, quiet, space, silent.concat nofun nofun,
            stays.concat ?_, ?_⟩
          · simp; omega
          · simp; omega
  | begins =>
      match line with
      | .blank => trivial
      | .shown 0 =>
          obtain ⟨before, gap, rfl, quiet, -⟩ := h
          exact ⟨before, gap ++ [.begins], by simp, quiet.concat nofun nofun, by simp⟩
      | .shown (_ + 1) =>
          obtain ⟨before, gap, rfl, quiet, space⟩ := h
          refine ⟨before, gap, [], by simp, quiet, space (by simp), quiet_nil, ?_, rfl⟩
          intro front starts
          rw [List.prefix_nil.1 starts]
          exact Nat.le_refl _
      | .folded deeper =>
          obtain ⟨before, gap, inner, rfl, quiet, space, silent, stays, depth⟩ := h
          refine ⟨before, gap, inner ++ [.begins], by simp, quiet, space, silent.concat nofun nofun,
            stays.concat ?_, ?_⟩
          · simp; omega
          · simp; omega
  | ends =>
      match line with
      | .blank => trivial
      | .shown _ =>
          obtain ⟨before, gap, rfl, quiet, space⟩ := h
          exact ⟨before, gap ++ [.ends], by simp, quiet.concat nofun nofun,
            fun some => List.mem_append_left _ (space some)⟩
      | .folded 0 =>
          -- The span that began behind the space is over, and is part of the gap now.
          obtain ⟨before, gap, inner, rfl, quiet, space, silent, -, -⟩ := h
          refine ⟨before, gap ++ .begins :: inner ++ [.ends], by simp, ?_, fun _ => by simp [space]⟩
          simp only [Quiet, List.mem_append, List.mem_cons, not_or] at quiet silent ⊢
          simp [quiet, silent]
      | .folded (deeper + 1) =>
          obtain ⟨before, gap, inner, rfl, quiet, space, silent, stays, depth⟩ := h
          refine ⟨before, gap, inner ++ [.ends], by simp, quiet, space, silent.concat nofun nofun,
            stays.concat ?_, ?_⟩
          · simp; omega
          · simp; omega

theorem Line.explains (strokes : List Stroke) :
    (strokes.foldl Line.next .blank).Explains strokes := by
  obtain ⟨r, rfl⟩ : ∃ r : List Stroke, strokes = r.reverse := ⟨strokes.reverse, by simp⟩
  induction r with
  | nil => trivial
  | cons s r ih =>
      rw [List.reverse_cons, List.foldl_append]
      exact Line.explains_next ih s

/-- A line is blank again behind a break, and stays blank until something shows. -/
theorem Line.next_eq_blank_iff {line : Line} {s : Stroke} :
    line.next s = .blank ↔ s = .lineBreak ∨ line = .blank ∧ s ≠ .visible := by
  cases s with
  | visible => cases line <;> exact ⟨nofun, fun h => h.elim nofun fun h => absurd rfl h.2⟩
  | lineBreak => cases line <;> exact ⟨fun _ => .inl rfl, fun _ => rfl⟩
  | space | begins | ends =>
      rcases line with _ | (_ | _) | (_ | _)
      · exact ⟨fun _ => .inr ⟨rfl, nofun⟩, fun _ => rfl⟩
      all_goals exact ⟨nofun, fun h => h.elim nofun fun h => nomatch h.1⟩

theorem Quiet.tail {s : Stroke} {strokes : List Stroke} (h : Quiet (s :: strokes)) :
    s ≠ .visible ∧ s ≠ .lineBreak ∧ Quiet strokes := by
  simp only [Quiet, List.mem_cons, not_or] at h
  exact ⟨Ne.symm h.1.1, Ne.symm h.2.1, h.1.2, h.2.2⟩

/-- A space stands behind what the line shows, spans that begin behind it aside. -/
def Line.IsSpaced (line : Line) : Prop := (∃ n, line = .shown (n + 1)) ∨ ∃ n, line = .folded n

/-- Such a space is remembered as long as nothing else shows. -/
theorem Line.IsSpaced.foldl_next {gap : List Stroke} (quiet : Quiet gap) {line : Line}
    (h : line.IsSpaced) : (gap.foldl Line.next line).IsSpaced := by
  induction gap generalizing line with
  | nil => exact h
  | cons s gap ih =>
      obtain ⟨shows, breaks, rest⟩ := quiet.tail
      refine ih rest ?_
      obtain ⟨n, rfl⟩ | ⟨n, rfl⟩ := h
      · cases s with
        | visible => exact absurd rfl shows
        | lineBreak => exact absurd rfl breaks
        | space => exact .inl ⟨0, rfl⟩
        | begins => exact .inr ⟨0, rfl⟩
        | ends => exact .inl ⟨n, rfl⟩
      · cases s with
        | visible => exact absurd rfl shows
        | lineBreak => exact absurd rfl breaks
        | space => exact .inr ⟨n, rfl⟩
        | begins => exact .inr ⟨n + 1, rfl⟩
        | ends =>
            cases n with
            | zero => exact .inl ⟨0, rfl⟩
            | succ n => exact .inr ⟨n, rfl⟩

theorem Line.isSpaced_foldl {gap : List Stroke} (quiet : Quiet gap) (space : .space ∈ gap)
    {line : Line} (shows : line ≠ .blank) : (gap.foldl Line.next line).IsSpaced := by
  induction gap generalizing line with
  | nil => cases space
  | cons s gap ih =>
      obtain ⟨invisible, breaks, rest⟩ := quiet.tail
      rw [List.foldl_cons]
      by_cases here : s = .space
      · subst here
        apply IsSpaced.foldl_next rest
        cases line with
        | blank => exact absurd rfl shows
        | shown _ => exact .inl ⟨0, rfl⟩
        | folded n => exact .inr ⟨n, rfl⟩
      · refine ih rest ((List.mem_cons.1 space).resolve_left (Ne.symm here)) ?_
        rw [ne_eq, Line.next_eq_blank_iff, not_or]
        exact ⟨breaks, fun blank => shows blank.1⟩

/-- A span that shows nothing stays open. -/
theorem Line.foldl_inside {inner : List Stroke} (quiet : Quiet inner) (stays : StaysInside inner)
    (deeper : Nat) :
    inner.foldl Line.next (.folded deeper) =
      .folded (deeper + inner.count .begins - inner.count .ends) := by
  obtain ⟨r, rfl⟩ : ∃ r : List Stroke, inner = r.reverse := ⟨inner.reverse, by simp⟩
  induction r with
  | nil => rfl
  | cons s r ih =>
      rw [List.reverse_cons] at quiet stays ⊢
      simp only [Quiet, List.mem_append, List.mem_singleton, not_or] at quiet
      have before := stays r.reverse (List.prefix_append _ _)
      have whole := stays _ (List.prefix_refl _)
      rw [List.foldl_append, ih ⟨quiet.1.1, quiet.2.1⟩ fun front starts =>
        stays front (starts.trans (List.prefix_append _ _))]
      rw [List.count_append, List.count_append] at whole ⊢
      generalize r.reverse.count .begins = begun, r.reverse.count .ends = ended at before whole ⊢
      cases s with
      | visible => exact absurd rfl quiet.1.2
      | lineBreak => exact absurd rfl quiet.2.2
      | space => rfl
      | begins =>
          show Line.folded (deeper + begun - ended + 1) = .folded (deeper + (begun + 1) - ended)
          congr 1
          omega
      | ends =>
          have filled : ended + 1 ≤ begun := whole
          obtain ⟨depth, open_⟩ : ∃ depth, deeper + begun - ended = depth + 1 :=
            ⟨deeper + begun - ended - 1, by omega⟩
          rw [open_]
          show Line.folded depth = .folded (deeper + begun - (ended + 1))
          congr 1
          omega

/-- The reader stands in a folded line exactly behind strokes that open a span behind a space. -/
theorem folded_iff (strokes : List Stroke) :
    (∃ deeper, strokes.foldl Line.next .blank = .folded deeper) ↔ OpensBehindSpace strokes := by
  constructor
  · rintro ⟨deeper, state⟩
    have explained := Line.explains strokes
    rw [state] at explained
    obtain ⟨before, gap, inner, eq, quiet, space, silent, stays, -⟩ := explained
    exact ⟨before, gap, inner, eq, quiet, space, silent, stays⟩
  · rintro ⟨before, gap, inner, rfl, quiet, space, silent, stays⟩
    have shown : (before ++ [Stroke.visible]).foldl Line.next .blank ≠ .blank := by simp [Line.next]
    have behind : ∃ n,
        ((before ++ Stroke.visible :: gap) ++ [Stroke.begins]).foldl Line.next .blank =
          .folded n := by
      have cut : before ++ .visible :: gap = (before ++ [.visible]) ++ gap := by simp
      rw [List.foldl_append, cut, List.foldl_append]
      rcases Line.isSpaced_foldl quiet space shown with ⟨n, eq⟩ | ⟨n, eq⟩
      · exact ⟨0, by rw [eq]; rfl⟩
      · exact ⟨n + 1, by rw [eq]; rfl⟩
    obtain ⟨n, eq⟩ := behind
    have cut : before ++ .visible :: gap ++ .begins :: inner =
        ((before ++ .visible :: gap) ++ [.begins]) ++ inner := by simp
    rw [cut, List.foldl_append, eq]
    exact ⟨_, Line.foldl_inside silent stays n⟩

/-! ## Lines but the last -/

theorem Line.cut_eq_nil_iff (line : Line) : line.cut = [] ↔ line = .blank := by
  cases line <;> simp [cut]

/-- What is read behind a line shows nothing exactly if nothing has been shown, and nothing is. -/
theorem Line.ends_eq_nil_iff (line : Line) (strokes : List Stroke) :
    line.cuts strokes ++ (strokes.foldl Line.next line).cut = [] ↔
      line = .blank ∧ .visible ∉ strokes := by
  induction strokes generalizing line with
  | nil => simp [cuts, cut_eq_nil_iff]
  | cons s strokes ih =>
      have later := ih (line.next s)
      rw [List.foldl_cons, cuts, List.append_assoc, List.append_eq_nil_iff, later]
      by_cases feed : s = .lineBreak
      · simp [feed, cut_eq_nil_iff, Line.next_eq_blank_iff]
      · have swap : (s ≠ .visible) ↔ (Stroke.visible ≠ s) := ⟨Ne.symm, Ne.symm⟩
        simp [feed, and_assoc, Line.next_eq_blank_iff, swap]

/-- A break ends a line that is not the last if something visible comes behind it. -/
theorem Line.mem_dropLast_ends (line : Line) (strokes : List Stroke) (n : Nat) :
    n ∈ (line.cuts strokes ++ (strokes.foldl Line.next line).cut).dropLast ↔
      ∃ before behind, strokes = before ++ .lineBreak :: behind ∧ .visible ∈ behind ∧
        n ∈ (before.foldl Line.next line).cut := by
  induction strokes generalizing line with
  | nil => cases line <;> simp [cuts, cut]
  | cons s strokes ih =>
      have later := ih (line.next s)
      have split : (∃ before behind, s :: strokes = before ++ .lineBreak :: behind ∧
            .visible ∈ behind ∧ n ∈ (before.foldl Line.next line).cut) ↔
          (s = .lineBreak ∧ .visible ∈ strokes ∧ n ∈ line.cut) ∨
            ∃ before behind, strokes = before ++ .lineBreak :: behind ∧ .visible ∈ behind ∧
              n ∈ (before.foldl Line.next (line.next s)).cut := by
        constructor
        · rintro ⟨before, behind, eq, shows, mem⟩
          cases before with
          | nil =>
              obtain ⟨rfl, rfl⟩ := List.cons.inj eq
              exact .inl ⟨rfl, shows, mem⟩
          | cons t before =>
              obtain ⟨rfl, rest⟩ := List.cons.inj eq
              exact .inr ⟨before, behind, rest, shows, mem⟩
        · rintro (⟨rfl, shows, mem⟩ | ⟨before, behind, rfl, shows, mem⟩)
          · exact ⟨[], strokes, rfl, shows, mem⟩
          · exact ⟨s :: before, behind, rfl, shows, mem⟩
      rw [split, ← later, List.foldl_cons, cuts, List.append_assoc]
      by_cases feed : s = .lineBreak
      · subst feed
        have none := Line.ends_eq_nil_iff .blank strokes
        rw [if_pos rfl, show line.next .lineBreak = .blank by cases line <;> rfl]
        by_cases shows : .visible ∈ strokes
        · rw [List.dropLast_append_of_ne_nil fun empty => (none.1 empty).2 shows]
          simp [shows]
        · rw [none.2 ⟨rfl, shows⟩]
          cases line <;> simp [shows, cut]
      · rw [if_neg feed, List.nil_append]
        simp [feed]

/-- A line ends with exactly so many spaces. -/
def EndsIn (spaces : Nat) (l : Text) : Prop :=
  ∃ front, EndsVisibly front ∧ l = front ++ List.replicate spaces ' '

theorem EndsIn.unique {m n : Nat} {l : Text} (hm : EndsIn m l) (hn : EndsIn n l) : m = n := by
  have length : ∀ {k : Nat}, EndsIn k l → Text.endSpaces l = k := by
    rintro k ⟨front, shown, rfl⟩
    obtain ⟨before, c, rfl, visible⟩ := shown
    simp [Text.endSpaces, Text.takeEndWhile, visible, show isSpace ' ' = true from rfl]
  rw [← length hm, length hn]

theorem endsIn_endSpaces {l : Text} (text : Text.isBlank l = false)
    (plain : ∀ c ∈ l, isSpace c = true → c = ' ') : EndsIn (Text.endSpaces l) l := by
  have whole := Text.dropEndWhile_append_takeEndWhile isSpace l
  refine ⟨Text.trimEnd l, Text.endsVisibly_trimEnd text, ?_⟩
  have spaces : Text.takeEndWhile isSpace l = List.replicate (Text.endSpaces l) ' ' := by
    refine List.eq_replicate_iff.2 ⟨rfl, fun c mem => ?_⟩
    exact plain c (Text.mem_of_mem_takeEndWhile mem) (Text.isSpace_of_mem_takeEndWhile mem)
  rw [← spaces]
  exact whole.symm

theorem forall₂_endsIn {ls : List Text} (h : ∀ l ∈ ls, EndsIn (Text.endSpaces l) l) :
    List.Forall₂ EndsIn (ls.map Text.endSpaces) ls := by
  induction ls with
  | nil => exact .nil
  | cons l ls ih =>
      exact .cons (h l List.mem_cons_self) (ih fun m mem => h m (List.mem_cons_of_mem _ mem))

/-- **Where breaks are hard.**  Each line of a paragraph of phrases but the last ends with the
number of spaces that the reader of the phrases says, two or one; and every one of them ends
with exactly two if and only if no break with something visible behind it opens a span behind
a space. -/
theorem hard_breaks_iff (language : Language) (phrases : List Phrase) :
    List.Forall₂ EndsIn (lineEnds phrases)
        (Page.textLines (render language (phraseLine phrases))).dropLast ∧
      (∀ n ∈ lineEnds phrases, n = 2 ∨ n = 1) ∧
      ((∀ l ∈ (Page.textLines (render language (phraseLine phrases))).dropLast, EndsIn 2 l) ↔
        ∀ before behind, phraseStrokes phrases = before ++ .lineBreak :: behind →
          .visible ∈ behind → ¬ OpensBehindSpace before) := by
  obtain ⟨spaces, plain⟩ := endSpaces_phraseLine language phrases
  have textual : ∀ l ∈ Page.textLines (render language (phraseLine phrases)),
      Text.isBlank l = false := fun l mem => by simpa using (List.mem_filter.1 mem).2
  generalize Page.textLines (render language (phraseLine phrases)) = ls at spaces plain textual ⊢
  have each : ∀ l ∈ ls.dropLast, EndsIn (Text.endSpaces l) l := fun l mem =>
    have mem := List.dropLast_subset _ mem
    endsIn_endSpaces (textual l mem) (plain l mem)
  have two_or_one : ∀ n ∈ lineEnds phrases, n = 2 ∨ n = 1 := by
    intro n mem
    obtain ⟨before, behind, -, -, cut⟩ := (Line.mem_dropLast_ends _ _ n).1 mem
    generalize before.foldl Line.next .blank = line at cut
    cases line <;> simp_all [Line.cut]
  rw [← List.map_dropLast] at spaces
  refine ⟨spaces ▸ forall₂_endsIn each, two_or_one, ?_⟩
  constructor
  · -- A break that opens a span behind a space ends its line with one space.
    intro two before behind cut shows opens
    obtain ⟨deeper, folded⟩ := (folded_iff before).2 opens
    have one : 1 ∈ lineEnds phrases :=
      (Line.mem_dropLast_ends _ _ 1).2 ⟨before, behind, cut, shows, by simp [folded, Line.cut]⟩
    rw [← spaces] at one
    obtain ⟨l, mem, ends⟩ := List.mem_map.1 one
    have same := (each l mem).unique (two l mem)
    rw [ends] at same
    cases same
  · intro hard l mem
    have ends : Text.endSpaces l ∈ lineEnds phrases := spaces ▸ List.mem_map_of_mem mem
    obtain ⟨before, behind, cut, shows, here⟩ := (Line.mem_dropLast_ends _ _ _).1 ends
    have two : Text.endSpaces l = 2 := by
      cases state : before.foldl Line.next .blank with
      | blank => simp [state, Line.cut] at here
      | shown n => simpa [state, Line.cut] using here
      | folded deeper => exact absurd ((folded_iff before).1 ⟨deeper, state⟩) (hard _ _ cut shows)
    exact two ▸ each l mem

/-- A break at the start of a bold text behind a space keeps one space only. -/
theorem break_in_bold_text_loses_space :
    ¬ ∀ l ∈ (Page.textLines (render .english (phraseLine
        [.text "a ", .emphasis .bold [.lineBreak, .text "b"]]))).dropLast, EndsIn 2 l := by
  intro hard
  obtain ⟨front, -, eq⟩ := hard "a " (by decide)
  have length := congrArg List.length eq
  cases front with
  | nil => simp at eq
  | cons c front =>
      simp at length

end Wikidown.Markdown
