/-
# Wikidown.Proofs.Gaps -- the white space inside a paragraph

White space of any kind comes into a paragraph: a text is folded by itself, a span is written
apart and leaves the white space at its ends outside of its marks, a line break writes spaces of
its own, and a struck text may go on where tildes are taken back.  Still the lines of a paragraph
of phrases are evenly spaced: `Text.EvenlySpaced` says what that means for a line.

`Gap` is the state of a reader that goes over a text character by character.  It is `broken` once
white space stands where an evenly spaced line has none, and stays so; a backtick breaks it too,
since it could open a code block, whose blank lines are kept as they are.  Marks do not change
what it reads (`Gap.read_wrap`).  A gap is open where any text may go on: the gap at the end of a
draft always is, each way to write keeps that, and by induction so do phrases (`open_phrases`).
The main statement is `evenlySpaced_phraseLine`.
-/
import Wikidown.Proofs.LineEnds

namespace Wikidown

set_option autoImplicit false

namespace Text

/-- The white space in a line of a paragraph: none at the start, none but spaces, and two spaces
side by side only where the line ends. -/
structure EvenlySpaced (l : Text) : Prop where
  start : ∀ c, l.head? = some c → isSpace c = false
  plain : ∀ c ∈ l, isSpace c = true → c = ' '
  pairs : ∀ front behind, l = front ++ ' ' :: ' ' :: behind → behind = []

theorem evenlySpaced_nil : EvenlySpaced [] :=
  ⟨nofun, nofun, fun front behind eq => by simp at eq⟩

/-- Behind a visible character nothing has to start visibly. -/
theorem evenlySpaced_cons {c : Char} (shown : isSpace c = false) {l : Text}
    (plain : ∀ c ∈ l, isSpace c = true → c = ' ')
    (pairs : ∀ front behind, l = front ++ ' ' :: ' ' :: behind → behind = []) :
    EvenlySpaced (c :: l) where
  start := by
    intro d head
    obtain rfl := Option.some.inj head
    exact shown
  plain := by
    intro d mem white
    rcases List.mem_cons.1 mem with rfl | mem
    · rw [shown] at white
      cases white
    · exact plain d mem white
  pairs := by
    intro front behind eq
    cases front with
    | nil =>
        rw [(List.cons.inj eq).1] at shown
        cases shown
    | cons d front => exact pairs front behind (List.cons.inj eq).2

end Text

namespace Markdown

open Document (Node Forest Emphasis)
open Text (EndsVisibly EvenlySpaced)

/-! ## A reader of white space -/

/-- What is known of the white space where a text ends. -/
inductive Gap where
  /-- There is none, and text may go on behind a space. -/
  | flow
  /-- One space. -/
  | space
  /-- Two spaces, so that the line has to end. -/
  | pair
  /-- A line feed. -/
  | fresh
  /-- Spaces alone in a line, so that it has to stay blank. -/
  | indented
  /-- White space stands where there may be none, or there was a backtick. -/
  | broken
  deriving DecidableEq

namespace Gap

/-- The gap behind a visible character. -/
def visible : Gap → Gap
  | flow | space | fresh => flow
  | pair | indented | broken => broken

/-- The gap behind a space. -/
def widen : Gap → Gap
  | flow => space
  | space => pair
  | fresh | indented => indented
  | pair | broken => broken

/-- The gap behind a line feed. -/
def feed : Gap → Gap
  | broken => broken
  | _ => fresh

/-- The gap behind a character. -/
def write (g : Gap) (c : Char) : Gap :=
  if c = ' ' then g.widen
  else if c = '\n' then g.feed
  else if isSpace c = true ∨ c = tick then broken
  else g.visible

/-- The gap behind a text. -/
def read (g : Gap) (t : Text) : Gap := t.foldl write g

/-- Whether any text may go on there. -/
def isOpen : Gap → Bool
  | flow | space | fresh => true
  | pair | indented | broken => false

variable {g x : Gap} {c : Char} {t : Text}

@[simp] theorem read_nil (g : Gap) : g.read [] = g := rfl

@[simp] theorem read_cons (g : Gap) (c : Char) (t : Text) : g.read (c :: t) = (g.write c).read t :=
  rfl

theorem read_append (g : Gap) (a b : Text) : g.read (a ++ b) = (g.read a).read b :=
  List.foldl_append

@[simp] theorem write_space (g : Gap) : g.write ' ' = g.widen := rfl

@[simp] theorem write_feed (g : Gap) : g.write '\n' = g.feed := rfl

@[simp] theorem write_tick (g : Gap) : g.write tick = broken := rfl

theorem write_shown (shown : isSpace c = false) (noTick : c ≠ tick) (g : Gap) :
    g.write c = g.visible := by
  have noSpace : c ≠ ' ' := by
    rintro rfl
    cases shown
  have noFeed : c ≠ '\n' := by
    rintro rfl
    cases shown
  rw [write, if_neg noSpace, if_neg noFeed, if_neg (by simp [shown, noTick])]

/-- No white space but spaces and line feeds is read. -/
theorem write_other (noSpace : c ≠ ' ') (noFeed : c ≠ '\n') (white : isSpace c = true) (g : Gap) :
    g.write c = broken := by
  rw [write, if_neg noSpace, if_neg noFeed, if_pos (.inl white)]

/-- What is broken stays broken. -/
theorem read_broken (t : Text) : broken.read t = broken := by
  induction t with
  | nil => rfl
  | cons c t ih =>
      have stays : broken.write c = broken := by
        unfold write
        split
        · rfl
        · split
          · rfl
          · split <;> rfl
      rw [read_cons, stays, ih]

theorem ne_broken_of_append {a b : Text} (h : g.read (a ++ b) ≠ broken) :
    g.read a ≠ broken ∧ (g.read a).read b ≠ broken := by
  rw [read_append] at h
  refine ⟨fun eq => ?_, h⟩
  rw [eq, read_broken] at h
  exact h rfl

theorem ne_broken_of_isOpen (h : g.isOpen = true) : g ≠ broken := by
  rintro rfl
  cases h

@[simp] theorem isOpen_visible (g : Gap) : g.visible.isOpen = g.isOpen := by
  cases g <;> rfl

theorem visible_of_isOpen (h : g.isOpen = true) : g.visible = flow := by
  cases g <;> first | rfl | cases h

theorem eq_flow_of_isOpen_widen (h : g.widen.isOpen = true) : g = flow := by
  cases g <;> first | rfl | cases h

theorem feed_of_ne_broken (h : g ≠ broken) : g.feed = fresh := by
  cases g <;> first | rfl | exact absurd rfl h

/-- Behind an open gap every character but a space is read as behind any other gap, if it can be
read there. -/
theorem write_eq_of_isOpen (h : g.isOpen = true) (noSpace : c ≠ ' ') :
    x.write c = broken ∨ x.write c = g.write c := by
  by_cases feed : c = '\n'
  · subst feed
    by_cases stuck : x = broken
    · left
      rw [stuck]
      rfl
    · right
      rw [write_feed, write_feed, feed_of_ne_broken stuck,
        feed_of_ne_broken (ne_broken_of_isOpen h)]
  by_cases refused : isSpace c = true ∨ c = tick
  · left
    rw [write, if_neg noSpace, if_neg feed, if_pos refused]
  · rw [not_or, Bool.not_eq_true] at refused
    rw [write_shown refused.1 refused.2, write_shown refused.1 refused.2, visible_of_isOpen h]
    cases x with
    | flow | space | fresh => exact .inr rfl
    | pair | indented | broken => exact .inl rfl

/-! ## Marks -/

/-- Visible characters that are no backticks. -/
def IsMark (m : Text) : Prop := ∀ c ∈ m, isSpace c = false ∧ c ≠ tick

instance (m : Text) : Decidable (IsMark m) := List.decidableBAll _ m

theorem isMark_marks (kind : Emphasis) (out : Draft) : IsMark (marks kind out) := by
  unfold marks
  split <;> decide

/-- A visible character is read behind a mark as it is read without the mark. -/
theorem visible_write (shown : isSpace c = false) (g : Gap) : g.visible.write c = g.write c := by
  by_cases isTick : c = tick
  · rw [isTick, write_tick, write_tick]
  · rw [write_shown shown isTick, write_shown shown isTick]
    cases g <;> rfl

/-- A mark is read behind a visible character as if it were not there. -/
theorem write_visible (shown : isSpace c = false) (g : Gap) :
    (g.write c).visible = g.write c := by
  by_cases isTick : c = tick
  · rw [isTick, write_tick]
    rfl
  · rw [write_shown shown isTick]
    cases g <;> rfl

theorem read_mark_append {m : Text} (mark : IsMark m) (shown : isSpace c = false) (g : Gap) :
    g.read (m ++ c :: t) = g.read (c :: t) := by
  induction m generalizing g with
  | nil => rfl
  | cons d m ih =>
      obtain ⟨here, later⟩ := List.forall_mem_cons.1 mark
      rw [List.cons_append, read_cons, write_shown here.1 here.2, ih later, read_cons, read_cons,
        visible_write shown]

theorem read_append_mark {m : Text} (mark : IsMark m) (ends : EndsVisibly t) (g : Gap) :
    g.read (t ++ m) = g.read t := by
  obtain ⟨front, c, rfl, shown⟩ := ends
  rw [read_append, read_append, read_cons, read_nil]
  induction m with
  | nil => rfl
  | cons d m ih =>
      obtain ⟨here, later⟩ := List.forall_mem_cons.1 mark
      rw [read_cons, write_shown here.1 here.2, write_visible shown, ih later]

/-- Marks around a line leave its white space where it was. -/
theorem read_wrapLine {opening closing : Text} (front : IsMark opening) (back : IsMark closing)
    (l : Text) (g : Gap) : g.read (wrapLine opening closing l) = g.read l := by
  cases text : Text.isBlank l with
  | true => rw [wrapLine, if_pos text]
  | false =>
      obtain ⟨⟨c, rest, start, shown⟩, ends⟩ := Text.framed_trim text
      rw [List.replicate_zero, List.nil_append] at start
      have marked : ∀ g : Gap,
          g.read (opening ++ Text.trim l ++ closing) = g.read (Text.trim l) := by
        intro g
        rw [read_append_mark back (ends.append opening), start, read_mark_append front shown]
      have inside := marked (g.read (l.takeWhile isSpace))
      calc g.read (wrapLine opening closing l)
        _ = g.read (l.takeWhile isSpace ++ (opening ++ Text.trim l ++ closing) ++
              Text.takeEndWhile isSpace l) := by
            rw [wrapLine, if_neg (by simp [text])]
            simp
        _ = g.read (l.takeWhile isSpace ++ Text.trim l ++ Text.takeEndWhile isSpace l) := by
            rw [read_append, read_append, inside, read_append, read_append]
        _ = g.read l := by rw [Text.takeWhile_trim_takeEndWhile text]

/-- So do marks around the lines of a text. -/
theorem read_wrap {opening closing : Text} (front : IsMark opening) (back : IsMark closing)
    (t : Text) (g : Gap) : g.read (wrap opening closing t) = g.read t := by
  induction t using Text.induction_lines generalizing g with
  | last l noFeed => rw [wrap_of_notMem noFeed, read_wrapLine front back]
  | more l t noFeed ih =>
      rw [wrap_line_append noFeed, read_append, read_append, read_wrapLine front back, read_cons,
        read_cons, ih]

/-! ## What may go on behind an open gap -/

/-- Text without the spaces at its start goes on behind an open gap, if with them it ends with an
open gap anywhere. -/
theorem isOpen_dropWhile (hg : g.isOpen = true) (h : (x.read t).isOpen = true) :
    (g.read (t.dropWhile (· == ' '))).isOpen = true := by
  induction t generalizing x with
  | nil => exact hg
  | cons c t ih =>
      by_cases space : c = ' '
      · subst space
        rw [List.dropWhile_cons, if_pos (by rfl)]
        exact ih h
      · rw [List.dropWhile_cons, if_neg (by simpa using space), read_cons]
        rcases write_eq_of_isOpen hg space with broken | same
        · rw [read_cons, broken, read_broken] at h
          cases h
        · rw [← same]
          exact h

end Gap

/-! ## Drafts with an open gap -/

namespace Draft

variable {out : Draft} {t : Text}

/-- The gap at the end of a draft. -/
def gap (out : Draft) : Gap := Gap.flow.read out.text

@[simp] theorem gap_nil : gap [] = .flow := rfl

@[simp] theorem gap_cons (c : Char) (out : Draft) : gap (c :: out) = (gap out).write c := by
  rw [gap, Tells.text_cons, Gap.read_append]
  rfl

theorem gap_put (out : Draft) (piece : Text) : gap (out.put piece) = (gap out).read piece := by
  rw [gap, text_put, Gap.read_append]
  rfl

/-- An open gap holds no white space where the draft ends with none. -/
theorem gap_eq_flow (h : out.gap.isOpen = true) (notSpaced : out.spaced = false) :
    out.gap = .flow := by
  cases out with
  | nil => rfl
  | cons c out =>
      have noSpace : c ≠ ' ' := by
        rintro rfl
        cases notSpaced
      have noFeed : c ≠ '\n' := by
        rintro rfl
        cases notSpaced
      rw [gap_cons, Gap.write, if_neg noSpace, if_neg noFeed] at h ⊢
      split at h
      · cases h
      · next shown =>
        rw [Gap.isOpen_visible] at h
        rw [if_neg shown, Gap.visible_of_isOpen h]

/-- Text that is even by itself goes on behind an open gap. -/
theorem isOpen_join (hout : out.gap.isOpen = true) (h : (Gap.flow.read t).isOpen = true) :
    (out.join t).gap.isOpen = true := by
  rw [join_eq, gap_put]
  split
  · exact Gap.isOpen_dropWhile hout h
  · next notSpaced =>
    rw [gap_eq_flow hout (Bool.eq_false_iff.2 notSpaced)]
    exact h

/-- Folded text goes on behind an open gap. -/
theorem isOpen_collapse (hout : out.gap.isOpen = true) (noTick : tick ∉ t) :
    (out.join (Text.collapse t)).gap.isOpen = true := by
  refine @join_collapse_run (fun read out => tick ∉ read → out.gap.isOpen = true) ?_ ?_ [] out
    (fun _ => hout) t noTick
  · intro read out c shown ih noTick
    rw [List.mem_append, List.mem_singleton, not_or] at noTick
    rw [gap_cons, Gap.write_shown shown (Ne.symm noTick.2), Gap.isOpen_visible]
    exact ih noTick.1
  · intro read out c _ ih noTick
    have before := ih fun mem => noTick (List.mem_append_left _ mem)
    split
    · exact before
    · next notSpaced =>
      rw [gap_cons, gap_eq_flow before (Bool.eq_false_iff.2 notSpaced)]
      rfl

/-- A break takes the spaces off the draft, and then an open gap holds none. -/
theorem gap_dropWhile (h : out.gap.isOpen = true) :
    gap (out.dropWhile (· == ' ')) = .flow ∨ gap (out.dropWhile (· == ' ')) = .fresh := by
  induction out with
  | nil => exact .inl rfl
  | cons c out ih =>
      by_cases space : c = ' '
      · subst space
        rw [gap_cons, Gap.write_space] at h
        rw [List.dropWhile_cons, if_pos (by rfl)]
        apply ih
        rw [Gap.eq_flow_of_isOpen_widen h]
        rfl
      · rw [List.dropWhile_cons, if_neg (by simpa using space)]
        by_cases feed : c = '\n'
        · subst feed
          rw [gap_cons, Gap.write_feed] at h ⊢
          right
          apply Gap.feed_of_ne_broken
          intro broken
          rw [broken] at h
          cases h
        · left
          apply gap_eq_flow h
          unfold spaced
          split
          · next eq => exact absurd (List.cons.inj eq).1 space
          · next eq => exact absurd (List.cons.inj eq).1 feed
          · rfl

theorem isOpen_breakLine (h : out.gap.isOpen = true) : out.breakLine.gap.isOpen = true := by
  rw [breakLine, gap_cons, gap_cons, gap_cons]
  rcases gap_dropWhile h with eq | eq
  · rw [eq]
    rfl
  · rw [eq]
    rfl

/-- A struck text that goes on starts visibly, so that it goes on behind what the tildes stood
behind. -/
theorem isOpen_goesOn {before inner : Draft} (h : (gap ('~' :: '~' :: before)).isOpen = true)
    (hi : inner.gap.isOpen = true) (goesOn : continuesStrike inner.text = true) :
    (before.put (wrap [] "~~" inner.text)).gap.isOpen = true := by
  have none : Gap.IsMark [] := nofun
  have tildes : Gap.IsMark "~~" := by decide
  have opened : (gap before).isOpen = true := by
    have tilde : ∀ g : Gap, g.write '~' = g.visible := Gap.write_shown (by decide) (by decide)
    rwa [gap_cons, gap_cons, tilde, tilde, Gap.isOpen_visible, Gap.isOpen_visible] at h
  rw [gap_put, Gap.read_wrap none tildes]
  simp only [continuesStrike, Bool.and_eq_true] at goesOn
  rw [gap] at hi
  cases text : inner.text with
  | nil => exact opened
  | cons c rest =>
      rw [text] at hi goesOn
      have noSpace : c ≠ ' ' := by
        rintro rfl
        simp [isSpace] at goesOn
      have starts : (c :: rest).dropWhile (· == ' ') = c :: rest := by simp [noSpace]
      have goes := Gap.isOpen_dropWhile opened hi
      rwa [starts] at goes

/-- A span is put behind an open gap. -/
theorem isOpen_emphasize {inner : Draft} (hout : out.gap.isOpen = true)
    (hi : inner.gap.isOpen = true) (kind : Emphasis) :
    (out.emphasize kind inner.text).gap.isOpen = true := by
  by_cases goesOn : ∃ before, kind = .strikethrough ∧ out = '~' :: '~' :: before ∧
      continuesStrike inner.text = true
  · obtain ⟨before, rfl, rfl, continues⟩ := goesOn
    rw [Draft.emphasize_goesOn before continues]
    exact isOpen_goesOn hout hi continues
  · rw [Draft.emphasize_eq_join fun before struck ends continues =>
      goesOn ⟨before, struck, ends, continues⟩]
    have mark := Gap.isMark_marks kind out
    apply isOpen_join hout
    rw [Gap.read_wrap mark mark]
    exact hi

end Draft

/-! ## Phrases -/

section

variable (language : Language)

mutual

/-- Each phrase leaves an open gap behind an open gap. -/
theorem open_phrase {out : Draft} (h : out.gap.isOpen = true) :
    (phrase : Phrase) → tick ∉ phrase.node.textContent →
      (writeNode language phrase.node out).gap.isOpen = true
  | .text content, noTick => Draft.isOpen_collapse h noTick
  | .lineBreak, _ => Draft.isOpen_breakLine h
  | .emphasis kind inner, noTick => by
      have within : (writeForest language (phraseNodes inner) []).gap.isOpen = true :=
        open_phrases rfl inner noTick
      rw [Phrase.node, writeNode]
      exact Draft.isOpen_emphasize h within kind

/-- So do the phrases of a paragraph or a span. -/
theorem open_phrases {out : Draft} (h : out.gap.isOpen = true) :
    (phrases : List Phrase) → tick ∉ Forest.textContents (phraseNodes phrases) →
      (writeForest language (phraseNodes phrases) out).gap.isOpen = true
  | [], _ => h
  | phrase :: phrases, noTick => by
      rw [phraseNodes, Forest.textContents, List.mem_append, not_or] at noTick
      exact open_phrases (open_phrase h phrase noTick.1) phrases noTick.2

end

end

/-! ## Lines that were read -/

namespace Gap

variable {g : Gap} {l t : Text}

/-- A line that starts with a space and is not broken is blank. -/
theorem isBlank_of_indented (noFeed : '\n' ∉ l) (h : indented.read l ≠ broken) :
    Text.isBlank l = true := by
  induction l with
  | nil => rfl
  | cons c l ih =>
      rw [List.mem_cons, not_or] at noFeed
      by_cases space : c = ' '
      · subst space
        exact ih noFeed.2 h
      · have stuck : indented.write c = broken := by
          rw [write, if_neg space, if_neg (Ne.symm noFeed.1)]
          split <;> rfl
        rw [read_cons, stuck, read_broken] at h
        exact absurd rfl h

/-- Two spaces in a line that shows something are one gap, if they can be read. -/
theorem widen_widen (begun : g ≠ fresh ∧ g ≠ indented) :
    g.widen.widen = pair ∨ g.widen.widen = broken := by
  cases g with
  | flow => exact .inl rfl
  | space | pair | broken => exact .inr rfl
  | fresh => exact absurd rfl begun.1
  | indented => exact absurd rfl begun.2

/-- Behind two spaces in a line that shows something, the line ends. -/
theorem eq_nil_of_widen (noFeed : '\n' ∉ l) (begun : g ≠ fresh ∧ g ≠ indented)
    (h : g.widen.widen.read l ≠ broken) : l = [] := by
  rcases widen_widen begun with two | stuck
  · cases l with
    | nil => rfl
    | cons c l =>
        rw [List.mem_cons, not_or] at noFeed
        have stuck : pair.write c = broken := by
          unfold write
          rw [if_neg (Ne.symm noFeed.1)]
          split
          · rfl
          · split <;> rfl
        rw [two, read_cons, stuck, read_broken] at h
        exact absurd rfl h
  · rw [stuck, read_broken] at h
    exact absurd rfl h

/-- Without a line feed no line begins. -/
theorem read_line (noFeed : '\n' ∉ l) (h : g ≠ fresh ∧ g ≠ indented) :
    g.read l ≠ fresh ∧ g.read l ≠ indented := by
  induction l generalizing g with
  | nil => exact h
  | cons c l ih =>
      rw [List.mem_cons, not_or] at noFeed
      refine ih noFeed.2 ?_
      unfold write
      rw [if_neg (Ne.symm noFeed.1)]
      split
      · cases g <;> simp_all [widen]
      · split
        · simp
        · cases g <;> simp [visible]

/-- The white space in a line that is not broken is spaces. -/
theorem eq_space_of_mem (noFeed : '\n' ∉ l) (h : g.read l ≠ broken) {c : Char} (mem : c ∈ l)
    (white : isSpace c = true) : c = ' ' := by
  refine Decidable.byContradiction fun noSpace => ?_
  obtain ⟨a, b, eq⟩ := List.append_of_mem mem
  have isFeed : c ≠ '\n' := fun same => noFeed (same ▸ mem)
  have behind := (ne_broken_of_append (eq ▸ h)).2
  rw [read_cons, write_other noSpace isFeed white, read_broken] at behind
  exact behind rfl

/-- Behind something visible, two spaces side by side end the line. -/
theorem eq_nil_of_eq_append (noFeed : '\n' ∉ l) (begun : g ≠ fresh ∧ g ≠ indented)
    (h : g.read l ≠ broken) {front behind : Text} (eq : l = front ++ ' ' :: ' ' :: behind) :
    behind = [] := by
  subst eq
  simp only [List.mem_append, List.mem_cons, not_or] at noFeed
  rw [read_append] at h
  exact eq_nil_of_widen noFeed.2.2.2 (read_line noFeed.1 begun) h

/-- A line of text that is read behind a line feed and is not broken is evenly spaced. -/
theorem evenlySpaced_of_fresh (noFeed : '\n' ∉ l) (text : Text.isBlank l = false)
    (h : fresh.read l ≠ broken) : EvenlySpaced l := by
  cases l with
  | nil => cases text
  | cons c rest =>
      have free := noFeed
      rw [List.mem_cons, not_or] at free
      have shown : isSpace c = false := by
        rw [Bool.eq_false_iff]
        intro white
        obtain rfl := eq_space_of_mem noFeed h List.mem_cons_self white
        have blank : Text.isBlank rest = true := isBlank_of_indented free.2 h
        rw [Text.isBlank, List.all_cons, ← Text.isBlank, blank] at text
        cases text
      have begun : fresh.write c ≠ fresh ∧ fresh.write c ≠ indented := by
        by_cases isTick : c = tick
        · simp [isTick]
        · simp [write_shown shown isTick, visible]
      apply Text.evenlySpaced_cons shown
      · intro d mem white
        exact eq_space_of_mem free.2 h mem white
      · intro front behind eq
        exact eq_nil_of_eq_append free.2 begun h eq

/-- Every line is read behind a line feed. -/
theorem read_segments (h : fresh.read t ≠ broken) :
    ∀ l ∈ Text.segments t, fresh.read l ≠ broken := by
  induction t using Text.induction_lines with
  | last l noFeed =>
      intro m mem
      rw [Text.segments_of_notMem noFeed, List.mem_singleton] at mem
      exact mem ▸ h
  | more l t noFeed ih =>
      obtain ⟨here, later⟩ := ne_broken_of_append h
      rw [read_cons, write_feed, feed_of_ne_broken here] at later
      intro m mem
      rw [Text.segments_line_append noFeed, List.mem_cons] at mem
      rcases mem with rfl | mem
      · exact here
      · exact ih later m mem

/-- A trimmed text is read at the start of a line as well. -/
theorem read_trim (h : g.read t ≠ broken) : fresh.read (Text.trim t) ≠ broken := by
  cases text : Text.isBlank t with
  | true =>
      rw [Text.trim_of_isBlank text]
      simp
  | false =>
      rw [← Text.takeWhile_trim_takeEndWhile text] at h
      have inside := (ne_broken_of_append (ne_broken_of_append h).1).2
      obtain ⟨⟨c, rest, start, shown⟩, -⟩ := Text.framed_trim text
      rw [List.replicate_zero, List.nil_append] at start
      have noSpace : c ≠ ' ' := by
        rintro rfl
        cases shown
      rw [start, read_cons] at inside ⊢
      rcases write_eq_of_isOpen (g := fresh) rfl noSpace with broken | same
      · rw [broken, read_broken] at inside
        exact absurd rfl inside
      · rw [← same]
        exact inside

theorem tick_notMem (h : g.read t ≠ broken) : tick ∉ t := by
  intro mem
  obtain ⟨a, b, eq⟩ := List.append_of_mem mem
  have behind := (ne_broken_of_append (eq ▸ h)).2
  rw [read_cons, write_tick, read_broken] at behind
  exact behind rfl

end Gap

/-! ## Pages -/

theorem evenlySpaced_escapeFenceOpener {l : Text} (h : EvenlySpaced l) :
    EvenlySpaced (escapeFenceOpener l) := by
  have noLead : l.takeWhile isSpace = [] ∧ Text.trimStart l = l := by
    cases l with
    | nil => exact ⟨rfl, rfl⟩
    | cons c l =>
        have shown := h.start c rfl
        simp [Text.trimStart, shown]
  simp only [escapeFenceOpener, noLead.1, noLead.2, List.nil_append]
  split
  · exact Text.evenlySpaced_cons (by decide) h.plain h.pairs
  · exact h

/-- Where no line has a backtick no line is code, and the blank lines that are kept are empty. -/
theorem eq_nil_of_mem_tidyLines {place : Scan} (out : place.inCode = false) {ls : List Text}
    (noTick : ∀ l ∈ ls, tick ∉ l) {l : Text} (mem : l ∈ tidyLines place ls)
    (blank : Text.isBlank l = true) : l = [] := by
  induction ls generalizing place with
  | nil => cases place <;> cases mem
  | cons m ls ih =>
      obtain ⟨here, others⟩ := List.forall_mem_cons.1 noTick
      cases text : Text.isBlank m with
      | true =>
          have skipped : tidyLines place (m :: ls) = tidyLines place.blank ls := by
            cases place with
            | code fence => cases out
            | _ => simp only [tidyLines, text, if_true]
          rw [skipped] at mem
          refine ih ?_ others mem
          cases place <;> rfl
      | false =>
          have behind : Scan.after m ls = .line := by
            rw [Scan.after, Fence.open?_of_notMem here]
          rw [tidyLines_text out text, behind, List.mem_append, List.mem_cons] at mem
          rcases mem with separates | rfl | later
          · rcases separator_eq place with none | one
            · rw [none] at separates
              cases separates
            · rw [one] at separates
              exact List.mem_singleton.1 separates
          · rw [text] at blank
            cases blank
          · exact ih rfl others later

/-- In the clean form of a text without backticks, no blank line holds white space. -/
theorem eq_nil_of_mem_segments_tidy {t l : Text} (noTick : tick ∉ t)
    (mem : l ∈ Text.segments (tidy t)) (blank : Text.isBlank l = true) : l = [] := by
  by_cases none : tidyLines .start (Text.lines t) = []
  · rw [tidy, none] at mem
    exact List.mem_singleton.1 mem
  · rw [segments_tidy none] at mem
    refine eq_nil_of_mem_tidyLines rfl (fun m line isTick => ?_) mem blank
    exact noTick (Text.mem_of_mem_lines line isTick)

/-- Escaping fences brings no backtick in. -/
theorem tick_notMem_escapeFenceOpeners {t : Text} (noTick : tick ∉ t) :
    tick ∉ escapeFenceOpeners t := by
  intro isTick
  rcases Text.mem_intercalate isTick with feed | ⟨k, escaped, inLine⟩
  · exact absurd feed (by decide)
  · obtain ⟨l, segment, rfl⟩ := List.mem_map.1 escaped
    rcases mem_escapeFenceOpener inLine with inText | slash
    · exact noTick (Text.mem_of_mem_segments segment _ inText).1
    · cases slash

/-- A paragraph of inline nodes on a page of its own is its escaped lines in their clean form. -/
theorem render_paragraph {language : Language} {cs : Forest}
    (inline : ∀ n ∈ cs, RunsInline language n) :
    render language [.paragraph cs] =
      tidy (escapeFenceOpeners (Text.trim (inlineText language cs))) := by
  rw [render, layForest_paragraph inline, Flow.close,
    show Draft.text _ = inlineText language cs from rfl]
  cases empty : Text.trim (inlineText language cs) with
  | nil => rfl
  | cons c t => exact congrArg tidy (pageText_singleton _)

/-- **The white space in a paragraph is even.**  Whatever white space stands in the texts of a
paragraph, and however its texts, line breaks and spans are nested, on its page no line starts
with white space, there is no white space in a line but spaces, and two spaces stand side by side
only at the end of a line, with nothing behind them.  The texts hold no backtick: two lines of
backticks behind quote marks enclose lines that are kept as they are. -/
theorem evenlySpaced_phraseLine (language : Language) {phrases : List Phrase}
    (noTick : tick ∉ Forest.textContents (phraseNodes phrases)) :
    ∀ l ∈ Text.segments (render language (phraseLine phrases)), EvenlySpaced l := by
  have inline : ∀ n ∈ phraseNodes phrases, RunsInline language n := runsInline_phrases language
  have written : (writeForest language (phraseNodes phrases) []).gap.isOpen = true :=
    open_phrases language rfl phrases noTick
  have read := Gap.read_trim (Gap.ne_broken_of_isOpen written)
  intro l mem
  cases text : Text.isBlank l with
  | false =>
      have shown : l ∈ Page.textLines (render language (phraseLine phrases)) :=
        List.mem_filter.2 ⟨mem, by simp [text]⟩
      rw [phraseLine, textLines_paragraph inline (noReturn_phrases language phrases)] at shown
      obtain ⟨m, line, rfl⟩ := List.mem_map.1 shown
      obtain ⟨segment, visible⟩ := List.mem_filter.1 line
      have noFeed := Text.newline_notMem_of_mem_segments segment
      have even : EvenlySpaced m := Gap.evenlySpaced_of_fresh noFeed (by simpa using visible)
        (Gap.read_segments read m segment)
      exact evenlySpaced_escapeFenceOpener even
  | true =>
      rw [phraseLine, render_paragraph inline] at mem
      have clear := tick_notMem_escapeFenceOpeners (Gap.tick_notMem read)
      rw [eq_nil_of_mem_segments_tidy clear mem text]
      exact Text.evenlySpaced_nil

/-- White space of four kinds at the edges of texts and spans, breaks that follow each other, and
a struck text that goes on. -/
def gappedPhrases : List Phrase :=
  [.text "\t a\u00a0", .emphasis .bold [.text " b ", .lineBreak, .text "\u3000c",
    .emphasis .italic [.lineBreak, .text " d\n"]], .lineBreak, .lineBreak,
    .emphasis .strikethrough [.text " e"], .emphasis .strikethrough [.text "f "], .text "  g"]

theorem evenlySpaced_gappedPhrases :
    tick ∉ Forest.textContents (phraseNodes gappedPhrases) ∧
    render .english (phraseLine gappedPhrases) =
      "a **b**  \n**c**  \n***d***  \n\n~~ef~~ g".toList ∧
    ∀ l ∈ Text.segments (render .english (phraseLine gappedPhrases)), EvenlySpaced l := by
  have noTick : tick ∉ Forest.textContents (phraseNodes gappedPhrases) := by decide
  exact ⟨noTick, by decide, evenlySpaced_phraseLine .english noTick⟩

/-- A blank line between two lines of backticks keeps its spaces. -/
example : render .english (phraseLine [.text "> ```", .lineBreak, .lineBreak, .text "> ```"]) =
    "> ```  \n  \n> ```".toList := by
  decide

end Markdown

end Wikidown
