/-
# Wikidown.Proofs.StruckText -- text that a struck text takes back

A struck text behind a draft that ends with two tildes goes on with the span that these
are taken to end, and takes them back.  If they are text, they may be lost.  In a paragraph
of plain and struck texts they are lost exactly where such a struck text does not keep what
was read (`spanLine_kept_iff`), and no other text ever is (`render_keeps_text`).
-/
import Wikidown.Proofs.KeptText

namespace Wikidown.Markdown

set_option autoImplicit false

open scoped List
open Document (Node Forest)

/-! ## Visible characters -/

theorem wrap_collapse (opening closing b : Text) :
    wrap opening closing (Text.collapse b) = wrapLine opening closing (Text.collapse b) := by
  rw [wrap_eq_wrapLines, wrapLines_of_notMem (Text.newline_notMem_collapse b)]

theorem filter_takeWhile_isSpace (t : Text) : (t.takeWhile isSpace).filter isVisible = [] := by
  rw [List.filter_eq_nil_iff]
  intro c hc
  have space := List.all_eq_true.1 List.all_takeWhile c hc
  simp [isVisible, space]

/-- The ink of a line between marks: that of the line, and the marks. -/
theorem filter_wrapLine_of_text {opening closing line : Text} (text : Text.isBlank line = false) :
    (wrapLine opening closing line).filter isVisible =
      opening.filter isVisible ++ line.filter isVisible ++ closing.filter isVisible := by
  have behind : (Text.takeEndWhile isSpace line).filter isVisible = [] := by
    rw [Text.takeEndWhile, List.filter_reverse, filter_takeWhile_isSpace]
    rfl
  rw [wrapLine, if_neg (by simp [text])]
  simp only [List.filter_append, filter_takeWhile_isSpace, Text.filter_trim inked_isVisible,
    behind, List.nil_append, List.append_nil]

theorem filter_tildes : "~~".toList.filter isVisible = ['~', '~'] := by decide

/-- A line is escaped by one backslash at most, and only before three tildes or a backtick. -/
theorem filter_escapeFenceOpener (line : Text) :
    (escapeFenceOpener line).filter isVisible = line.filter isVisible ∨
      (escapeFenceOpener line).filter isVisible = '\\' :: line.filter isVisible ∧
        (['~', '~', '~'] <+: line.filter isVisible ∨ [tick] <+: line.filter isVisible) := by
  have body : (Text.trimStart line).filter isVisible = line.filter isVisible :=
    Text.filter_dropWhile inked_isVisible line
  have slash : isVisible '\\' = true := by decide
  have run : ∀ (d : Char) (n : Nat), isVisible d = true →
      n ≤ ((Text.trimStart line).takeWhile (· == d)).length →
        List.replicate n d <+: line.filter isVisible := by
    intro d n visible long
    have all : (Text.trimStart line).takeWhile (· == d) =
        List.replicate ((Text.trimStart line).takeWhile (· == d)).length d := by
      refine List.eq_replicate_iff.2 ⟨rfl, fun c hc => ?_⟩
      simpa using List.all_eq_true.1 List.all_takeWhile c hc
    have starts : List.replicate n d <+: Text.trimStart line := by
      refine List.IsPrefix.trans ?_ (List.takeWhile_prefix (· == d))
      rw [all]
      exact ⟨List.replicate _ d, by rw [List.replicate_append_replicate, Nat.add_sub_cancel' long]⟩
    have kept := starts.filter isVisible
    rwa [List.filter_replicate_of_pos visible, body] at kept
  simp only [escapeFenceOpener]
  split
  · next opens =>
    refine .inr ⟨?_, ?_⟩
    · rw [List.filter_append, filter_takeWhile_isSpace, List.nil_append,
        List.filter_cons_of_pos slash, body]
    · simp only [opensFence, Bool.or_eq_true, Bool.and_eq_true, decide_eq_true_eq] at opens
      rcases opens with tildes | ⟨backticks, -⟩
      · exact .inl (run '~' 3 (by decide) tildes)
      · exact .inr (run tick 1 (by decide) (Nat.le_trans (by decide) backticks))
  · exact .inl rfl

/-! ## A struck text that goes on -/

theorem continuesStrike_collapse_iff (b : Text) :
    continuesStrike (Text.collapse b) = true ↔ ∃ c, b.head? = some c ∧ isVisible c = true := by
  have noBreak : (Text.collapse b).contains '\n' = false := by
    rw [List.contains_eq_mem, decide_eq_false_iff_not]
    exact Text.newline_notMem_collapse b
  have blank : isSpace ' ' = true := by decide
  rw [continuesStrike, noBreak]
  cases b with
  | nil => simp [Text.collapse, Text.collapseFrom]
  | cons c b =>
      cases space : isSpace c with
      | true => simp [Text.collapse, Text.collapseFrom, space, isVisible, blank]
      | false => simp [Text.collapse, Text.collapseFrom, space, isVisible]

/-- The ink behind a struck text that goes on: two tildes are taken back. -/
theorem filter_emphasize_goesOn {b : Text} (before : Draft)
    (goesOn : continuesStrike (Text.collapse b) = true) :
    (Draft.emphasize ('~' :: '~' :: before) .strikethrough (Text.collapse b)).text.filter
        isVisible =
      before.text.filter isVisible ++ (b.filter isVisible ++ ['~', '~']) := by
  have text : Text.isBlank (Text.collapse b) = false := by
    obtain ⟨c, first, visible⟩ := (continuesStrike_collapse_iff b).1 goesOn
    have mem : c ∈ b.filter isVisible := List.mem_filter.2 ⟨List.mem_of_head? first, visible⟩
    rw [Bool.eq_false_iff, ne_eq, isBlank_iff_filter, Text.filter_collapse inked_isVisible]
    exact List.ne_nil_of_mem mem
  rw [Draft.emphasize_goesOn before goesOn, Draft.text_put, List.filter_append, wrap_collapse,
    filter_wrapLine_of_text text, filter_tildes, Text.filter_collapse inked_isVisible]
  rfl

/-! ## Plain and struck texts in a line -/

/-- A text, plain or struck. -/
inductive Span where
  | plain (t : Text)
  | struck (t : Text)

namespace Span

/-- The text of a span. -/
def text : Span → Text
  | plain t | struck t => t

/-- The node of a span. -/
def node : Span → Node
  | plain t => .text t
  | struck t => .emphasis .strikethrough [.text t]

theorem textContent_node (s : Span) : s.node.textContent = s.text := by
  cases s <;> simp [node, text, Node.textContent, Forest.textContents]

end Span

/-- A paragraph of spans. -/
def spanLine (spans : List Span) : Forest := [.paragraph (spans.map Span.node)]

/-- The visible characters of a draft. -/
def Draft.ink (out : Draft) : Text := out.text.filter isVisible

/-- The draft behind a span. -/
def writeSpan (language : Language) (s : Span) (out : Draft) : Draft := writeNode language s.node out

section

variable (language : Language)

theorem writeSpan_struck (t : Text) (out : Draft) :
    writeSpan language (.struck t) out = out.emphasize .strikethrough (Text.collapse t) := by
  have inner : Draft.text (writeForest language [.text t] []) = Text.collapse t := by
    simp [writeForest, writeNode, Draft.join, Draft.put, Draft.text]
  rw [writeSpan, Span.node, writeNode, inner]

theorem ink_join (out : Draft) (piece : Text) :
    (out.join piece).ink = out.ink ++ piece.filter isVisible :=
  filter_join inked_isVisible out piece

/-- Whether a span is a struck text that takes back the end of a draft. -/
def Span.Cuts (s : Span) (out : Draft) : Prop :=
  ∃ t before, s = .struck t ∧ out = '~' :: '~' :: before ∧
    continuesStrike (Text.collapse t) = true

/-- A struck text that does not go on is joined between tildes of its own. -/
theorem writeSpan_struck_apart {t : Text} {out : Draft} (stays : ¬ (Span.struck t).Cuts out) :
    writeSpan language (.struck t) out = out.join (wrapLine "~~" "~~" (Text.collapse t)) := by
  rw [writeSpan_struck language, ← wrap_collapse]
  exact Draft.emphasize_eq_join fun before _ ends goesOn => stays ⟨t, before, rfl, ends, goesOn⟩

/-- What a span does to the ink of a draft that it does not cut: its own ink comes behind
it, between tildes if the span is struck and not blank. -/
theorem ink_writeSpan {s : Span} {out : Draft} (stays : ¬ s.Cuts out) :
    ∃ marks, (marks = [] ∨ marks = ['~', '~'] ∧ s.text.filter isVisible ≠ []) ∧
      (writeSpan language s out).ink =
        out.ink ++ (marks ++ s.text.filter isVisible ++ marks) := by
  cases s with
  | plain t =>
      refine ⟨[], .inl rfl, ?_⟩
      have joined : writeSpan language (.plain t) out = out.join (Text.collapse t) := rfl
      rw [joined, ink_join, Text.filter_collapse inked_isVisible]
      simp [Span.text]
  | struck t =>
      rw [writeSpan_struck_apart language stays, ink_join]
      cases blank : Text.isBlank (Text.collapse t) with
      | true =>
          have none := (isBlank_iff_filter _).1 blank
          refine ⟨[], .inl rfl, ?_⟩
          rw [wrapLine, if_pos blank, Text.filter_collapse inked_isVisible]
          simp [Span.text]
      | false =>
          refine ⟨['~', '~'], .inr ⟨rfl, ?_⟩, ?_⟩
          · rw [← Text.filter_collapse inked_isVisible, ne_eq, ← isBlank_iff_filter]
            simp [Span.text, blank]
          · rw [filter_wrapLine_of_text blank, filter_tildes, Text.filter_collapse inked_isVisible]
            simp [Span.text]

/-- What a struck text does to the ink of a draft that it cuts. -/
theorem ink_writeSpan_cut {t : Text} (before : Draft)
    (goesOn : continuesStrike (Text.collapse t) = true) :
    (writeSpan language (.struck t) ('~' :: '~' :: before)).ink =
      Draft.ink before ++ (t.filter isVisible ++ ['~', '~']) := by
  rw [writeSpan_struck language]
  exact filter_emphasize_goesOn before goesOn

theorem ink_tildes (before : Draft) :
    Draft.ink ('~' :: '~' :: before) = Draft.ink before ++ ['~', '~'] := by
  have visible : isVisible '~' = true := by decide
  simp [Draft.ink, Draft.text, visible]

/-! ## What a run of spans leaves in place -/

/-- A part that ends with another character than a tilde does not reach into tildes. -/
theorem prefix_of_tildes {k y : Text} {d : Char} (notTilde : d ≠ '~')
    (h : k ++ [d] <+: y ++ ['~', '~']) : k ++ [d] <+: y := by
  have split : y ++ ['~', '~'] = (y ++ ['~']) ++ ['~'] := by simp
  rw [split, List.prefix_concat_iff] at h
  rcases h with whole | shorter
  · exact absurd (by simpa using (List.append_inj' whole rfl).2) notTilde
  · rcases List.prefix_concat_iff.1 shorter with whole | inside
    · exact absurd (by simpa using (List.append_inj' whole rfl).2) notTilde
    · exact inside

/-- Ink that ends with another character than a tilde is never taken back. -/
theorem prefix_writeSpan {k : Text} {d : Char} (notTilde : d ≠ '~') (s : Span) {out : Draft}
    (h : k ++ [d] <+: out.ink) : k ++ [d] <+: (writeSpan language s out).ink := by
  by_cases cuts : s.Cuts out
  · obtain ⟨t, before, rfl, rfl, goesOn⟩ := cuts
    rw [ink_tildes] at h
    rw [ink_writeSpan_cut language before goesOn]
    exact (prefix_of_tildes notTilde h).trans (List.prefix_append _ _)
  · obtain ⟨marks, -, ink⟩ := ink_writeSpan language cuts
    rw [ink]
    exact h.trans (List.prefix_append _ _)

/-- The draft behind spans. -/
def writeSpans (language : Language) (spans : List Span) (out : Draft) : Draft :=
  writeForest language (spans.map Span.node) out

theorem prefix_writeSpans {k : Text} {d : Char} (notTilde : d ≠ '~') (spans : List Span)
    {out : Draft} (h : k ++ [d] <+: out.ink) : k ++ [d] <+: (writeSpans language spans out).ink := by
  induction spans generalizing out with
  | nil => exact h
  | cons s spans ih => exact ih (prefix_writeSpan language notTilde s h)

/-- What holds of the ink `x` of the texts that were read and the ink `y` of the draft, even
where text was taken back: the same characters but tildes, in the same order, and before the
first of them at most the two tildes of a span, unless there were tildes in the text. -/
structure Follows (x y : Text) : Prop where
  same : y.filter (· != '~') = x.filter (· != '~')
  opens : x = [] → y = []
  first : ∀ c rest, x = c :: rest → c ≠ '~' → [c] <+: y ∨ ['~', '~', c] <+: y

theorem filter_two_tildes : ['~', '~'].filter (· != '~') = [] := by decide

/-- A text comes behind what is there, between tildes at most. -/
theorem Follows.append {x y t marks : Text} (h : Follows x y)
    (shape : marks = [] ∨ marks = ['~', '~'] ∧ t ≠ []) :
    Follows (x ++ t) (y ++ (marks ++ t ++ marks)) := by
  have none : marks.filter (· != '~') = [] := by
    rcases shape with rfl | ⟨rfl, -⟩
    · rfl
    · exact filter_two_tildes
  refine ⟨?_, ?_, ?_⟩
  · simp only [List.filter_append, h.same, none, List.nil_append, List.append_nil]
  · intro empty
    obtain ⟨rfl, blank⟩ := List.append_eq_nil_iff.1 empty
    have noMarks : marks = [] := by
      rcases shape with rfl | ⟨-, filled⟩
      · rfl
      · exact absurd blank filled
    simp [h.opens rfl, blank, noMarks]
  · intro c rest eq notTilde
    cases x with
    | nil =>
        rw [List.nil_append] at eq
        rw [h.opens rfl, eq]
        rcases shape with rfl | ⟨rfl, -⟩
        · exact .inl ⟨rest, by simp⟩
        · exact .inr ⟨rest ++ ['~', '~'], by simp⟩
    | cons d x =>
        obtain rfl : d = c := by simpa using congrArg List.head? eq
        rcases h.first d x rfl notTilde with here | behind
        · exact .inl (here.trans (List.prefix_append _ _))
        · exact .inr (behind.trans (List.prefix_append _ _))

/-- A text takes back two tildes and brings them again. -/
theorem Follows.cut {x y t : Text} (h : Follows x (y ++ ['~', '~'])) :
    Follows (x ++ t) (y ++ (t ++ ['~', '~'])) := by
  have same := h.same
  rw [List.filter_append, filter_two_tildes, List.append_nil] at same
  cases x with
  | nil =>
      have empty := h.opens rfl
      simp at empty
  | cons c x =>
      refine ⟨?_, by simp, ?_⟩
      · simp only [List.filter_append, same, filter_two_tildes, List.append_nil]
      · intro d rest eq notTilde
        obtain rfl : c = d := by simpa using congrArg List.head? eq
        rcases h.first c x rfl notTilde with here | behind
        · exact .inl ((prefix_of_tildes (k := []) notTilde here).trans (List.prefix_append _ _))
        · exact .inr ((prefix_of_tildes (k := ['~', '~']) notTilde behind).trans
            (List.prefix_append _ _))

theorem follows_writeSpan {x : Text} (s : Span) {out : Draft} (h : Follows x out.ink) :
    Follows (x ++ s.text.filter isVisible) (writeSpan language s out).ink := by
  by_cases cuts : s.Cuts out
  · obtain ⟨t, before, rfl, rfl, goesOn⟩ := cuts
    rw [ink_tildes] at h
    rw [ink_writeSpan_cut language before goesOn]
    exact h.cut
  · obtain ⟨marks, shape, ink⟩ := ink_writeSpan language cuts
    rw [ink]
    exact h.append shape

theorem follows_writeSpans {x : Text} (spans : List Span) {out : Draft} (h : Follows x out.ink) :
    Follows (x ++ (spans.map Span.text).flatten.filter isVisible)
      (writeSpans language spans out).ink := by
  induction spans generalizing x out with
  | nil => simpa [writeSpans, writeForest] using h
  | cons s spans ih =>
      rw [List.map_cons, List.flatten_cons, List.filter_append, ← List.append_assoc]
      exact ih (follows_writeSpan language s h)

theorem newline_notMem_writeSpan (s : Span) {out : Draft} (h : '\n' ∉ out) :
    '\n' ∉ writeSpan language s out := by
  have joined : ∀ piece : Text, '\n' ∉ piece → '\n' ∉ out.join piece := by
    intro piece no mem
    rw [Draft.join_eq, Draft.put, List.mem_append, List.mem_reverse] at mem
    refine mem.elim (fun inside => no ?_) h
    split at inside
    · exact (List.dropWhile_suffix _).subset inside
    · exact inside
  have wrapped : ∀ (opening : Text) (t : Text), '\n' ∉ opening →
      '\n' ∉ wrapLine opening "~~" (Text.collapse t) := by
    intro opening t no mem
    rcases mem_wrapLine mem with mem | mem | mem
    · exact Text.newline_notMem_collapse t mem
    · exact no mem
    · exact absurd mem (by decide)
  by_cases cuts : s.Cuts out
  · obtain ⟨t, before, rfl, rfl, goesOn⟩ := cuts
    rw [writeSpan_struck language, Draft.emphasize_goesOn before goesOn, wrap_collapse, Draft.put,
      List.mem_append, List.mem_reverse]
    refine not_or.2 ⟨wrapped [] t (by simp), fun mem => h ?_⟩
    exact List.mem_cons_of_mem _ (List.mem_cons_of_mem _ mem)
  · cases s with
    | plain t => exact joined _ (Text.newline_notMem_collapse t)
    | struck t =>
        rw [writeSpan_struck_apart language cuts]
        exact joined _ (wrapped "~~" t (by decide))

theorem newline_notMem_writeSpans (spans : List Span) {out : Draft} (h : '\n' ∉ out) :
    '\n' ∉ writeSpans language spans out := by
  induction spans generalizing out with
  | nil => exact h
  | cons s spans ih => exact ih (newline_notMem_writeSpan language s h)

/-! ## Text that is lost stays lost -/

/-- What ends with a character that `w` does not hold stands before `w`. -/
theorem sublist_of_append_notMem {x y w : Text} {c : Char} (h : x ++ [c] <+ y ++ w) (no : c ∉ w) :
    x ++ [c] <+ y := by
  obtain ⟨l, r, eq, left, right⟩ := List.sublist_append_iff.1 h
  rcases List.eq_nil_or_concat r with rfl | ⟨r, d, rfl⟩
  · rw [List.append_nil] at eq
    exact eq ▸ left
  · rw [List.concat_eq_append, ← List.append_assoc] at eq
    obtain rfl : c = d := by simpa using (List.append_inj' eq rfl).2
    exact absurd (right.subset (by simp)) no

/-- Where as many characters but tildes come later in `x` as in `y`, what stands before them
in `x` stands before them in `y`. -/
theorem sublist_of_same {x k a b : Text} {d : Char} (notTilde : d ≠ '~')
    (h : x ++ [d] ++ a <+ k ++ b) (same : a.filter (· != '~') = b.filter (· != '~')) :
    x ++ [d] <+ k := by
  obtain ⟨l, r, eq, left, right⟩ := List.append_sublist_iff.1 h
  rcases List.append_eq_append_iff.1 eq with ⟨more, rfl, rest⟩ | ⟨more, rfl, -⟩
  · -- What `x` has beyond `k` are tildes, since `a` takes every other character of `b`.
    have few := (right.filter (· != '~')).length_le
    rw [same, rest, List.filter_append, List.length_append] at few
    have none : more.filter (· != '~') = [] := List.eq_nil_of_length_eq_zero (by omega)
    apply sublist_of_append_notMem left
    intro mem
    have kept : d ∈ more.filter (· != '~') := List.mem_filter.2 ⟨mem, by simpa using notTilde⟩
    simp [none] at kept
  · exact left.trans (List.sublist_append_left _ _)

/-- The last character of a text that is no tilde. -/
theorem exists_last {t : Text} {c : Char} (hc : c ∈ t) (ne : c ≠ '~') :
    ∃ k d w, t = k ++ d :: w ∧ d ≠ '~' ∧ ∀ e ∈ w, e = '~' := by
  induction t generalizing c with
  | nil => simp at hc
  | cons e t ih =>
      by_cases later : ∃ d ∈ t, d ≠ '~'
      · obtain ⟨d, hd, notTilde⟩ := later
        obtain ⟨k, d, w, rfl, last⟩ := ih hd notTilde
        exact ⟨e :: k, d, w, rfl, last⟩
      · have tildes : ∀ d ∈ t, d = '~' := fun d hd =>
          Decidable.by_contra fun notTilde => later ⟨d, hd, notTilde⟩
        rcases List.mem_cons.1 hc with rfl | hc
        · exact ⟨[], c, t, rfl, ne, tildes⟩
        · exact absurd (tildes c hc) ne

/-- If all is kept in the end, what was read before a struck text that goes on stood before
the tildes that it takes back, unless it holds nothing but tildes. -/
theorem sublist_before_cut {read t : Text} {before : Draft} {spans : List Span}
    (goesOn : continuesStrike (Text.collapse t) = true)
    (follows : Follows read (Draft.ink ('~' :: '~' :: before)))
    (kept : read ++ t.filter isVisible ++ (spans.map Span.text).flatten.filter isVisible <+
      (writeSpans language spans (writeSpan language (.struck t) ('~' :: '~' :: before))).ink)
    {c : Char} (mem : c ∈ t.filter isVisible) (notTilde : c ≠ '~') :
    read <+ Draft.ink before := by
  obtain ⟨k, d, w, eq, last, -⟩ := exists_last mem notTilde
  -- The draft up to the last character of the struck text that is no tilde stays.
  have stays : Draft.ink before ++ k ++ [d] <+:
      (writeSpans language spans (writeSpan language (.struck t) ('~' :: '~' :: before))).ink := by
    apply prefix_writeSpans language last spans
    rw [ink_writeSpan_cut language before goesOn, eq]
    exact ⟨w ++ ['~', '~'], by simp⟩
  obtain ⟨rest, final⟩ := stays
  have later : (w ++ (spans.map Span.text).flatten.filter isVisible).filter (· != '~') =
      rest.filter (· != '~') := by
    have same := follows.same
    rw [ink_tildes, List.filter_append, filter_two_tildes, List.append_nil] at same
    have whole := (follows_writeSpans language spans
      (follows_writeSpan language (.struck t) follows)).same
    have lined : read ++ (Span.struck t).text.filter isVisible = read ++ k ++ [d] ++ w := by
      simp [Span.text, eq]
    rw [← final, lined] at whole
    simp only [List.filter_append, same, List.append_assoc, List.append_cancel_left_eq] at whole
    rw [List.filter_append]
    exact whole.symm
  have upTo : read ++ k ++ [d] <+ Draft.ink before ++ k ++ [d] := by
    refine sublist_of_same last (?_ : read ++ k ++ [d] ++ (w ++ _) <+ _ ++ rest) later
    rw [← final] at kept
    simpa [eq] using kept
  rwa [List.append_assoc, List.append_assoc, List.append_sublist_append_right] at upTo

/-- Tildes may stand on either side of tildes. -/
theorem append_tildes_comm {t : Text} (tildes : ∀ c ∈ t, c = '~') :
    t ++ ['~', '~'] = ['~', '~'] ++ t := by
  rw [List.eq_replicate_iff.2 ⟨rfl, tildes⟩]
  show List.replicate _ '~' ++ List.replicate 2 '~' = List.replicate 2 '~' ++ List.replicate _ '~'
  rw [List.replicate_append_replicate, List.replicate_append_replicate, Nat.add_comm]

/-- A struck text that goes on keeps what was read, if all is kept in the end. -/
theorem keeps_cut {read t : Text} {before : Draft} {spans : List Span}
    (goesOn : continuesStrike (Text.collapse t) = true)
    (follows : Follows read (Draft.ink ('~' :: '~' :: before)))
    (holds : read <+ Draft.ink ('~' :: '~' :: before))
    (kept : read ++ t.filter isVisible ++ (spans.map Span.text).flatten.filter isVisible <+
      (writeSpans language spans (writeSpan language (.struck t) ('~' :: '~' :: before))).ink) :
    read ++ t.filter isVisible <+
      (writeSpan language (.struck t) ('~' :: '~' :: before)).ink := by
  rw [ink_writeSpan_cut language before goesOn]
  by_cases text : ∃ c ∈ t.filter isVisible, c ≠ '~'
  · obtain ⟨c, mem, notTilde⟩ := text
    have stood := sublist_before_cut language goesOn follows kept mem notTilde
    exact stood.append (List.sublist_append_left _ _)
  · have tildes : ∀ c ∈ t.filter isVisible, c = '~' := by
      intro c mem
      by_cases tilde : c = '~'
      · exact tilde
      · exact absurd ⟨c, mem, tilde⟩ text
    rw [ink_tildes] at holds
    rw [append_tildes_comm tildes, ← List.append_assoc]
    exact holds.append (List.Sublist.refl _)

/-- Spans keep what is read, one after the other, if all is kept in the end. -/
theorem keeps_spans {read : Text} {spans : List Span} {out : Draft}
    (follows : Follows read out.ink) (holds : read <+ out.ink)
    (kept : read ++ (spans.map Span.text).flatten.filter isVisible <+
      (writeSpans language spans out).ink) :
    ∀ v ∈ allVisits language isVisible (spans.map Span.node) [] read out,
      v.Keeps language isVisible := by
  induction spans generalizing read out with
  | nil => exact nofun
  | cons s spans ih =>
      rw [List.map_cons, List.flatten_cons, List.filter_append, ← List.append_assoc] at kept
      have here : read ++ s.text.filter isVisible <+ (writeSpan language s out).ink := by
        by_cases cuts : s.Cuts out
        · obtain ⟨t, before, rfl, rfl, goesOn⟩ := cuts
          exact keeps_cut language goesOn follows holds kept
        · obtain ⟨marks, -, ink⟩ := ink_writeSpan language cuts
          rw [ink]
          apply holds.append
          exact (List.sublist_append_right _ _).trans (List.sublist_append_left _ _)
      have rest := ih (follows_writeSpan language s follows) here kept
      rw [← Span.textContent_node] at here rest
      rw [List.map_cons, allVisits, List.forall_mem_append, List.forall_mem_cons]
      refine ⟨⟨here, ?_⟩, rest⟩
      -- The text of a struck span comes through by itself.
      cases s with
      | plain t => exact nofun
      | struck t =>
          refine keeps_all inked_isVisible [.text t] ⟨trivial, trivial⟩ ?_ (List.nil_sublist _)
          refine List.forall_mem_singleton.2 ?_
          rintro ⟨cs, before, node, -, -⟩
          exact nomatch node

/-! ## A line of spans as a page -/

theorem allBodiless_spans (spans : List Span) : AllBodiless (spans.map Span.node) := by
  induction spans with
  | nil => trivial
  | cons s spans ih =>
      cases s with
      | plain t => exact ⟨trivial, ih⟩
      | struck t => exact ⟨⟨trivial, trivial⟩, ih⟩

theorem textContents_spans (spans : List Span) :
    Forest.textContents (spans.map Span.node) = (spans.map Span.text).flatten := by
  induction spans with
  | nil => rfl
  | cons s spans ih => simp [Forest.textContents, Span.textContent_node, ih]

theorem textContents_spanLine (spans : List Span) :
    Forest.textContents (spanLine spans) = (spans.map Span.text).flatten := by
  simp [spanLine, Forest.textContents, Node.textContent, textContents_spans]

theorem layNode_span (s : Span) (f : Flow) :
    layNode language s.node f = { f with draft := writeSpan language s f.draft } := by
  cases s <;> rfl

theorem layVisits_span (s : Span) (read : Text) (f : Flow) :
    layVisits language isVisible s.node read f = draftVisits language isVisible s.node read f := by
  cases s <;> rfl

theorem allLayVisits_spans (spans : List Span) (read : Text) (out : Draft) :
    allLayVisits language isVisible (spans.map Span.node) read ⟨[], out⟩ =
      allVisits language isVisible (spans.map Span.node) [] read out := by
  induction spans generalizing read out with
  | nil => rfl
  | cons s spans ih =>
      simp only [List.map_cons, allLayVisits, allVisits, layVisits_span, layNode_span, draftVisits]
      rw [ih]
      simp [writeSpan]

theorem pageVisits_spanLine (spans : List Span) :
    pageVisits language isVisible (spanLine spans) =
      allVisits language isVisible (spans.map Span.node) [] [] [] := by
  have laid := allLayVisits_spans language spans [] []
  simp only [pageVisits, spanLine, allLayVisits, layVisits, List.append_nil]
  exact laid

theorem layForest_spans (spans : List Span) (out : Draft) :
    layForest language (spans.map Span.node) ⟨[], out⟩ = ⟨[], writeSpans language spans out⟩ := by
  induction spans generalizing out with
  | nil => rfl
  | cons s spans ih =>
      rw [List.map_cons, layForest, layNode_span, ih]
      rfl

/-- The ink of the page is that of the draft, with the backslash of an escape in front. -/
theorem filter_render_spanLine (spans : List Span) :
    (render language (spanLine spans)).filter isVisible = (writeSpans language spans []).ink ∨
      (render language (spanLine spans)).filter isVisible =
          '\\' :: (writeSpans language spans []).ink ∧
        (['~', '~', '~'] <+: (writeSpans language spans []).ink ∨
          [tick] <+: (writeSpans language spans []).ink) := by
  have noBreak : '\n' ∉ Text.trim (writeSpans language spans []).text := fun mem =>
    newline_notMem_writeSpans language spans (by simp)
      (List.mem_reverse.1 ((Text.isInfix_trim _).subset mem))
  have laid : layForest language (spanLine spans) .start =
      Flow.close ⟨[], writeSpans language spans []⟩ := by
    rw [← layForest_spans]
    rfl
  have escaped := filter_escapeFenceOpener (Text.trim (writeSpans language spans []).text)
  rw [Text.filter_trim inked_isVisible, ← escapeFenceOpeners_of_notMem noBreak] at escaped
  rw [render, filter_tidy inked_isVisible, laid]
  simp only [Flow.close]
  split
  · next empty =>
    have none := Text.filter_trim inked_isVisible (writeSpans language spans []).text
    rw [List.isEmpty_iff.1 empty] at none
    exact .inl none
  · simpa [Flow.pageText, Flow.texts, Flow.close_nil, Draft.ink] using escaped

/-- **When a line of spans keeps its text.**  The text comes through exactly if every struck
text that takes something back keeps what was read. -/
theorem spanLine_kept_iff (spans : List Span) :
    (Forest.textContents (spanLine spans)).filter isVisible <+ render language (spanLine spans) ↔
      ∀ v ∈ pageVisits language isVisible (spanLine spans),
        v.Cuts language → v.Keeps language isVisible := by
  have bodiless : AllBodiless (spanLine spans) := ⟨allBodiless_spans spans, trivial⟩
  rw [← keeps_iff_of_cuts inked_isVisible bodiless]
  constructor
  · intro kept
    have follows : Follows [] (Draft.ink []) := ⟨rfl, fun _ => rfl, nofun⟩
    rw [pageVisits_spanLine]
    apply keeps_spans language follows (List.nil_sublist _)
    have inked := kept.filter isVisible
    rw [List.filter_filter, textContents_spanLine] at inked
    simp only [Bool.and_self] at inked
    rw [List.nil_append]
    rcases filter_render_spanLine language spans with same | ⟨escaped, starts⟩
    · rwa [same] at inked
    · rw [escaped] at inked
      rcases List.sublist_cons_iff.1 inked with inked | ⟨rest, whole, -⟩
      · exact inked
      · -- The draft starts with three tildes or a backtick, so the text with no backslash.
        have final := follows_writeSpans language spans follows
        rw [List.nil_append] at final
        have first := final.first '\\' rest whole (by decide)
        exfalso
        rcases first with ⟨u, here⟩ | ⟨u, here⟩
        · rcases starts with ⟨v, other⟩ | ⟨v, other⟩
          · simp [← here] at other
          · simp [← here, tick] at other
        · rcases starts with ⟨v, other⟩ | ⟨v, other⟩
          · simp [← here] at other
          · simp [← here, tick] at other
  · intro keeps
    exact (filter_render inked_isVisible bodiless keeps).trans List.filter_sublist

end

/-- **Rendering keeps text.**  The visible characters of a forest stand in its Markdown in
document order, if they are no tildes.  The tildes among them do too, if every struck text
that takes something back keeps what was read; then every other node keeps it as well.  And
in a line of spans they do only then. -/
theorem render_keeps_text (language : Language) :
    (∀ nodes : Forest, AllBodiless nodes →
      (Forest.textContents nodes).filter (fun c => isVisible c && c != '~') <+
          render language nodes ∧
        ((∀ v ∈ pageVisits language isVisible nodes, v.Cuts language → v.Keeps language isVisible) →
          (Forest.textContents nodes).filter isVisible <+ render language nodes) ∧
        ((∀ v ∈ pageVisits language isVisible nodes, v.Keeps language isVisible) ↔
          ∀ v ∈ pageVisits language isVisible nodes,
            v.Cuts language → v.Keeps language isVisible)) ∧
    ∀ spans : List Span,
      (Forest.textContents (spanLine spans)).filter isVisible <+ render language (spanLine spans) ↔
        ∀ v ∈ pageVisits language isVisible (spanLine spans),
          v.Cuts language → v.Keeps language isVisible := by
  constructor
  · intro nodes bodiless
    refine ⟨?_, ?_, keeps_iff_of_cuts inked_isVisible bodiless⟩
    · have ink : Inked fun c => isVisible c && c != '~' := by
        intro c space
        simp [isVisible, space]
      exact (filter_render_of_tilde ink (by simp) bodiless).trans List.filter_sublist
    · intro keeps
      have all := (keeps_iff_of_cuts inked_isVisible bodiless).2 keeps
      exact (filter_render inked_isVisible bodiless all).trans List.filter_sublist
  · intro spans
    exact spanLine_kept_iff language spans

/-- Two struck texts side by side become one span, which takes back no text. -/
theorem struck_pair_kept :
    (Forest.textContents (spanLine [.struck "a", .struck "b"])).filter isVisible <+
      render .english (spanLine [.struck "a", .struck "b"]) := by
  have keeps : ∀ v ∈ pageVisits .english isVisible (spanLine [.struck "a", .struck "b"]),
      v.Keeps .english isVisible := by
    decide
  refine ((render_keeps_text .english).1 _ ?_).2.1 fun v mem _ => keeps v mem
  simp [spanLine, Span.node, AllBodiless, Bodiless]

/-- A struck text behind a text with two tildes at its end moves them behind itself. -/
theorem struck_text_moves_tildes :
    ¬ (Forest.textContents (spanLine [.plain "a~~", .struck "b"])).filter isVisible <+
        render .english (spanLine [.plain "a~~", .struck "b"]) := by
  decide

end Wikidown.Markdown
