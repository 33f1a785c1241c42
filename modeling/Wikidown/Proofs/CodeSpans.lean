/-
# Wikidown.Proofs.CodeSpans -- code in links, emphasis and elements

A `Nest` is a code span with layers of emphasis, links and elements around it, and texts
beside it in each layer.  Its paragraph holds the span in one piece, but a link escapes what
is written in it, code as well as text: the span stands there with the marks of a link text
escaped once for each link around it (`render_nest`).

`Holds bare x t` is the invariant: the text is `x` with something in one line before and behind
it, which has no backtick where the texts and addresses of the nest have none.  Every step of
the writer keeps it, since `x` starts and ends with a backtick (`Ticked`), where nothing is
cut; the link alone changes `x`.  By induction on the nest so does the paragraph.
-/
import Wikidown.Proofs.Characters
import Wikidown.Proofs.LineEnds
import Wikidown.Proofs.SteadyLines
import Mathlib.Data.List.Basic
import Mathlib.Logic.Function.Iterate

namespace Wikidown.Markdown

set_option autoImplicit false

open Document (Node Forest Emphasis)

/-! ## Nests -/

/-- What may stand around inline nodes. -/
inductive Layer where
  | emphasis (kind : Emphasis)
  | link (href : Text)
  | element (name : Text) (attributes : Dictionary)

/-- Where a code span stands: between texts, or in a layer that stands between texts. -/
inductive Nest where
  | here (before after : List Text)
  | within (before : List Text) (layer : Layer) (inner : Nest) (after : List Text)

namespace Layer

/-- The layer around nodes. -/
def node : Layer → Forest → Node
  | emphasis kind, cs => .emphasis kind cs
  | link href, cs => .link href cs
  | element name attributes, cs => .element name attributes cs

/-- The links that a layer is. -/
def links : Layer → Nat
  | link href => if href.isEmpty then 0 else 1
  | _ => 0

/-- The address of a link. -/
def addresses : Layer → List Text
  | link href => [href]
  | _ => []

end Layer

namespace Nest

/-- The nodes of the nest, with a code span of the given nodes in it. -/
def nodes (code : Forest) : Nest → Forest
  | here before after => before.map .text ++ .codeSpan code :: after.map .text
  | within before layer inner after =>
      before.map .text ++ layer.node (inner.nodes code) :: after.map .text

/-- The number of links around the span; one that leads nowhere is none. -/
def links : Nest → Nat
  | here _ _ => 0
  | within _ layer inner _ => inner.links + layer.links

/-- The texts beside the span and the addresses of the links. -/
def strings : Nest → List Text
  | here before after => before ++ after
  | within before layer inner after => before ++ after ++ layer.addresses ++ inner.strings

end Nest

/-! ## Texts in backticks -/

/-- A text in one line that starts and ends with a backtick. -/
structure Ticked (x : Text) : Prop where
  starts : ∃ rest, x = tick :: rest
  ends : ∃ front, x = front ++ [tick]
  oneLine : '\n' ∉ x

theorem ticked_codeSpan {code : Text} (oneLine : '\n' ∉ code) : Ticked (codeSpan code) := by
  have fence : ∀ n, '\n' ∉ ticks n := fun n mem => absurd (List.eq_of_mem_replicate mem) (by decide)
  have last : ∀ n, ticks (n + 1) = ticks n ++ [tick] := fun n => List.replicate_succ'
  unfold codeSpan
  split
  · refine ⟨⟨_, rfl⟩, ⟨ticks (longestRun code + 1) ++ ' ' :: code ++ ' ' :: ticks (longestRun code),
      by simp [last]⟩, by simp [oneLine, fence]⟩
  · refine ⟨⟨_, rfl⟩, ⟨ticks (longestRun code + 1) ++ code ++ ticks (longestRun code),
      by simp [last]⟩, by simp [oneLine, fence]⟩

/-- A character that a link text escapes. -/
def isLinkMark (c : Char) : Bool := c == '\\' || c == '[' || c == ']'

theorem linkText_append (a b : Text) : linkText (a ++ b) = linkText a ++ linkText b :=
  List.flatMap_append

theorem count_tick_linkText (t : Text) : (linkText t).count tick = t.count tick := by
  induction t with
  | nil => rfl
  | cons c t ih =>
      have here : (linkText [c]).count tick = [c].count tick := by
        simp only [linkText, escapeWhere, List.flatMap_singleton]
        split
        · exact List.count_cons_of_ne (by decide)
        · rfl
      rw [← List.singleton_append, linkText_append, List.count_append, List.count_append, here, ih]

/-- A link text is written as it is exactly if it has none of the marks. -/
theorem linkText_eq_self_iff {t : Text} : linkText t = t ↔ ∀ c ∈ t, isLinkMark c = false := by
  induction t with
  | nil => simp [linkText, escapeWhere]
  | cons c t ih =>
      rw [List.forall_mem_cons, ← ih]
      have cons : linkText (c :: t) = (if isLinkMark c then ['\\', c] else [c]) ++ linkText t := rfl
      have longer : t.length ≤ (linkText t).length := (sublist_escapeWhere _ t).length_le
      rw [cons]
      cases mark : isLinkMark c with
      | true =>
          constructor
          · intro same
            have length := congrArg List.length same
            simp at length
            omega
          · rintro ⟨wrong, -⟩
            cases wrong
      | false => simp

namespace Ticked

variable {x : Text}

theorem linkText (h : Ticked x) : Ticked (linkText x) := by
  obtain ⟨rest, first⟩ := h.starts
  obtain ⟨front, last⟩ := h.ends
  refine ⟨⟨Markdown.linkText rest, by rw [first]; rfl⟩, ⟨Markdown.linkText front, ?_⟩, ?_⟩
  · rw [last, linkText_append]
    rfl
  · intro mem
    rcases mem_escapeWhere mem with slash | inText
    · cases slash
    · exact h.oneLine inText

theorem iterate (h : Ticked x) (n : Nat) : Ticked (Markdown.linkText^[n] x) := by
  induction n with
  | zero => exact h
  | succ n ih =>
      rw [Function.iterate_succ_apply']
      exact ih.linkText

end Ticked

/-! ## Texts that hold it -/

/-- The characters stand in one line, and none is a backtick in a bare nest. -/
def Clear (bare : Prop) (s : Text) : Prop := ∀ c ∈ s, c ≠ '\n' ∧ (bare → c ≠ tick)

/-- The text in backticks stands in the text, in one line. -/
def Holds (bare : Prop) (x t : Text) : Prop :=
  ∃ before after, t = before ++ x ++ after ∧ Clear bare before ∧ Clear bare after

section

variable {bare : Prop} {s t x : Text} {out : Draft}

theorem Clear.append (hs : Clear bare s) (ht : Clear bare t) : Clear bare (s ++ t) := by
  intro c mem
  exact (List.mem_append.1 mem).elim (hs c) (ht c)

theorem Clear.of_subset (h : Clear bare t) (sub : s ⊆ t) : Clear bare s :=
  fun c mem => h c (sub mem)

theorem Clear.reverse (h : Clear bare t) : Clear bare t.reverse :=
  h.of_subset fun _ mem => List.mem_reverse.1 mem

theorem clear_nil : Clear bare [] := fun _ mem => absurd mem List.not_mem_nil

theorem clear_of_notMem (own : '\n' ∉ s ∧ tick ∉ s) : Clear bare s :=
  fun _ mem => ⟨fun feed => own.1 (feed ▸ mem), fun _ same => own.2 (same ▸ mem)⟩

theorem clear_spaces (h : ∀ c ∈ s, isSpace c = true) (oneLine : '\n' ∉ s) : Clear bare s := by
  refine clear_of_notMem ⟨oneLine, fun mem => ?_⟩
  have space := h tick mem
  revert space
  decide

theorem clear_collapse (h : bare → tick ∉ t) (within : Bool) :
    Clear bare (Text.collapseFrom within t) := by
  intro c mem
  constructor
  · rintro rfl
    rcases Text.mem_collapseFrom mem with space | visible
    · cases space
    · cases visible
  · rintro isBare rfl
    rcases Text.mem_of_mem_collapseFrom mem with space | inText
    · cases space
    · exact h isBare inText

theorem Clear.escapeWhere (h : Clear bare t) (p : Char → Bool) :
    Clear bare (escapeWhere p t) := by
  intro c mem
  rcases mem_escapeWhere mem with rfl | inText
  · exact ⟨by decide, fun _ => by decide⟩
  · exact h c inText

theorem clear_linkDestination {href : Text} (h : bare → tick ∉ href) :
    Clear bare (linkDestination href) := by
  have marks : Clear bare "<>\\ " := clear_of_notMem (by decide)
  intro c mem
  rcases mem_linkDestination mem with mark | ⟨inHref, noFeed⟩
  · exact marks c mark
  · exact ⟨noFeed, fun isBare same => h isBare (same ▸ inHref)⟩

namespace Holds

theorem self (x : Text) : Holds bare x x := ⟨[], [], by simp, clear_nil, clear_nil⟩

theorem append_left (h : Holds bare x t) (hs : Clear bare s) : Holds bare x (s ++ t) := by
  obtain ⟨before, after, rfl, clear, clear'⟩ := h
  exact ⟨s ++ before, after, by simp, hs.append clear, clear'⟩

theorem append_right (h : Holds bare x t) (hs : Clear bare s) : Holds bare x (t ++ s) := by
  obtain ⟨before, after, rfl, clear, clear'⟩ := h
  exact ⟨before, after ++ s, by simp, clear, clear'.append hs⟩

theorem oneLine (h : Holds bare x t) (ticked : Ticked x) : '\n' ∉ t := by
  obtain ⟨before, after, rfl, clear, clear'⟩ := h
  have noFeed : ∀ {s}, Clear bare s → '\n' ∉ s := fun clear mem => (clear _ mem).1 rfl
  simp [noFeed clear, noFeed clear', ticked.oneLine]

theorem isBlank (h : Holds bare x t) (ticked : Ticked x) : Text.isBlank t = false := by
  obtain ⟨before, after, rfl, -, -⟩ := h
  obtain ⟨rest, rfl⟩ := ticked.starts
  have visible : isSpace tick = false := by decide
  simp [Text.isBlank, visible]

/-- What is dropped at the start ends before the first backtick. -/
theorem dropWhile (h : Holds bare x t) (ticked : Ticked x) {q : Char → Bool}
    (keeps : q tick = false) : Holds bare x (t.dropWhile q) := by
  obtain ⟨before, after, rfl, clear, clear'⟩ := h
  refine ⟨before.dropWhile q, after, ?_, clear.of_subset (List.dropWhile_suffix q).subset, clear'⟩
  obtain ⟨rest, rfl⟩ := ticked.starts
  rw [List.append_assoc, List.append_assoc, List.dropWhile_append]
  cases all : (before.dropWhile q).isEmpty with
  | true =>
      rw [List.isEmpty_iff.1 all]
      simp [keeps]
  | false => rfl

theorem reverse (h : Holds bare x t) : Holds bare x.reverse t.reverse := by
  obtain ⟨before, after, rfl, clear, clear'⟩ := h
  exact ⟨after.reverse, before.reverse, by simp, clear'.reverse, clear.reverse⟩

theorem trim (h : Holds bare x t) (ticked : Ticked x) : Holds bare x (Text.trim t) := by
  have backwards : Ticked x.reverse := by
    obtain ⟨rest, first⟩ := ticked.starts
    obtain ⟨front, last⟩ := ticked.ends
    exact ⟨⟨front.reverse, by simp [last]⟩, ⟨rest.reverse, by simp [first]⟩,
      by simpa using ticked.oneLine⟩
  have start : Holds bare x (Text.trimStart t) := h.dropWhile ticked (by decide)
  have both := (start.reverse.dropWhile backwards (by decide : isSpace tick = false)).reverse
  rwa [List.reverse_reverse] at both

/-- Marks are put around all that is visible. -/
theorem wrap (h : Holds bare x t) (ticked : Ticked x) {opening closing : Text}
    (hopening : Clear bare opening) (hclosing : Clear bare closing) :
    Holds bare x (wrap opening closing t) := by
  have noFeed := h.oneLine ticked
  have ends : Clear bare (t.takeWhile isSpace) ∧ Clear bare (Text.takeEndWhile isSpace t) := by
    constructor
    · exact clear_spaces (fun _ => Text.isSpace_of_mem_takeWhile) fun mem =>
        noFeed ((List.takeWhile_prefix _).subset mem)
    · exact clear_spaces (fun _ => Text.isSpace_of_mem_takeEndWhile) fun mem =>
        noFeed (Text.mem_of_mem_takeEndWhile mem)
  rw [wrap_of_notMem noFeed, wrapLine, h.isBlank ticked, if_neg (by simp)]
  exact (((h.trim ticked).append_left (ends.1.append hopening)).append_right hclosing).append_right
    ends.2

theorem linkText (h : Holds bare x t) : Holds bare (linkText x) (Markdown.linkText t) := by
  obtain ⟨before, after, rfl, clear, clear'⟩ := h
  exact ⟨Markdown.linkText before, Markdown.linkText after, by simp [linkText_append],
    clear.escapeWhere _, clear'.escapeWhere _⟩

/-- Text goes on behind it. -/
theorem put (h : Holds bare x out.text) (hs : Clear bare s) : Holds bare x (out.put s).text := by
  rw [Draft.text_put]
  exact h.append_right hs

/-- It is put on a draft without losing anything. -/
theorem join (h : Holds bare x t) (ticked : Ticked x) (hout : Clear bare out) :
    Holds bare x (out.join t).text := by
  rw [Draft.join_eq, Draft.text_put]
  have front : Clear bare out.text := hout.reverse
  split
  · exact (h.dropWhile ticked (by decide)).append_left front
  · exact h.append_left front

theorem emphasize (h : Holds bare x t) (ticked : Ticked x) (hout : Clear bare out)
    (kind : Emphasis) : Holds bare x (out.emphasize kind t).text := by
  have marks : Clear bare (marks kind out) := by
    unfold Markdown.marks
    split <;> exact clear_of_notMem (by decide)
  have stressed := (h.wrap ticked marks marks).join ticked hout
  unfold Draft.emphasize
  split
  · next before =>
    split
    · -- the tildes that are taken back stand before the draft that goes on
      have tildes : Clear bare "~~" := clear_of_notMem (by decide)
      have earlier : Clear bare (Draft.text before) :=
        (hout.of_subset (List.suffix_append ['~', '~'] before).subset).reverse
      rw [Draft.text_put]
      exact (h.wrap ticked clear_nil tildes).append_left earlier
    · exact stressed
  · exact stressed

theorem escapeFenceOpener (h : Holds bare x t) (ticked : Ticked x) :
    Holds bare x (escapeFenceOpener t) := by
  simp only [Markdown.escapeFenceOpener]
  split
  · have body := h.dropWhile ticked (by decide : isSpace tick = false)
    have slash : Clear bare ['\\'] := clear_of_notMem (by decide)
    have spaces : Clear bare (t.takeWhile isSpace) :=
      clear_spaces (fun _ => Text.isSpace_of_mem_takeWhile) fun mem =>
        h.oneLine ticked ((List.takeWhile_prefix _).subset mem)
    exact (body.append_left slash).append_left spaces
  · exact h

end Holds

/-! ## Writing a nest -/

variable {language : Language}

/-- A link around it escapes it, unless it leads nowhere. -/
theorem Holds.linkTo (h : Holds bare x t) (ticked : Ticked x) {href : Text}
    (hhref : bare → tick ∉ href) :
    Holds bare (Markdown.linkText^[(Layer.link href).links] x) (Markdown.linkTo href t) := by
  have filled : t.isEmpty = false := by
    cases t with
    | nil => exact absurd (h.isBlank ticked) (by decide)
    | cons c t => rfl
  cases empty : href.isEmpty with
  | true =>
      simp only [Layer.links, Markdown.linkTo, empty, if_true]
      exact h
  | false =>
      have opening : Clear bare "[" := clear_of_notMem (by decide)
      have middle : Clear bare "](" := clear_of_notMem (by decide)
      have closing : Clear bare ")" := clear_of_notMem (by decide)
      simp only [Layer.links, Markdown.linkTo, empty, filled, Bool.false_eq_true, if_false]
      exact (((h.linkText.append_left opening).append_right middle).append_right
        (clear_linkDestination hhref)).append_right closing

/-- The step: what a node holds on any draft, it holds between texts. -/
theorem holds_between {n : Node} {before after : List Text}
    (node : ∀ out : Draft, Clear bare out → Holds bare x (writeNode language n out).text)
    (plain : bare → ∀ s ∈ before ++ after, tick ∉ s) (hout : Clear bare out) :
    Holds bare x
      (writeForest language (before.map .text ++ n :: after.map .text) out).text := by
  have texts : ∀ ts : List Text, (∀ s ∈ ts, s ∈ before ++ after) → ∀ within,
      Clear bare (Text.collapseFrom within ts.flatten) := by
    intro ts sub within
    refine clear_collapse (fun isBare mem => ?_) within
    obtain ⟨s, here, inside⟩ := List.mem_flatten.1 mem
    exact plain isBare s (sub s here) inside
  rw [writeForest_append, writeForest_texts, writeForest, writeForest_texts]
  apply Holds.put
  · apply node
    exact (texts before (fun s => List.mem_append_left _) _).reverse.append hout
  · exact texts after (fun s => List.mem_append_right _) _

/-- The run: the span stands in the nest, escaped once for each link around it. -/
theorem holds_nodes {code : Forest} (text : Text.isBlank (Forest.textContents code) = false)
    (nest : Nest) (plain : bare → ∀ s ∈ nest.strings, tick ∉ s) (hout : Clear bare out) :
    Holds bare (linkText^[nest.links] (codeSpan (Text.collapse (Forest.textContents code))))
      (writeForest language (nest.nodes code) out).text := by
  have span : Ticked (codeSpan (Text.collapse (Forest.textContents code))) :=
    ticked_codeSpan (Text.newline_notMem_collapse _)
  induction nest generalizing out with
  | here before after =>
      refine holds_between (fun out hout => ?_) plain hout
      have shown : Text.isBlank (Text.collapse (Forest.textContents code)) = false :=
        (isBlank_collapse _).trans text
      simp only [writeNode, shown, Bool.false_eq_true, if_false]
      exact (Holds.self _).join span hout
  | within before layer inner after ih =>
      have inside : bare → ∀ s ∈ inner.strings, tick ∉ s := fun isBare s mem =>
        plain isBare s (by simp [Nest.strings, mem])
      have beside : bare → ∀ s ∈ before ++ after, tick ∉ s := fun isBare s mem =>
        plain isBare s (List.mem_append_left _ (List.mem_append_left _ mem))
      have ticked := span.iterate inner.links
      refine holds_between (fun out hout => ?_) beside hout
      cases layer with
      | emphasis kind => exact (ih inside clear_nil).emphasize ticked hout kind
      | link href =>
          have address : bare → tick ∉ href := fun isBare =>
            plain isBare href (by simp [Nest.strings, Layer.addresses])
          have shown := (ih inside clear_nil).trim ticked
          have linked := shown.linkTo ticked address
          rw [← Function.iterate_add_apply, Nat.add_comm] at linked
          exact linked.join (span.iterate _) hout
      | element name attributes => exact ih inside hout

/-! ## Paragraphs -/

theorem runsInline_nodes (language : Language) (code : Forest) (nest : Nest) :
    ∀ n ∈ nest.nodes code, RunsInline language n := by
  have between : ∀ {n : Node} (before after : List Text), RunsInline language n →
      ∀ m ∈ before.map Node.text ++ n :: after.map Node.text, RunsInline language m := by
    intro n before after inline m mem
    rw [List.mem_append, List.mem_cons, List.mem_map, List.mem_map] at mem
    rcases mem with ⟨s, -, rfl⟩ | rfl | ⟨s, -, rfl⟩
    · exact fun _ => rfl
    · exact inline
    · exact fun _ => rfl
  induction nest with
  | here before after => exact between before after fun _ => rfl
  | within before layer inner after ih =>
      apply between before after
      cases layer with
      | element name attributes => exact layForest_inline ih
      | _ => exact fun _ => rfl

/-- A paragraph that holds the text in backticks is its line. -/
theorem Holds.render {cs : Forest} (inline : ∀ n ∈ cs, RunsInline language n) (ticked : Ticked x)
    (h : Holds bare x (inlineText language cs)) :
    Holds bare x (render language [.paragraph cs]) := by
  have line := h.trim ticked
  have escaped := line.escapeFenceOpener ticked
  have filled : (Text.trim (inlineText language cs)).isEmpty = false := by
    rw [Text.isEmpty_trim]
    exact h.isBlank ticked
  rw [Markdown.render, layForest_paragraph inline, close_of_text rfl (line.oneLine ticked)]
  have written : (writeForest language cs []).text = inlineText language cs := rfl
  rw [written, filled, if_neg (by simp), pageText_singleton,
    tidy_of_line (escaped.oneLine ticked) (escaped.isBlank ticked)]
  exact escaped

/-- The first backtick tells where the text in front of it ends. -/
theorem append_inj_of_tick {a b c d : Text} (ha : tick ∉ a) (hb : tick ∉ b)
    (h : a ++ tick :: c = b ++ tick :: d) : a = b ∧ c = d := by
  induction a generalizing b with
  | nil =>
      cases b with
      | nil => exact ⟨rfl, (List.cons.inj h).2⟩
      | cons e b => exact absurd ((List.cons.inj h).1 ▸ List.mem_cons_self) hb
  | cons e a ih =>
      cases b with
      | nil => exact absurd ((List.cons.inj h).1 ▸ List.mem_cons_self) ha
      | cons f b =>
          obtain ⟨rfl, later⟩ := List.cons.inj h
          have rest := ih (fun mem => ha (List.mem_cons_of_mem _ mem))
            (fun mem => hb (List.mem_cons_of_mem _ mem)) later
          exact ⟨rest.1 ▸ rfl, rest.2⟩

/-- Between texts without backticks, a text in backticks is found only as a whole. -/
theorem eq_of_isInfix {y before after : Text} (hx : Ticked x) (hy : Ticked y)
    (count : y.count tick = x.count tick) (clear : tick ∉ before ∧ tick ∉ after)
    (h : x <:+: before ++ y ++ after) : x = y := by
  obtain ⟨front, back, whole⟩ := h
  -- all backticks there are stand in `x`
  have none : tick ∉ front ∧ tick ∉ back := by
    have total := congrArg (List.count tick) whole
    simp only [List.count_append, List.count_eq_zero_of_not_mem clear.1,
      List.count_eq_zero_of_not_mem clear.2] at total
    exact ⟨List.count_eq_zero.1 (by omega), List.count_eq_zero.1 (by omega)⟩
  have behind : x ++ back = y ++ after := by
    obtain ⟨restX, startX⟩ := hx.starts
    obtain ⟨restY, startY⟩ := hy.starts
    rw [startX, startY, List.append_assoc, List.append_assoc] at whole
    rw [startX, startY]
    exact congrArg (tick :: ·) (append_inj_of_tick none.1 clear.1 whole).2
  obtain ⟨frontX, endX⟩ := hx.ends
  obtain ⟨frontY, endY⟩ := hy.ends
  have backwards := congrArg List.reverse behind
  simp only [endX, endY, List.reverse_append, List.reverse_singleton, List.singleton_append]
    at backwards
  have same := append_inj_of_tick (fun mem => none.2 (List.mem_reverse.1 mem))
    (fun mem => clear.2 (List.mem_reverse.1 mem)) backwards
  rw [endX, endY, List.reverse_inj.1 same.2]

theorem count_tick_iterate (n : Nat) (x : Text) : (linkText^[n] x).count tick = x.count tick := by
  induction n with
  | zero => rfl
  | succ n ih => rw [Function.iterate_succ_apply', count_tick_linkText, ih]

theorem sublist_iterate (n : Nat) (x : Text) : x.Sublist (linkText^[n] x) := by
  induction n with
  | zero => exact List.Sublist.refl x
  | succ n ih =>
      rw [Function.iterate_succ_apply']
      exact ih.trans (sublist_escapeWhere _ _)

/-- Escaping for links leaves a text as it is exactly if there is no link or no mark. -/
theorem iterate_eq_self_iff (n : Nat) (x : Text) :
    linkText^[n] x = x ↔ n = 0 ∨ ∀ c ∈ x, isLinkMark c = false := by
  rw [← linkText_eq_self_iff]
  constructor
  · intro same
    cases n with
    | zero => exact .inl rfl
    | succ n =>
        rw [Function.iterate_succ_apply] at same
        have shorter : (linkText x).Sublist x := by
          have grown := sublist_iterate n (linkText x)
          rwa [same] at grown
        exact .inr (shorter.antisymm (sublist_escapeWhere _ x))
  · rintro (rfl | fixed)
    · rfl
    · exact Function.iterate_fixed fixed n

theorem mem_codeSpan {code : Text} {c : Char} (h : c ∈ codeSpan code) :
    c = tick ∨ c = ' ' ∨ c ∈ code := by
  have fence : ∀ n, c ∈ ticks n → c = tick := fun _ => List.eq_of_mem_replicate
  simp only [codeSpan] at h
  split at h
  · simp only [List.mem_append, List.mem_cons] at h
    rcases h with (h | rfl | h) | rfl | h
    · exact .inl (fence _ h)
    · exact .inr (.inl rfl)
    · exact .inr (.inr h)
    · exact .inr (.inl rfl)
    · exact .inl (fence _ h)
  · simp only [List.mem_append] at h
    rcases h with (h | h) | h
    · exact .inl (fence _ h)
    · exact .inr (.inr h)
    · exact .inl (fence _ h)

/-- A code span has the marks of its code. -/
theorem codeSpan_isLinkMark_iff (code : Text) :
    (∀ c ∈ codeSpan (Text.collapse code), isLinkMark c = false) ↔
      ∀ c ∈ code, isLinkMark c = false := by
  constructor
  · intro plain c mem
    cases space : isSpace c with
    | true =>
        have notMark : ∀ d : Char, isSpace d = false → c ≠ d := by
          rintro d visible rfl
          rw [space] at visible
          cases visible
        simp [isLinkMark, notMark '\\' (by decide), notMark '[' (by decide),
          notMark ']' (by decide)]
    | false =>
        have kept : c ∈ (Text.collapse code).filter isVisible := by
          rw [Text.filter_collapse inked_isVisible]
          simp [mem, isVisible, space]
        exact plain c ((sublist_codeSpan _).subset (List.mem_filter.1 kept).1)
  · intro plain c mem
    rcases mem_codeSpan mem with rfl | rfl | inCode
    · rfl
    · rfl
    · rcases Text.mem_of_mem_collapseFrom inCode with rfl | inText
      · rfl
      · exact plain c inText

/-- **Code in links, emphasis and elements.**  A paragraph of a nest holds its code span,
escaped once for each link around it.  So the span stands in the paragraph as it is if there is
no link or if the code has none of the marks that a link text escapes; and if no text beside it
and no address has a backtick, only then. -/
theorem render_nest (language : Language) (nest : Nest) {code : Forest}
    (text : Text.isBlank (Forest.textContents code) = false) :
    let span := codeSpan (Text.collapse (Forest.textContents code))
    let paragraph := Markdown.render language [.paragraph (nest.nodes code)]
    (∃ before after, paragraph = before ++ linkText^[nest.links] span ++ after) ∧
      (nest.links = 0 ∨ (∀ c ∈ Forest.textContents code, isLinkMark c = false) →
        span <:+: paragraph) ∧
      ((∀ s ∈ nest.strings, tick ∉ s) → span <:+: paragraph →
        nest.links = 0 ∨ ∀ c ∈ Forest.textContents code, isLinkMark c = false) := by
  intro span paragraph
  have ticked : Ticked span := ticked_codeSpan (Text.newline_notMem_collapse _)
  have held : Holds (∀ s ∈ nest.strings, tick ∉ s) (linkText^[nest.links] span) paragraph := by
    apply Holds.render (runsInline_nodes language code nest) (ticked.iterate _)
    exact holds_nodes text nest id clear_nil
  obtain ⟨before, after, shape, clear, clear'⟩ := held
  have fixed := (iterate_eq_self_iff nest.links span).trans
    (or_congr_right (codeSpan_isLinkMark_iff (Forest.textContents code)))
  refine ⟨⟨before, after, shape⟩, fun plain => ?_, fun bare found => fixed.1 ?_⟩
  · rw [fixed.2 plain] at shape
    exact ⟨before, after, shape.symm⟩
  · rw [shape] at found
    refine (eq_of_isInfix ticked (ticked.iterate _) (count_tick_iterate _ _) ⟨?_, ?_⟩ found).symm
    · exact fun mem => (clear _ mem).2 bare rfl
    · exact fun mem => (clear' _ mem).2 bare rfl

/-- Code with brackets in a bold link, between texts. -/
def linkedCode : Nest :=
  .within ["see "] (.emphasis .bold) (.within [] (.link "u") (.here ["the "] []) []) [" now"]

theorem linkedCode_escaped :
    Text.isBlank (Forest.textContents [.text "a[0]"]) = false ∧
      render .english [.paragraph (linkedCode.nodes [.text "a[0]"])] =
        "see **[the \x60a\\[0\\]\x60](u)** now".toList ∧
      ¬ codeSpan (Text.collapse "a[0]") <:+:
        render .english [.paragraph (linkedCode.nodes [.text "a[0]"])] := by
  have text : Text.isBlank (Forest.textContents [.text "a[0]"]) = false := by decide
  refine ⟨text, by decide, fun found => ?_⟩
  have bare : ∀ s ∈ linkedCode.strings, tick ∉ s := by decide
  rcases (render_nest .english linkedCode text).2.2 bare found with none | plain
  · revert none
    decide
  · exact absurd (plain '[' (by decide)) (by decide)

/-- In a link, the brackets of code are escaped although nothing else stands in the link. -/
theorem code_escaped_in_link :
    ¬ codeSpan (Text.collapse "a[0]") <:+:
      render .english [.paragraph [.link "u" [.codeSpan [.text "a[0]"]]]] := by
  decide

end

end Wikidown.Markdown
