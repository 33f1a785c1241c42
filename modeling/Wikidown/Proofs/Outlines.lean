/-
# Wikidown.Proofs.Outlines -- the outline of a list stands in its indentation

An `Outline` is a list of words, each with at most one list under it, and with white space
anywhere between the items.  Its lines are one for each item in document order: the `Row` of
an item is its marker and its word behind spaces, as many as the markers of the items around
it have characters (`render_outline`).  The rows of each list stand together, and its own items
are numbered from one on, whatever is nested in between (`isInfix_rows`, `bullets_rows`).

A nested list is written as a text, cut into lines again and put under the marker of its item.
Its rows are as wide as before and stand behind that marker, so the step from a list to the
item around it is one more marker in front of each row (`Row.line_below`).
-/
import Wikidown.Proofs.KeptText
import Wikidown.Proofs.Visible
import Wikidown.Proofs.WrappedCode

namespace Wikidown.Markdown

set_option autoImplicit false

open Document (Node Forest)

/-! ## Words -/

/-- A text of ASCII letters, at least one. -/
structure Word where
  text : Text
  filled : text ≠ []
  letters : ∀ c ∈ text, c.isAlpha = true

namespace Word

theorem code_of_isAlpha {c : Char} (h : c.isAlpha = true) :
    65 ≤ c.toNat ∧ c.toNat ≤ 90 ∨ 97 ≤ c.toNat ∧ c.toNat ≤ 122 := by
  have upper : c.isUpper = decide (c.val ≥ 'A'.val ∧ c.val ≤ 'Z'.val) := rfl
  have lower : c.isLower = (decide (c.val ≥ 'a'.val) && decide (c.val ≤ 'z'.val)) := rfl
  have either : (c.isUpper || c.isLower) = true := h
  simp only [upper, lower, Bool.or_eq_true, Bool.and_eq_true, decide_eq_true_eq, ge_iff_le,
    UInt32.le_iff_toNat_le] at either
  exact either

variable (w : Word)

theorem visible : ∀ c ∈ w.text, isSpace c = false := by
  intro c mem
  have code := code_of_isAlpha (w.letters c mem)
  simp only [isSpace, Bool.or_eq_false_iff, Bool.and_eq_false_iff, decide_eq_false_iff_not,
    beq_eq_false_iff_ne]
  omega

theorem notMem {c : Char} (h : c.isAlpha = false) : c ∉ w.text := by
  intro mem
  rw [w.letters c mem] at h
  cases h

theorem isBlank_text : Text.isBlank w.text = false := by
  rw [← Text.isEmpty_trim, Text.trim_of_visible w.visible, List.isEmpty_eq_false_iff]
  exact w.filled

theorem oneLine : OneLine w.text :=
  ⟨w.notMem (by decide), fun last => w.notMem (by decide) (List.mem_of_getLast? last)⟩

/-- No fence is opened by letters. -/
theorem escapeFenceOpeners_text : escapeFenceOpeners w.text = w.text := by
  have none : ∀ c, c.isAlpha = false → w.text.takeWhile (· == c) = [] := by
    intro c other
    cases eq : w.text with
    | nil => rfl
    | cons d rest =>
        have ne : d ≠ c := by
          rintro rfl
          exact w.notMem other (eq ▸ List.mem_cons_self)
        simp [ne]
  have flows : opensFence w.text = false := by
    simp [opensFence, none '~' (by decide), none tick (by decide)]
  have start : Text.trimStart w.text = w.text := by
    rw [← Text.trim_of_visible w.visible, Text.trimStart_trim]
  rw [escapeFenceOpeners_of_notMem w.oneLine.noBreak, escapeFenceOpener, start, flows]
  rfl

/-- A word is the part that is made of it. -/
theorem close_word : Flow.close ⟨[], w.text.reverse⟩ = ⟨[w.text], []⟩ := by
  have text : Draft.text w.text.reverse = w.text := List.reverse_reverse _
  have filled : w.text.isEmpty = false := List.isEmpty_eq_false_iff.2 w.filled
  simp only [Flow.close, text, Text.trim_of_visible w.visible, filled, w.escapeFenceOpeners_text]
  rfl

theorem layNode_word (language : Language) :
    layNode language (.text w.text) .start = ⟨[], w.text.reverse⟩ := by
  show (⟨[], Draft.join [] (Text.collapse w.text)⟩ : Flow) = _
  rw [Text.collapse_of_visible w.visible, Draft.join_eq]
  exact congrArg (Flow.mk []) (List.append_nil _)

end Word

/-! ## Outlines -/

/-- The items of a list and the white space between them. -/
inductive Outline where
  | done
  /-- White space. -/
  | space (gap : { t : Text // Text.isBlank t = true }) (others : Outline)
  /-- An item without a list under it. -/
  | item (word : Word) (others : Outline)
  /-- An item with a list under it. -/
  | branch (word : Word) (ordered : Bool) (inner others : Outline)

/-- What stands in front of an item. -/
inductive Bullet where
  | hyphen
  | number (n : Nat)

namespace Bullet

/-- The bullet of the item at a position, the first being 1. -/
def ofPosition (ordered : Bool) (n : Nat) : Bullet := if ordered then number n else hyphen

def text : Bullet → Text
  | hyphen => "- "
  | number n => Nat.toDigits 10 n ++ ". "

theorem itemMarker_eq (ordered : Bool) (n : Nat) :
    itemMarker ordered n = (ofPosition ordered n).text := by
  cases ordered <;> rfl

theorem oneLine (b : Bullet) : OneLine b.text := by
  cases b with
  | hyphen => exact oneLine_itemMarker false 1
  | number n => exact oneLine_itemMarker true n

end Bullet

/-- An item in the lines of a list. -/
structure Row where
  /-- The bullets of the items around it, the outermost first. -/
  above : List Bullet
  bullet : Bullet
  word : Word

namespace Row

/-- The number of spaces in front of the item: the lengths of the bullets, summed up. -/
def indent (r : Row) : Nat := r.above.foldr (fun b width => b.text.length + width) 0

def line (r : Row) : Text := List.replicate r.indent ' ' ++ r.bullet.text ++ r.word.text

/-- The row of an item in a list that stands under further bullets. -/
def below (outer : List Bullet) (r : Row) : Row := { r with above := outer ++ r.above }

theorem line_below (b : Bullet) (r : Row) :
    (r.below [b]).line = indentLine b.text.length r.line := by
  have filled : r.line.isEmpty = false := by
    rw [List.isEmpty_eq_false_iff]
    exact List.append_ne_nil_of_right_ne_nil _ r.word.filled
  have spaces : List.replicate (b.text.length + r.indent) ' ' =
      List.replicate b.text.length ' ' ++ List.replicate r.indent ' ' :=
    List.replicate_append_replicate.symm
  rw [indentLine, filled]
  show List.replicate (b.text.length + r.indent) ' ' ++ r.bullet.text ++ r.word.text =
    List.replicate b.text.length ' ' ++ r.line
  simp only [spaces, line, List.append_assoc]

theorem oneLine (r : Row) : OneLine r.line :=
  ((oneLine_spaces r.indent).append r.bullet.oneLine).append r.word.oneLine

theorem isBlank_line (r : Row) : Text.isBlank r.line = false := by
  rw [line, isBlank_append, r.word.isBlank_text, Bool.and_false]

end Row

/-- Rows are lines of the text that they join to. -/
theorem lined_rows {rows : List Row} (filled : rows ≠ []) : Lined (rows.map Row.line) where
  filled := by simpa using filled
  each := by
    intro l mem
    obtain ⟨r, -, rfl⟩ := List.mem_map.1 mem
    exact r.oneLine
  ends := by
    intro last
    obtain ⟨r, -, empty⟩ := List.mem_map.1 (List.mem_of_getLast? last)
    have text := r.isBlank_line
    rw [empty] at text
    cases text

theorem steady_rows (rows : List Row) : Steady (rows.map Row.line) := by
  apply Steady.text
  intro l mem
  obtain ⟨r, -, rfl⟩ := List.mem_map.1 mem
  exact r.isBlank_line

/-- A list in an outline. -/
structure Nesting where
  /-- The bullets of the items around it, the outermost first. -/
  above : List Bullet
  ordered : Bool
  items : Outline

namespace Outline

/-- The nodes of the list. -/
def nodes : Outline → Forest
  | done => []
  | space gap others => .text gap.val :: others.nodes
  | item word others => .item [.text word.text] :: others.nodes
  | branch word ordered inner others =>
      .item [.text word.text, .list ordered inner.nodes] :: others.nodes

/-- The rows of the items in document order, the first item of the list being at position
`n`. -/
def rows (ordered : Bool) (n : Nat) : Outline → List Row
  | done => []
  | space _ others => others.rows ordered n
  | item word others =>
      ⟨[], .ofPosition ordered n, word⟩ :: others.rows ordered (n + 1)
  | branch word nested inner others =>
      ⟨[], .ofPosition ordered n, word⟩
        :: ((inner.rows nested 1).map (Row.below [.ofPosition ordered n])
          ++ others.rows ordered (n + 1))

/-- The number of items of the list itself. -/
def count : Outline → Nat
  | done => 0
  | space _ others => others.count
  | item _ others | branch _ _ _ others => others.count + 1

/-- The items of a list itself are at the positions from `n` on, none left out. -/
theorem bullets_rows (ordered : Bool) (n : Nat) (o : Outline) :
    ((o.rows ordered n).filter (·.above.isEmpty)).map Row.bullet =
      (List.range' n o.count).map (.ofPosition ordered) := by
  induction o generalizing n with
  | done => rfl
  | space gap others ih => exact ih n
  | item word others ih =>
      rw [count, List.range'_succ, List.map_cons, ← ih (n + 1)]
      rfl
  | branch word nested inner others _ ih =>
      -- what is nested has a bullet above it
      have none : ((inner.rows nested 1).map (Row.below [.ofPosition ordered n])).filter
          (·.above.isEmpty) = [] := by
        rw [List.filter_eq_nil_iff]
        intro r mem
        obtain ⟨s, -, rfl⟩ := List.mem_map.1 mem
        simp [Row.below]
      rw [count, List.range'_succ, List.map_cons, ← ih (n + 1), rows, List.filter_cons,
        List.filter_append, none]
      rfl

/-- The lists under the items of a list, at any depth. -/
def nestings (ordered : Bool) (n : Nat) : Outline → List Nesting
  | done => []
  | space _ others => others.nestings ordered n
  | item _ others => others.nestings ordered (n + 1)
  | branch _ nested inner others =>
      let bullet := Bullet.ofPosition ordered n
      ⟨[bullet], nested, inner⟩
        :: ((inner.nestings nested 1).map (fun l => { l with above := bullet :: l.above })
          ++ others.nestings ordered (n + 1))

/-- The list and all lists under its items. -/
def lists (ordered : Bool) (o : Outline) : List Nesting :=
  ⟨[], ordered, o⟩ :: o.nestings ordered 1

theorem isInfix_nesting {ordered : Bool} {n : Nat} {o : Outline} {l : Nesting}
    (h : l ∈ o.nestings ordered n) :
    (l.items.rows l.ordered 1).map (Row.below l.above) <:+: o.rows ordered n := by
  induction o generalizing ordered n l with
  | done => cases h
  | space gap others ih => exact ih h
  | item word others ih => exact (ih h).trans (List.suffix_cons _ _).isInfix
  | branch word nested inner others innerIh ih =>
      have under : (inner.rows nested 1).map (Row.below [.ofPosition ordered n]) <:+:
          (branch word nested inner others).rows ordered n := ⟨[_], _, rfl⟩
      have behind : others.rows ordered (n + 1) <:+:
          (branch word nested inner others).rows ordered n :=
        ((List.suffix_append _ _).trans (List.suffix_cons _ _)).isInfix
      simp only [nestings, List.mem_cons, List.mem_append, List.mem_map] at h
      rcases h with rfl | ⟨deeper, mem, rfl⟩ | mem
      · exact under
      · have inside := (innerIh mem).map (Row.below [.ofPosition ordered n])
        rw [List.map_map] at inside
        exact inside.trans under
      · exact (ih mem).trans behind

/-- The rows of a list stand together, behind the bullets of the items around it. -/
theorem isInfix_rows {ordered : Bool} {o : Outline} {l : Nesting} (h : l ∈ o.lists ordered) :
    (l.items.rows l.ordered 1).map (Row.below l.above) <:+: o.rows ordered 1 := by
  rcases List.mem_cons.1 h with rfl | nested
  · have same : (o.rows ordered 1).map (Row.below []) = o.rows ordered 1 := List.map_id _
    exact ⟨[], [], by rw [List.nil_append, List.append_nil, same]⟩
  · exact isInfix_nesting nested

end Outline

/-! ## Lines -/

/-- A word with rows under it is laid out line by line. -/
theorem itemText_branch (language : Language) (w : Word) {ordered : Bool} {cs : Forest}
    {rows : List Row} (inner : listLines language ordered 1 2 cs = rows.map Row.line) :
    (layForest language [.text w.text, .list ordered cs] .start).itemText =
      Text.joinLines (w.text :: rows.map Row.line) := by
  have lay : layForest language [.text w.text, .list ordered cs] .start =
      Flow.add ⟨[], w.text.reverse⟩ (Text.joinLines (rows.map Row.line)) := by
    show (layNode language (.text w.text) .start).add (Text.joinLines _) = _
    rw [w.layNode_word, inner]
  rw [lay, Flow.add, w.close_word]
  by_cases filled : rows = []
  · -- a list without items adds no part
    rw [filled]
    rfl
  · have below : Lined (rows.map Row.line) := lined_rows filled
    have seam : Text.joinLines (w.text :: rows.map Row.line) =
        Text.joinLines [w.text] ++ '\n' :: Text.joinLines (rows.map Row.line) :=
      Text.joinLines_append (List.cons_ne_nil w.text []) below.filled
    rw [below.isEmpty_joinLines, seam]
    simp [Flow.itemText, Flow.texts, Flow.close_nil, Text.joinLines]

theorem itemText_word (language : Language) (w : Word) :
    (layForest language [.text w.text] .start).itemText = Text.joinLines [w.text] := by
  have lay : layForest language [.text w.text] .start = ⟨[], w.text.reverse⟩ :=
    w.layNode_word language
  rw [lay, Flow.itemText, Flow.texts, w.close_word]
  rfl

/-- The lines of an item that is a word with rows under it: the rows stand behind the marker
of the item. -/
theorem itemLines_rows {ordered : Bool} {n : Nat} {w : Word} {rows : List Row} {f : Flow}
    (item : f.itemText = Text.joinLines (w.text :: rows.map Row.line)) :
    itemLines (itemMarker ordered n) f =
      ((⟨[], .ofPosition ordered n, w⟩ : Row) :: rows.map (Row.below [.ofPosition ordered n])).map
        Row.line := by
  have lined : Lined (w.text :: rows.map Row.line) := by
    by_cases filled : rows = []
    · rw [filled]
      exact ⟨by simp, by simp [w.oneLine], by simpa using w.filled⟩
    · have below : Lined (rows.map Row.line) := lined_rows filled
      refine ⟨by simp, List.forall_mem_cons.2 ⟨w.oneLine, below.each⟩, ?_⟩
      rw [List.getLast?_cons_of_ne_nil below.filled]
      exact below.ends
  have under : (rows.map Row.line).map (indentLine (Bullet.ofPosition ordered n).text.length) =
      (rows.map (Row.below [.ofPosition ordered n])).map Row.line := by
    rw [List.map_map, List.map_map]
    apply List.map_congr_left
    intro r _
    exact (r.line_below _).symm
  rw [itemLines, item, lined.lines_joinLines, markLines, Bullet.itemMarker_eq, under]
  rfl

/-- The step and the run: each item has its own row, and the rows under it stand behind its
marker. -/
theorem listLines_nodes (language : Language) (ordered : Bool) (n width : Nat) (o : Outline) :
    listLines language ordered n width o.nodes = (o.rows ordered n).map Row.line := by
  induction o generalizing ordered n width with
  | done => rfl
  | space gap others ih =>
      rw [Outline.nodes, listLines_other _ (by simp) (by simp)]
      have blank : (Node.text gap.val).isBlankText = true := gap.property
      rw [blank]
      exact ih ordered n width
  | item w others ih =>
      have alone : (layForest language [.text w.text] .start).itemText =
          Text.joinLines (w.text :: ([] : List Row).map Row.line) := itemText_word language w
      rw [Outline.nodes, listLines, itemLines_rows alone, ih]
      rfl
  | branch w nested inner others innerIh ih =>
      have below := itemText_branch language w (innerIh nested 1 2)
      rw [Outline.nodes, listLines, itemLines_rows below, ih, ← List.map_append]
      rfl

theorem render_list (language : Language) (ordered : Bool) (o : Outline) :
    render language [.list ordered o.nodes] = Text.joinLines ((o.rows ordered 1).map Row.line) ∧
      Text.lines (render language [.list ordered o.nodes]) = (o.rows ordered 1).map Row.line := by
  have inner := listLines_nodes language ordered 1 2 o
  by_cases filled : o.rows ordered 1 = []
  · have nothing : layForest language [.list ordered o.nodes] .start = .start := by
      show Flow.start.add (Text.joinLines _) = .start
      rw [inner, filled]
      rfl
    rw [render, nothing, filled]
    exact ⟨rfl, rfl⟩
  · have lined := lined_rows filled
    have laid : Page.Laid language (.list ordered o.nodes) ((o.rows ordered 1).map Row.line) := by
      refine ⟨?_, lined, steady_rows _⟩
      show Flow.start.add (Text.joinLines _) = _
      rw [inner, Page.add_joinLines lined]
    rw [laid.render_eq, lined.lines_joinLines]
    exact ⟨rfl, rfl⟩

/-- **A list's outline stands in its indentation.**  The lines of a list are the rows of its
items in document order.  In them the rows of each list stand together, behind the bullets of
the items around it, and its own items are at the positions 1, 2, and so on. -/
theorem render_outline (language : Language) (ordered : Bool) (o : Outline) :
    render language [.list ordered o.nodes] = Text.joinLines ((o.rows ordered 1).map Row.line) ∧
      Text.lines (render language [.list ordered o.nodes]) = (o.rows ordered 1).map Row.line ∧
      ∀ l ∈ o.lists ordered,
        (l.items.rows l.ordered 1).map (Row.below l.above) <:+: o.rows ordered 1 ∧
          ((l.items.rows l.ordered 1).filter (·.above.isEmpty)).map Row.bullet =
            (List.range' 1 l.items.count).map (.ofPosition l.ordered) := by
  obtain ⟨text, lines⟩ := render_list language ordered o
  refine ⟨text, lines, fun l mem => ⟨Outline.isInfix_rows mem, ?_⟩⟩
  exact Outline.bullets_rows l.ordered 1 l.items

/-- The numbers of a nested list and those around it are independent. -/
example :
    let word (t : Text) (h : t ≠ [] ∧ t.all Char.isAlpha = true) : Word :=
      ⟨t, h.1, List.all_eq_true.1 h.2⟩
    let inner := Outline.item (word "x" (by decide)) (.item (word "y" (by decide)) .done)
    let outer := Outline.branch (word "a" (by decide)) true inner
      (.space ⟨"\n", by decide⟩ (.item (word "b" (by decide)) .done))
    render .english [.list true outer.nodes] = "1. a\n   1. x\n   2. y\n2. b".toList := by
  decide

end Wikidown.Markdown
