/-
# Wikidown.Proofs.PartedTexts -- neighbouring texts in a box

Where the blocks of a body are opened up, the words at their edges must not run together.
`Parted` says that white space stands between two stretches of a text.  Two neighbouring texts
of a body come out parted exactly if white space stands at the seam already or a mark between
them parts, such as the end of a block that no inline node holds (`neighbours_parted_iff`).  The
beginning of a block parts nothing, so that a list in an item is glued to the text of the item
(`sublist_glued_to_item`).
-/
import Wikidown.Proofs.FlattenedText

namespace Wikidown

set_option autoImplicit false

open Markdown (isVisible isBlank_iff_filter)

/-! ## White space between two stretches of text -/

/-- White space stands in a text behind the visible characters `first` and before the visible
characters `second`. -/
def Parted (t first second : Text) : Prop :=
  ∃ front c back, t = front ++ c :: back ∧ isSpace c = true ∧
    front.filter isVisible = first ∧ back.filter isVisible = second

theorem filter_cons_space {c : Char} (space : isSpace c = true) (t : Text) :
    (c :: t).filter isVisible = t.filter isVisible := by
  simp [isVisible, space]

theorem filter_cons_visible {c : Char} (visible : isSpace c = false) (t : Text) :
    (c :: t).filter isVisible = c :: t.filter isVisible := by
  simp [isVisible, visible]

/-- White space at the end of a text parts nothing. -/
theorem parted_append_blank {t w first second : Text} (blank : w.filter isVisible = [])
    (more : second ≠ []) : Parted (t ++ w) first second ↔ Parted t first second := by
  constructor
  · rintro ⟨front, c, back, whole, space, before, behind⟩
    rcases List.append_eq_append_iff.1 whole with ⟨k, rfl, eq⟩ | ⟨k, rfl, eq⟩
    · -- The white space would stand in `w`, with nothing to part behind it.
      rw [eq, List.filter_append, filter_cons_space space, behind] at blank
      exact absurd (List.append_eq_nil_iff.1 blank).2 more
    · cases k with
      | nil =>
          have none : back.filter isVisible = [] := by
            rw [← filter_cons_space space, eq]
            exact blank
          exact absurd (behind.symm.trans none) more
      | cons d k =>
          obtain ⟨rfl, inside⟩ := List.cons.inj eq
          refine ⟨front, c, k, rfl, space, before, ?_⟩
          rw [← behind, inside]
          simp [blank]
  · rintro ⟨front, c, back, rfl, space, before, behind⟩
    refine ⟨front, c, back ++ w, by simp, space, before, ?_⟩
    rw [List.filter_append, blank, List.append_nil, behind]

/-- A text that ends visibly shows something from any place on. -/
theorem filter_ne_nil_of_getLast? {k : Text} (filled : k ≠ []) (front : Text)
    (last : (front ++ k).getLast?.any isSpace = false) : k.filter isVisible ≠ [] := by
  intro none
  rw [List.getLast?_append, List.getLast?_eq_some_getLast filled, Option.some_or,
    Option.any_some] at last
  have hidden := List.filter_eq_nil_iff.1 none _ (List.getLast_mem filled)
  simp [isVisible, last] at hidden

/-- Two stretches of text are parted by what stands between them or by white space at the
seam. -/
theorem parted_seam_iff {x s y : Text} (blank : s.filter isVisible = []) :
    Parted (x ++ s ++ y) (x.filter isVisible) (y.filter isVisible) ↔
      x.getLast?.any isSpace = true ∨ s ≠ [] ∨ y.head?.any isSpace = true := by
  constructor
  · rintro ⟨front, c, back, whole, space, before, -⟩
    cases last : x.getLast?.any isSpace with
    | true => exact .inl rfl
    | false =>
        refine .inr ?_
        by_cases filled : s = []
        · refine .inr ?_
          subst filled
          rw [List.append_nil] at whole
          rcases List.append_eq_append_iff.1 whole with ⟨k, rfl, eq⟩ | ⟨k, rfl, eq⟩
          · cases k with
            | nil => simp [show y = c :: back from eq, space]
            | cons d k =>
                -- What is read of `y` before the white space is not visible.
                rw [List.filter_append, List.append_right_eq_self] at before
                cases first : isSpace d with
                | true => simp [eq, first]
                | false => simp [filter_cons_visible first] at before
          · cases k with
            | nil => simp [show y = c :: back from eq.symm, space]
            | cons d k =>
                rw [List.filter_append, List.self_eq_append_right] at before
                exact absurd before (filter_ne_nil_of_getLast? (List.cons_ne_nil d k) front last)
        · exact .inl filled
  · rintro (last | filled | head)
    · obtain ⟨c, ends, space⟩ := (Option.any_eq_true _ _).1 last
      obtain ⟨front, rfl⟩ := List.getLast?_eq_some_iff.1 ends
      refine ⟨front, c, s ++ y, by simp, space, ?_, ?_⟩
      · simp [isVisible, space]
      · rw [List.filter_append, blank, List.nil_append]
    · cases s with
      | nil => exact absurd rfl filled
      | cons c s =>
          have space : isSpace c = true := by
            simpa [isVisible] using List.filter_eq_nil_iff.1 blank c
          rw [filter_cons_space space] at blank
          refine ⟨x, c, s ++ y, by simp, space, rfl, ?_⟩
          rw [List.filter_append, blank, List.nil_append]
    · obtain ⟨c, starts, space⟩ := (Option.any_eq_true _ _).1 head
      obtain ⟨back, rfl⟩ := List.head?_eq_some_iff.1 starts
      refine ⟨x ++ s, c, back, by simp, space, ?_, (filter_cons_space space back).symm⟩
      rw [List.filter_append, blank, List.append_nil]

namespace Document

/-! ## Marks that part -/

/-- Whether two texts come out apart if the mark stands between them. -/
def Mark.parts (m : Mark) : Bool := m.isSeam || !m.content.isEmpty

/-- Whether a block has begun before a place and not ended: it contains what stands there. -/
def Block.Contains (block : Block) (before : List Mark) : Prop :=
  .opens block ∈ before ∧ .closes block ∉ before

instance (block : Block) (before : List Mark) : Decidable (block.Contains before) :=
  inferInstanceAs (Decidable (_ ∧ _))

/-- Marks that part nothing add nothing. -/
theorem Written.eq_nil {t u : Text} {ms : List Mark} (h : Written t ms u)
    (quiet : ∀ m ∈ ms, m.parts = false) : u = [] := by
  induction h with
  | none => rfl
  | @next t added more m ms here later ih =>
      have first := quiet m List.mem_cons_self
      simp only [Mark.parts, Bool.or_eq_false_iff, Bool.not_eq_false', List.isEmpty_iff] at first
      have nothing : added = [] := by simpa [Mark.Adds, first.1, first.2] using here
      rw [nothing, ih fun m mem => quiet m (List.mem_cons_of_mem _ mem), List.append_nil]

/-- A mark that parts adds something to a text, unless white space stands there already. -/
theorem Written.ne_nil {t u : Text} {ms : List Mark} (h : Written t ms u) (behind : t ≠ [])
    {m : Mark} (mem : m ∈ ms) (parts : m.parts = true) :
    t.getLast?.any isSpace = true ∨ u ≠ [] := by
  induction h with
  | none => cases mem
  | @next t added more first ms here later ih =>
      by_cases some : added = []
      · subst some
        simp only [List.append_nil, List.nil_append] at ih ⊢
        rcases List.mem_cons.1 mem with rfl | mem
        · unfold Mark.Adds at here
          split at here
          · obtain ⟨-, spaced⟩ := here.resolve_left (by simp)
            have ends := List.getLast?_eq_some_getLast behind
            exact .inl (by rw [ends, Option.any_some, spaced _ ends])
          · next plain => simp_all [Mark.parts]
        · exact ih behind mem
      · exact .inr (List.append_ne_nil_of_left_ne_nil some more)

/-! ## Neighbours -/

section

variable {body : Forest} {before between behind : List Mark} {a b : Text}

theorem parted_flatten_iff
    (read : Forest.trace [] 0 false body = before ++ .text a :: (between ++ .text b :: behind))
    (first : Text.isBlank a = false) (second : Text.isBlank b = false)
    (next : Text.isBlank (traceText between) = true) :
    Parted (Forest.textContents body.flatten)
        ((traceText (before ++ [.text a])).filter isVisible)
        ((traceText (.text b :: behind)).filter isVisible) ↔
      a.getLast?.any isSpace = true ∨ b.head?.any isSpace = true ∨
        ∃ m ∈ between, m.parts = true := by
  obtain ⟨whole, blank, written, text, none⟩ := exists_written_flatten body
  -- What was written, cut where the two texts are.
  rw [read] at written
  obtain ⟨front, rest, rfl, frontWritten, fromFirst⟩ := written.exists_append
  obtain ⟨rest, rfl, fromGap⟩ := fromFirst.exists_text
  obtain ⟨gap, rest, rfl, gapWritten, fromSecond⟩ := fromGap.exists_append
  obtain ⟨back, rfl, backWritten⟩ := fromSecond.exists_text
  have last : ∀ t : Text, (t ++ a).getLast? = a.getLast? := by
    intro t
    cases a with
    | nil => cases first
    | cons c a => simp [List.getLast?_append, List.getLast?_cons]
  have head : (b ++ back).head? = b.head? := by
    cases b with
    | nil => cases second
    | cons c b => rfl
  have read :
      (traceText (before ++ [.text a])).filter isVisible = (front ++ a).filter isVisible := by
    simp [frontWritten.filter, Mark.content]
  have unread :
      (traceText (.text b :: behind)).filter isVisible = (b ++ back).filter isVisible := by
    simp [backWritten.filter, Mark.content]
  have some : (b ++ back).filter isVisible ≠ [] := by
    intro none
    rw [List.filter_append] at none
    have := (isBlank_iff_filter b).2 (List.append_eq_nil_iff.1 none).1
    rw [second] at this
    cases this
  have blankGap : gap.filter isVisible = [] := by
    rw [gapWritten.filter, (isBlank_iff_filter _).1 next]
  rw [read, unread, ← parted_append_blank none some, ← text]
  have seam := parted_seam_iff (x := front ++ a) (y := b ++ back) blankGap
  rw [last, head] at seam
  simp only [List.append_assoc] at seam ⊢
  rw [seam]
  constructor
  · rintro (ends | filled | starts)
    · exact .inl ends
    · refine .inr (.inr ?_)
      by_cases parted : ∃ m ∈ between, m.parts = true
      · exact parted
      · refine absurd (gapWritten.eq_nil fun m mem => ?_) filled
        exact Bool.eq_false_iff.2 fun parts => parted ⟨m, mem, parts⟩
    · exact .inr (.inl starts)
  · rintro (ends | starts | ⟨m, mem, parts⟩)
    · exact .inl ends
    · exact .inr (.inr starts)
    · have behind : [] ++ front ++ a ≠ [] := by
        rintro none
        rw [(List.append_eq_nil_iff.1 none).2] at first
        cases first
      rcases gapWritten.ne_nil behind mem parts with ends | filled
      · rw [last] at ends
        exact .inl ends
      · exact .inr (.inl filled)

end

/-- **When neighbouring texts of a box come out apart.**  Let two texts that are not blank
follow each other in the body of a box, with only blank ones in between.  In the box, white
space parts the visible characters up to the end of the first from those from the start of the
second exactly if the first ends or the second starts with white space, or a mark between them
parts: a line break, a text that is not empty, or the end of a block or a rule outside inline
nodes.  So a block outside inline nodes that contains the first but not the second parts
them. -/
theorem neighbours_parted_iff {attributes : Dictionary}
    (boxed : macroName attributes ∈ ["info".toList, "warning".toList]) {cs : Forest}
    {before between behind : List Mark} {a b : Text}
    (read : Forest.trace [] 0 false cs.resolvedBody =
      before ++ .text a :: (between ++ .text b :: behind))
    (first : Text.isBlank a = false) (second : Text.isBlank b = false)
    (next : Text.isBlank (traceText between) = true) :
    ∃ box, (Node.element "ac:structured-macro" attributes cs).resolve? = some box ∧
      box.bare = .directive (.admonition (boxKind attributes)) (Forest.parameters cs) [] ∧
      (Parted box.textContent ((traceText (before ++ [.text a])).filter isVisible)
          ((traceText (.text b :: behind)).filter isVisible) ↔
        a.getLast?.any isSpace = true ∨ b.head?.any isSpace = true ∨
          ∃ m ∈ between, m.parts = true) ∧
      ∀ block : Block, block.isSealed = false → block.Contains before →
        ¬ block.Contains (before ++ .text a :: between) →
          Parted box.textContent ((traceText (before ++ [.text a])).filter isVisible)
            ((traceText (.text b :: behind)).filter isVisible) := by
  have parted := parted_flatten_iff read first second next
  refine ⟨_, resolve?_box boxed cs, rfl, parted, ?_⟩
  rintro block bare ⟨opened, unclosed⟩ outside
  -- The block has ended between the two texts.
  have closed : .closes block ∈ between := Decidable.byContradiction fun unended =>
    outside ⟨List.mem_append_left _ opened, by simp [unclosed, unended]⟩
  exact parted.2 (.inr (.inr ⟨_, closed, by simp [Mark.parts, Mark.isSeam, bare]⟩))

/-- What a reader of the remark meets before its list, and in the list. -/
def remarkTrace : List Mark :=
  [.opens ⟨[0], false⟩, .text "Read ", .text "this", .closes ⟨[0], false⟩, .divides false,
    .opens ⟨[2], false⟩, .opens ⟨[0, 2], false⟩, .text "one",
    .opens ⟨[1, 0, 2], false⟩, .opens ⟨[0, 1, 0, 2], false⟩, .text "two",
    .closes ⟨[0, 1, 0, 2], false⟩, .closes ⟨[1, 0, 2], false⟩, .closes ⟨[0, 2], false⟩,
    .closes ⟨[2], false⟩, .text " "]

theorem trace_listedRemark : Forest.trace [] 0 false listedRemark.resolvedBody = remarkTrace := by
  decide

/-- The end of the paragraph and the table part the list from the bold text. -/
theorem list_parted_from_paragraph :
    Forest.trace [] 0 false listedRemark.resolvedBody =
        remarkTrace.take 2 ++ .text "this" ::
          ((remarkTrace.drop 3).take 4 ++ .text "one" :: remarkTrace.drop 8) ∧
      ∃ box, (Node.element "ac:structured-macro" infoAttributes listedRemark).resolve? = some box ∧
        Parted box.textContent "Readthis".toList "onetwo".toList := by
  have read : Forest.trace [] 0 false listedRemark.resolvedBody =
      remarkTrace.take 2 ++ .text "this" ::
        ((remarkTrace.drop 3).take 4 ++ .text "one" :: remarkTrace.drop 8) := trace_listedRemark
  have boxed : macroName infoAttributes ∈ ["info".toList, "warning".toList] := by decide
  obtain ⟨box, becomes, -, -, parts⟩ :=
    neighbours_parted_iff boxed read (by decide) (by decide) (by decide)
  exact ⟨read, box, becomes, parts ⟨[0], false⟩ rfl (by decide) (by decide)⟩

/-- The list in the item contains the second of two texts and not the first, and the box has
them glued together. -/
theorem sublist_glued_to_item :
    ∃ box, (Node.element "ac:structured-macro" infoAttributes listedRemark).resolve? = some box ∧
      Forest.trace [] 0 false listedRemark.resolvedBody =
        remarkTrace.take 7 ++ .text "one" ::
          ((remarkTrace.drop 8).take 2 ++ .text "two" :: remarkTrace.drop 11) ∧
      ¬ Block.Contains ⟨[1, 0, 2], false⟩ (remarkTrace.take 7) ∧
      Block.Contains ⟨[1, 0, 2], false⟩ (remarkTrace.take 10) ∧
      ¬ Parted box.textContent "Readthisone".toList "two".toList := by
  have read : Forest.trace [] 0 false listedRemark.resolvedBody =
      remarkTrace.take 7 ++ .text "one" ::
        ((remarkTrace.drop 8).take 2 ++ .text "two" :: remarkTrace.drop 11) := trace_listedRemark
  refine ⟨_, resolve?_box (by decide) _, read, by decide, by decide, fun parted => ?_⟩
  have seam := (parted_flatten_iff read (by decide) (by decide) (by decide)).1 parted
  exact absurd seam (by decide)

end Document

end Wikidown
