/-
# Wikidown.Proofs.FlattenedText -- the text of a flattened body

A box shows the body of its macro in one line: `Forest.flatten` opens up the blocks in it and
puts a space where a block ends.  What a reader meets on the way through the body is its
`trace`: texts, line breaks, and where blocks begin and end.  Flattening writes the texts of the
trace one after the other, and spaces at the ends of blocks outside inline nodes (`Written`,
`written_flattenOnto`).  So it keeps the visible characters of the body in order
(`box_keeps_text`).
-/
import Wikidown.Proofs.Ink
import Wikidown.Proofs.Places

namespace Wikidown

set_option autoImplicit false

namespace Document

open Markdown (isVisible isBlank_iff_filter)

/-! ## What a reader meets -/

/-- A block, named by its place: its position among the nodes beside it and those of the
nodes around it, innermost first.  A block that an inline node holds is sealed, for the inline
node is kept as it is. -/
structure Block where
  path : List Nat
  isSealed : Bool
  deriving DecidableEq

/-- What a reader of a forest meets on the way. -/
inductive Mark where
  | text (content : Text)
  | lineBreak
  /-- The block begins. -/
  | opens (block : Block)
  /-- The block ends. -/
  | closes (block : Block)
  /-- A rule or a table. -/
  | divides (isSealed : Bool)
  deriving DecidableEq

mutual

/-- What a reader of a node meets; the node stands at a place, and maybe in an inline node. -/
def Node.trace (path : List Nat) (isSealed : Bool) : Node → List Mark
  | .heading _ cs | .paragraph cs | .list _ cs | .item cs | .quote cs | .directive _ _ cs =>
      .opens ⟨path, isSealed⟩ :: Forest.trace path 0 isSealed cs ++ [.closes ⟨path, isSealed⟩]
  | .element _ _ cs => Forest.trace path 0 isSealed cs
  | .emphasis _ cs | .codeSpan cs | .link _ cs => Forest.trace path 0 true cs
  | .rule | .table _ => [.divides isSealed]
  | .lineBreak => [.lineBreak]
  | .text content => [.text content]
  | .malformed _ => []

/-- What a reader of a forest meets; its first node is the one of the given position below
the path. -/
def Forest.trace (path : List Nat) (position : Nat) (isSealed : Bool) : List Node → List Mark
  | [] => []
  | n :: ns =>
      n.trace (position :: path) isSealed ++ Forest.trace path (position + 1) isSealed ns

end

namespace Mark

/-- The characters that a mark stands for. -/
def content : Mark → Text
  | text content => content
  | lineBreak => ['\n']
  | opens _ | closes _ | divides _ => []

/-- Whether flattening sets a space at a mark. -/
def isSeam : Mark → Bool
  | closes block => !block.isSealed
  | divides isSealed => !isSealed
  | text _ | lineBreak | opens _ => false

/-- What a mark may add to the text `t` that is written before it: its characters, and at a
seam a space, unless there is white space already or nothing to part. -/
def Adds (t : Text) (m : Mark) (added : Text) : Prop :=
  if m.isSeam then added = [' '] ∨ added = [] ∧ ∀ c ∈ t.getLast?, isSpace c = true
  else added = m.content

end Mark

/-- The characters of the texts and line breaks among some marks. -/
def traceText (ms : List Mark) : Text := ms.flatMap Mark.content

@[simp] theorem traceText_nil : traceText [] = [] := rfl

@[simp] theorem traceText_cons (m : Mark) (ms : List Mark) :
    traceText (m :: ms) = m.content ++ traceText ms := rfl

@[simp] theorem traceText_append (ms ns : List Mark) :
    traceText (ms ++ ns) = traceText ms ++ traceText ns := List.flatMap_append

mutual

theorem traceText_trace_node : (n : Node) → (path : List Nat) → (isSealed : Bool) →
    traceText (n.trace path isSealed) = n.textContent
  | .heading _ cs, path, isSealed | .paragraph cs, path, isSealed | .list _ cs, path, isSealed
  | .item cs, path, isSealed | .quote cs, path, isSealed | .directive _ _ cs, path, isSealed => by
      simp [Node.trace, Node.textContent, Mark.content, traceText_trace cs]
  | .element _ _ cs, path, isSealed => by
      simp only [Node.trace, Node.textContent]
      exact traceText_trace cs path 0 isSealed
  | .emphasis _ cs, path, isSealed | .codeSpan cs, path, isSealed | .link _ cs, path, isSealed => by
      simp only [Node.trace, Node.textContent]
      exact traceText_trace cs path 0 true
  | .rule, _, _ | .table _, _, _ | .lineBreak, _, _ | .malformed _, _, _ => rfl
  | .text content, _, _ => by simp [Node.trace, Node.textContent, Mark.content]

/-- A reader meets the whole text of a forest, in order. -/
theorem traceText_trace : (ns : Forest) → (path : List Nat) → (position : Nat) →
    (isSealed : Bool) → traceText (Forest.trace path position isSealed ns) = Forest.textContents ns
  | [], _, _, _ => rfl
  | n :: ns, path, position, isSealed => by
      simp [Forest.trace, Forest.textContents, traceText_trace_node n, traceText_trace ns]

end

/-! ## What flattening writes -/

/-- Marks, read behind the text `t`, may add a text to it. -/
inductive Written : Text → List Mark → Text → Prop
  | none {t : Text} : Written t [] []
  | next {t added more : Text} {m : Mark} {ms : List Mark} (here : m.Adds t added)
      (later : Written (t ++ added) ms more) : Written t (m :: ms) (added ++ more)

theorem Written.one {t added : Text} {m : Mark} (h : m.Adds t added) : Written t [m] added := by
  simpa using Written.next h .none

theorem Written.append {t u v : Text} {ms ns : List Mark} (first : Written t ms u)
    (second : Written (t ++ u) ns v) : Written t (ms ++ ns) (u ++ v) := by
  induction first with
  | none => simpa using second
  | next here _ ih =>
      rw [List.append_assoc]
      refine .next here (ih ?_)
      simpa using second

theorem Written.exists_append {ms ns : List Mark} {t w : Text} (h : Written t (ms ++ ns) w) :
    ∃ u v, w = u ++ v ∧ Written t ms u ∧ Written (t ++ u) ns v := by
  induction ms generalizing t w with
  | nil => exact ⟨[], w, rfl, .none, by simpa using h⟩
  | cons m ms ih =>
      cases h with
      | next here later =>
          obtain ⟨u, v, rfl, first, second⟩ := ih later
          exact ⟨_, v, by simp, .next here first, by simpa using second⟩

theorem Written.exists_text {a t w : Text} {ms : List Mark} (h : Written t (.text a :: ms) w) :
    ∃ u, w = a ++ u ∧ Written (t ++ a) ms u := by
  cases h with
  | next here later =>
      obtain rfl := here
      exact ⟨_, rfl, later⟩

/-- A block adds what is in it and what its end adds. -/
theorem Written.block {t u v : Text} {ms : List Mark} {block : Block} (inner : Written t ms u)
    (ends : (Mark.closes block).Adds (t ++ u) v) :
    Written t (.opens block :: ms ++ [.closes block]) (u ++ v) := by
  have opened : Written t [.opens block] [] := .one rfl
  have inside : Written (t ++ []) ms u := by simpa using inner
  have filled : Written t (.opens block :: ms) u := opened.append inside
  exact filled.append (.one ends)

/-- A mark adds its own visible characters. -/
theorem Mark.Adds.filter {t added : Text} {m : Mark} (h : m.Adds t added) :
    added.filter isVisible = m.content.filter isVisible := by
  have seam : m.isSeam = true → m.content = [] := by cases m <;> simp [isSeam, content]
  unfold Adds at h
  split at h
  · next is =>
    rw [seam is]
    rcases h with rfl | ⟨rfl, -⟩ <;> rfl
  · rw [h]

/-- What is written has the visible characters that were read. -/
theorem Written.filter {t u : Text} {ms : List Mark} (h : Written t ms u) :
    u.filter isVisible = (traceText ms).filter isVisible := by
  induction h with
  | none => rfl
  | next here _ ih =>
      rw [traceText_cons, List.filter_append, List.filter_append, here.filter, ih]

/-- The text of a flattened forest that is kept with its latest node first. -/
def latestText (out : Forest) : Text := Forest.textContents out.reverse

theorem latestText_cons (n : Node) (out : Forest) :
    latestText (n :: out) = latestText out ++ n.textContent := by
  simp [latestText, Forest.textContents_append, Forest.textContents]

/-- The end of a block or a rule adds a space, unless there is white space already. -/
theorem exists_separate {m : Mark} (seam : m.isSeam = true) (out : Forest) :
    ∃ added, m.Adds (latestText out) added ∧
      latestText (separate out) = latestText out ++ added := by
  have kept : (∀ c ∈ (latestText out).getLast?, isSpace c = true) →
      separate out = out → ∃ added, m.Adds (latestText out) added ∧
        latestText (separate out) = latestText out ++ added := by
    intro spaced same
    exact ⟨[], by simpa [Mark.Adds, seam] using spaced, by rw [same, List.append_nil]⟩
  have parted : separate out = .text [' '] :: out → ∃ added, m.Adds (latestText out) added ∧
      latestText (separate out) = latestText out ++ added := by
    intro more
    exact ⟨[' '], by simp [Mark.Adds, seam], by rw [more, latestText_cons, Node.textContent]⟩
  cases out with
  | nil => exact kept (by simp [latestText, Forest.textContents]) rfl
  | cons n out =>
      cases n with
      | text content =>
          cases last : content.getLast? with
          | none => exact parted (by simp [separate, last])
          | some c =>
              cases space : isSpace c with
              | true =>
                  refine kept ?_ (by simp [separate, last, space])
                  rw [latestText_cons, Node.textContent, List.getLast?_append, last]
                  simp [space]
              | false => exact parted (by simp [separate, last, space])
      | lineBreak =>
          refine kept ?_ rfl
          rw [latestText_cons, Node.textContent, List.getLast?_concat]
          rintro c ⟨⟩
          rfl
      | _ => exact parted rfl

mutual

theorem written_sealed_node : (n : Node) → (path : List Nat) → (t : Text) →
    Written t (n.trace path true) n.textContent
  | .heading _ cs, path, t | .paragraph cs, path, t | .list _ cs, path, t | .item cs, path, t
  | .quote cs, path, t | .directive _ _ cs, path, t => by
      have inner := written_sealed cs path 0 t
      simp only [Node.trace, Node.textContent]
      rw [← List.append_nil (Forest.textContents cs)]
      exact inner.block rfl
  | .element _ _ cs, path, t | .emphasis _ cs, path, t | .codeSpan cs, path, t
  | .link _ cs, path, t => by
      simp only [Node.trace, Node.textContent]
      exact written_sealed cs path 0 t
  | .rule, _, t | .table _, _, t => by
      simp only [Node.trace, Node.textContent]
      exact .one rfl
  | .lineBreak, _, t => .one rfl
  | .malformed _, _, t => .none
  | .text content, _, t => .one rfl

/-- In an inline node nothing is added to the texts. -/
theorem written_sealed : (ns : Forest) → (path : List Nat) → (position : Nat) → (t : Text) →
    Written t (Forest.trace path position true ns) (Forest.textContents ns)
  | [], _, _, t => .none
  | n :: ns, path, position, t => by
      simp only [Forest.trace, Forest.textContents]
      exact (written_sealed_node n _ t).append (written_sealed ns path _ _)

end

mutual

theorem written_flattenOnto_node : (n : Node) → (path : List Nat) → (out : Forest) →
    ∃ added, Written (latestText out) (n.trace path false) added ∧
      latestText (n.flattenOnto out) = latestText out ++ added
  | .heading _ cs, path, out | .paragraph cs, path, out | .list _ cs, path, out
  | .item cs, path, out | .quote cs, path, out | .directive _ _ cs, path, out => by
      obtain ⟨inner, written, text⟩ := written_flattenOnto cs path 0 out
      obtain ⟨space, adds, whole⟩ := exists_separate (m := .closes ⟨path, false⟩) rfl
        (Forest.flattenOnto cs out)
      refine ⟨inner ++ space, written.block (text ▸ adds), ?_⟩
      simp only [Node.flattenOnto]
      rw [whole, text, List.append_assoc]
  | .element _ _ cs, path, out => by
      simp only [Node.trace, Node.flattenOnto]
      exact written_flattenOnto cs path 0 out
  | .rule, path, out | .table _, path, out => by
      obtain ⟨space, adds, whole⟩ := exists_separate (m := .divides false) rfl out
      exact ⟨space, .one adds, whole⟩
  | .emphasis _ cs, path, out | .codeSpan cs, path, out | .link _ cs, path, out => by
      refine ⟨Forest.textContents cs, ?_, ?_⟩
      · simp only [Node.trace]
        exact written_sealed cs path 0 _
      · simp only [Node.flattenOnto, latestText_cons, Node.textContent]
  | .lineBreak, path, out => ⟨['\n'], .one rfl, latestText_cons .lineBreak out⟩
  | .malformed source, path, out =>
      ⟨[], .none, latestText_cons (.malformed source) out⟩
  | .text content, path, out => ⟨content, .one rfl, latestText_cons (.text content) out⟩

/-- Flattening writes what a reader meets. -/
theorem written_flattenOnto : (ns : Forest) → (path : List Nat) → (position : Nat) →
    (out : Forest) → ∃ added, Written (latestText out) (Forest.trace path position false ns) added ∧
      latestText (Forest.flattenOnto ns out) = latestText out ++ added
  | [], _, _, out => ⟨[], .none, by simp [Forest.flattenOnto]⟩
  | n :: ns, path, position, out => by
      obtain ⟨here, first, text⟩ := written_flattenOnto_node n (position :: path) out
      obtain ⟨later, second, whole⟩ :=
        written_flattenOnto ns path (position + 1) (n.flattenOnto out)
      refine ⟨here ++ later, ?_, ?_⟩
      · exact first.append (text ▸ second)
      · simp only [Forest.flattenOnto]
        rw [whole, text, List.append_assoc]

end

/-- A flattened body is what was written less blank texts at its end. -/
theorem exists_written_flatten (ns : Forest) :
    ∃ whole blank, Written [] (Forest.trace [] 0 false ns) whole ∧
      whole = Forest.textContents ns.flatten ++ blank ∧ blank.filter isVisible = [] := by
  obtain ⟨whole, written, text⟩ := written_flattenOnto ns [] 0 []
  let out := Forest.flattenOnto ns []
  have dropped :
      (Forest.textContents (out.takeWhile Node.isBlankText).reverse).filter isVisible = [] := by
    have each : ∀ n ∈ (out.takeWhile Node.isBlankText).reverse,
        n.textContent.filter isVisible = [] := by
      intro n mem
      have blank := List.all_eq_true.1 List.all_takeWhile n (List.mem_reverse.1 mem)
      cases n with
      | text content => exact (isBlank_iff_filter content).1 blank
      | _ => cases blank
    generalize (out.takeWhile Node.isBlankText).reverse = nodes at each
    induction nodes with
    | nil => rfl
    | cons n nodes ih =>
        rw [Forest.textContents, List.filter_append, each n List.mem_cons_self,
          ih fun m mem => each m (List.mem_cons_of_mem _ mem)]
        rfl
  refine ⟨whole, _, written, ?_, dropped⟩
  rw [← Forest.textContents_append, Forest.flatten, ← List.reverse_append,
    List.takeWhile_append_dropWhile]
  exact text.symm

/-- No blank text is left at the end of a flattened body. -/
theorem isBlankText_getLast?_flatten {ns : Forest} {n : Node} (h : ns.flatten.getLast? = some n) :
    n.isBlankText = false := by
  rw [Forest.flatten, List.getLast?_reverse] at h
  have visible := List.head?_dropWhile_not Node.isBlankText (Forest.flattenOnto ns [])
  rw [h] at visible
  exact visible

/-! ## Boxes -/

/-- The resolved rich body of a macro with the given children; of several it is the first. -/
def Forest.resolvedBody (cs : Forest) : Forest :=
  ((Forest.childBody? richBody cs).map Forest.resolve).getD []

theorem resolve?_box {attributes : Dictionary}
    (boxed : macroName attributes ∈ ["info".toList, "warning".toList]) (cs : Forest) :
    (Node.element "ac:structured-macro" attributes cs).resolve? =
      some (.directive (.admonition (boxKind attributes)) (Forest.parameters cs)
        cs.resolvedBody.flatten) := by
  have shell : (Node.element "ac:structured-macro" attributes cs).resolve? =
      some (directiveOf attributes (Forest.parameters cs) _
        ((Forest.resolveChild? richBody cs).getD [])) := rfl
  rw [shell, directiveOf_box boxed, Forest.resolveChild?_eq]
  rfl

/-- **A box keeps the text of its body.**  The macro becomes a box whose visible characters are
those of the macro's resolved rich body, in order, and no blank text stands at its end. -/
theorem box_keeps_text {attributes : Dictionary}
    (boxed : macroName attributes ∈ ["info".toList, "warning".toList]) (cs : Forest) :
    ∃ box, (Node.element "ac:structured-macro" attributes cs).resolve? = some box ∧
      box.bare = .directive (.admonition (boxKind attributes)) (Forest.parameters cs) [] ∧
      box.textContent.filter isVisible =
        (Forest.textContents cs.resolvedBody).filter isVisible ∧
      ∀ n, box.children.getLast? = some n → n.isBlankText = false := by
  refine ⟨_, resolve?_box boxed cs, rfl, ?_, fun n => isBlankText_getLast?_flatten⟩
  obtain ⟨whole, blank, written, text, none⟩ := exists_written_flatten cs.resolvedBody
  rw [Node.textContent, ← traceText_trace cs.resolvedBody [] 0 false, ← written.filter, text,
    List.filter_append, none, List.append_nil]

/-- The attributes of an info macro. -/
def infoAttributes : Dictionary := Dictionary.empty.insert "ac:name" "info"

/-- The children of an info macro: a paragraph, a table, and a list with a list in its item. -/
def listedRemark : Forest :=
  [.element richBody .empty
    [.paragraph [.text "Read ", .emphasis .bold [.text "this"]], .table "<table/>",
      .list false [.item [.text "one", .list true [.item [.text "two"]]]], .text " "]]

theorem box_keeps_listedRemark :
    macroName infoAttributes ∈ ["info".toList, "warning".toList] ∧
      ∃ box, (Node.element "ac:structured-macro" infoAttributes listedRemark).resolve? = some box ∧
        box.textContent.filter isVisible = "Readthisonetwo".toList := by
  have boxed : macroName infoAttributes ∈ ["info".toList, "warning".toList] := by decide
  obtain ⟨box, becomes, -, kept, -⟩ := box_keeps_text boxed listedRemark
  exact ⟨boxed, box, becomes, kept.trans (by decide)⟩

end Document

end Wikidown
