/-
# Wikidown.Proofs.WrappedCode -- a code macro at any depth of lists and quotes

A code macro may stand in paragraphs, divisions, list items and quotes, one inside the
other.  The Markdown of such markup is the block of the code, and nothing else, with the
marks of each list and quote around it in front of its lines (`segments_fragment_wrapped`).

The way there has three legs, each with a step for one wrapper and a run over the chain:
the markup becomes a forest (`Wrapper.writes_foldr`), the forest is resolved
(`Wrapper.resolve?_foldr`), and each wrapper is laid out around the lines of what is in it
(`Laid.wrap_foldr`).
-/
import Wikidown.Proofs.SteadyLines
import Wikidown.Proofs.WrittenMarkup

namespace Wikidown.Page

set_option autoImplicit false

open Document (Node Forest Wraps)
open Markup (Escaped cdataClose)
open Markdown (Flow Lined Steady layForest tick)

/-! ## Wrappers -/

/-- What a block of code may stand in. -/
inductive Wrapper where
  | paragraph
  | division
  /-- An item, the only one of its list. -/
  | item (ordered : Bool)
  | quote

/-- A marker before the first line, and spaces of its width before each later line that is
not empty. -/
def hung (marker : Text) : List Text → List Text
  | [] => []
  | first :: later =>
      (marker ++ first)
        :: later.map fun l => if l = [] then [] else List.replicate marker.length ' ' ++ l

/-- A line behind a quote mark and a space, but no space before an empty one. -/
def quoted (line : Text) : Text := if line = [] then ">" else "> " ++ line

namespace Wrapper

/-- The tags of the wrapper around markup. -/
def markup : Wrapper → Text → Text
  | paragraph, inside => "<p>" ++ inside ++ "</p>"
  | division, inside => "<div>" ++ inside ++ "</div>"
  | item false, inside => "<ul>" ++ ("<li>" ++ inside ++ "</li>") ++ "</ul>"
  | item true, inside => "<ol>" ++ ("<li>" ++ inside ++ "</li>") ++ "</ol>"
  | quote, inside => "<blockquote>" ++ inside ++ "</blockquote>"

/-- The lines of what is wrapped, behind the marks of the wrapper. -/
def lines : Wrapper → List Text → List Text
  | paragraph, ls | division, ls => ls
  | item false, ls => hung "- " ls
  | item true, ls => hung "1. " ls
  | quote, ls => ls.map quoted

/-- The node of the wrapper around a node. -/
def node : Wrapper → Node → Node
  | paragraph, n => .paragraph [n]
  | division, n => .element "div" .empty [n]
  | item ordered, n => .list ordered [.item [n]]
  | quote, n => .quote [n]

/-- The step: a wrapper around the markup of a node is the markup of its own node. -/
theorem writes (w : Wrapper) {inside : Text} {n : Node}
    (inner : ∃ tokens, Writes inside tokens [n]) :
    ∃ tokens, Writes (w.markup inside) tokens [w.node n] := by
  obtain ⟨tokens, inner⟩ := inner
  cases w with
  | paragraph => exact inner.tag (.paragraph .empty) (by decide)
  | division =>
      have generic : Wraps "div" .empty (.element "div" .empty) := .element .empty (by decide)
      exact inner.tag generic (by decide)
  | quote => exact inner.tag (.quote .empty) (by decide)
  | item ordered =>
      obtain ⟨others, item⟩ := inner.tag (.item .empty) (by decide)
      cases ordered with
      | false => exact item.tag (.unordered .empty) (by decide)
      | true => exact item.tag (.ordered .empty) (by decide)

/-- The step: a wrapper is resolved by resolving what is in it. -/
theorem resolve?_node (w : Wrapper) {n n' : Node} (h : n.resolve? = some n') :
    (w.node n).resolve? = some (w.node n') := by
  have inside : Forest.resolve [n] = [n'] := by
    rw [Forest.resolve, h]
    rfl
  cases w with
  | paragraph =>
      show some (Node.paragraph (Forest.resolve [n])) = _
      rw [inside]
      rfl
  | division =>
      show some (Node.element "div" .empty (Forest.resolve [n])) = _
      rw [inside]
      rfl
  | item ordered =>
      show some (Node.list ordered [.item (Forest.resolve [n])]) = _
      rw [inside]
      rfl
  | quote =>
      show some (Node.quote (Forest.resolve [n])) = _
      rw [inside]
      rfl

/-- The run: a chain of wrappers, the outermost first. -/
theorem writes_foldr (chain : List Wrapper) {inside : Text} {n : Node}
    (inner : ∃ tokens, Writes inside tokens [n]) :
    ∃ tokens, Writes (chain.foldr markup inside) tokens [chain.foldr node n] := by
  induction chain with
  | nil => exact inner
  | cons w chain ih => exact w.writes ih

theorem resolve?_foldr (chain : List Wrapper) {n n' : Node} (h : n.resolve? = some n') :
    (chain.foldr node n).resolve? = some (chain.foldr node n') := by
  induction chain with
  | nil => exact h
  | cons w chain ih => exact w.resolve?_node ih

theorem hung_eq_markLines {ls : List Text} (filled : ls ≠ []) (marker : Text) :
    hung marker ls = Markdown.markLines marker ls := by
  cases ls with
  | nil => exact absurd rfl filled
  | cons first later => simp [hung, Markdown.markLines, Markdown.indentLine]

theorem quoted_eq_quoteLine : quoted = Markdown.quoteLine := by
  funext line
  simp [quoted, Markdown.quoteLine]

end Wrapper

/-- The node is laid out as the lines alone, and they stay as they are from there on. -/
structure Laid (language : Language) (n : Node) (ls : List Text) : Prop where
  layout : layForest language [n] .start = ⟨[Text.joinLines ls], []⟩
  lined : Lined ls
  steady : Steady ls

/-- A part of lines is added to an empty layout. -/
theorem add_joinLines {ls : List Text} (lined : Lined ls) :
    Flow.start.add (Text.joinLines ls) = ⟨[Text.joinLines ls], []⟩ := by
  rw [Flow.add, lined.isEmpty_joinLines]
  rfl

namespace Laid

variable {language : Language} {n : Node} {ls : List Text}

/-- A paragraph or division lays out what is in it. -/
theorem unwrapped (h : Laid language n ls) :
    Laid language (.paragraph [n]) ls ∧ Laid language (.element "div" .empty [n]) ls := by
  constructor
  · refine ⟨?_, h.lined, h.steady⟩
    show (layForest language [n] .start).close = _
    rw [h.layout, Flow.close_nil]
  · exact ⟨h.layout, h.lined, h.steady⟩

theorem itemText_eq (h : Laid language n ls) :
    (layForest language [n] .start).itemText = Text.joinLines ls := by
  rw [h.layout, Flow.itemText, Flow.texts, Flow.close_nil]
  exact List.append_nil _

theorem pageText_eq (h : Laid language n ls) :
    (layForest language [n] .start).pageText = Text.joinLines ls := by
  rw [h.layout, Flow.pageText, Flow.texts, Flow.close_nil]
  exact List.append_nil _

theorem item (h : Laid language n ls) (ordered : Bool) :
    Laid language (.list ordered [.item [n]])
      (Markdown.markLines (Markdown.itemMarker ordered 1) ls) where
  layout := by
    have inside : Markdown.listLines language ordered 1 2 [.item [n]] =
        Markdown.markLines (Markdown.itemMarker ordered 1) ls := by
      rw [Markdown.listLines, Markdown.itemLines, h.itemText_eq, h.lined.lines_joinLines]
      exact List.append_nil _
    show Flow.start.add (Text.joinLines (Markdown.listLines language ordered 1 2 [.item [n]])) = _
    rw [inside, add_joinLines (h.lined.mark ordered 1)]
  lined := h.lined.mark ordered 1
  steady := h.steady.mark h.lined ordered 1

theorem quote (h : Laid language n ls) :
    Laid language (.quote [n]) (ls.map Markdown.quoteLine) where
  layout := by
    show Flow.start.add
      (Markdown.quoteText (Markdown.tidy (layForest language [n] .start).pageText)) = _
    rw [h.pageText_eq, h.steady.tidy_joinLines h.lined, Markdown.quoteText,
      h.lined.lines_joinLines, add_joinLines h.lined.quote]
  lined := h.lined.quote
  steady := .quote ls

/-- The step: a wrapper puts its marks in front of the lines of what is in it. -/
theorem wrap (h : Laid language n ls) (w : Wrapper) : Laid language (w.node n) (w.lines ls) := by
  cases w with
  | paragraph => exact h.unwrapped.1
  | division => exact h.unwrapped.2
  | quote =>
      rw [Wrapper.lines, Wrapper.quoted_eq_quoteLine]
      exact h.quote
  | item ordered =>
      cases ordered with
      | false =>
          rw [Wrapper.lines, Wrapper.hung_eq_markLines h.lined.filled]
          exact h.item false
      | true =>
          rw [Wrapper.lines, Wrapper.hung_eq_markLines h.lined.filled]
          exact h.item true

/-- The run: what is inside a chain is laid out first. -/
theorem wrap_foldr (h : Laid language n ls) (chain : List Wrapper) :
    Laid language (chain.foldr Wrapper.node n) (chain.foldr Wrapper.lines ls) := by
  induction chain with
  | nil => exact h
  | cons w chain ih => exact ih.wrap w

theorem render_eq (h : Laid language n ls) : Markdown.render language [n] = Text.joinLines ls := by
  rw [Markdown.render, h.pageText_eq, h.steady.tidy_joinLines h.lined]

end Laid

/-! ## The macro -/

/-- The markup of a code macro: the name of the language as it is written in markup, and
the code as it is. -/
def codeMacro (written code : Text) : Text :=
  "<ac:structured-macro ac:name=\"code\">"
    ++ ("<ac:parameter ac:name=\"language\">" ++ written ++ "</ac:parameter>"
      ++ ("<ac:plain-text-body>" ++ ("<![CDATA[" ++ code ++ "]]>") ++ "</ac:plain-text-body>"))
    ++ "</ac:structured-macro>"

/-- The element of a code macro. -/
def codeElement (label code : Text) : Node :=
  .element "ac:structured-macro" (Dictionary.empty.insert "ac:name" "code")
    [.element "ac:parameter" (Dictionary.empty.insert "ac:name" "language") (textNodes label),
      .element "ac:plain-text-body" .empty (textNodes code)]

/-- The directive that the macro means. -/
def codeDirective (label code : Text) : Node :=
  .directive .code (.ofList [("language", label)]) [.text code]

theorem writes_codeMacro {label written code : Text} (escaped : Escaped '<' label written)
    (closed : ¬ cdataClose <:+: code) :
    ∃ tokens, Writes (codeMacro written code) tokens [codeElement label code] := by
  have generic : ∀ (name : Text) (attributes : Dictionary), name ∉ Document.tagNames →
      Wraps name attributes (.element name attributes) := fun _ attributes other =>
    .element attributes other
  have macroName : Escaped '"' "code" "code" :=
    Markup.escaped_self (Markup.forall_mem_of_all (by decide))
  have parameterName : Escaped '"' "language" "language" :=
    Markup.escaped_self (Markup.forall_mem_of_all (by decide))
  obtain ⟨_, language⟩ := Writes.text escaped
  obtain ⟨_, content⟩ := Writes.cdata closed
  have parameter := language.element
    (generic "ac:parameter" (Dictionary.empty.insert "ac:name" "language") (by decide))
    (spelled_named (by decide) parameterName)
    (spelled_endTag (by decide))
  have body := content.element (generic "ac:plain-text-body" .empty (by decide))
    (spelled_startTag (by decide)) (spelled_endTag (by decide))
  have both := parameter.append body (by
    intro t head
    rw [← Option.some.inj head]
    rfl)
  exact ⟨_, both.element
    (generic "ac:structured-macro" (Dictionary.empty.insert "ac:name" "code") (by decide))
    (spelled_named (by decide) macroName)
    (spelled_endTag (by decide))⟩

theorem resolve?_codeElement {label : Text} (trimmed : Text.trim label = label) (code : Text) :
    (codeElement label code).resolve? = some (codeDirective label code) := by
  show some (Document.directiveOf (Dictionary.empty.insert "ac:name" "code")
    (.ofList [("language", Text.trim (Forest.textContents (textNodes label)))])
    (Forest.textContents (textNodes code)) []) = _
  have name : Document.macroName (Dictionary.empty.insert "ac:name" "code") = "code" := by decide
  rw [textContents_textNodes, textContents_textNodes, trimmed, Document.directiveOf, name]
  rfl

/-- The lines of a code macro: its fence with the language, the code less the line feeds at its
end, and its fence. -/
def codeLines (label code : Text) : List Text :=
  Markdown.labelledLines label (Text.dropEndWhile (· == '\n') code)

theorem laid_codeDirective (language : Language) {label code : Text} (noBreak : '\n' ∉ label)
    (trimmed : Text.trim label = label) (noTick : tick ∉ label) (plain : '\r' ∉ code) :
    Laid language (codeDirective label code) (codeLines label code) := by
  have inside : '\r' ∉ Text.dropEndWhile (· == '\n') code := fun mem =>
    plain ((Text.isPrefix_dropEndWhile _ _).subset mem)
  have lined := Markdown.lined_labelledLines noBreak trimmed inside
  refine ⟨?_, lined, Markdown.steady_labelledLines noTick _⟩
  have content : Forest.textContents [.text code] = code := List.append_nil code
  show Flow.start.add (Markdown.codeBlock label (Forest.textContents [.text code])) = _
  rw [content, Markdown.codeBlock_eq noBreak plain]
  exact add_joinLines lined

/-- **Code is verbatim at any depth.**  A code macro in a chain of paragraphs, divisions,
items and quotes, the outermost first, becomes the lines of its code block behind the
marks of the chain. -/
theorem segments_fragment_wrapped (language : Language) (chain : List Wrapper)
    {label written code : Text} (escaped : Escaped '<' label written)
    (noBreak : '\n' ∉ label) (trimmed : Text.trim label = label) (noTick : tick ∉ label)
    (closed : ¬ cdataClose <:+: code) (plain : '\r' ∉ code) :
    Text.segments (fragment language (chain.foldr Wrapper.markup (codeMacro written code))) =
      chain.foldr Wrapper.lines (codeLines label code) := by
  obtain ⟨tokens, writes⟩ := Wrapper.writes_foldr chain (writes_codeMacro escaped closed)
  have resolved := Wrapper.resolve?_foldr chain (resolve?_codeElement trimmed code)
  have laid := (laid_codeDirective language noBreak trimmed noTick plain).wrap_foldr chain
  have forest : forestOfMarkup (chain.foldr Wrapper.markup (codeMacro written code)) =
      [chain.foldr Wrapper.node (codeDirective label code)] := by
    rw [writes.forestOfMarkup_eq, Forest.resolve, resolved]
    rfl
  rw [fragment, forest, laid.render_eq, laid.lined.segments_joinLines]

/-- Code that looks like fences, list items and quotes, with blank lines in it and behind it. -/
def listing : Text := "\x60\x60\x60\n\n\n- \x60\x60\x60\n> x\n  y\n\n"

theorem segments_listing :
    (Escaped '<' "a&b" "a&amp;b" ∧ '\n' ∉ "a&b".toList ∧ Text.trim "a&b" = "a&b" ∧
      tick ∉ "a&b".toList ∧ ¬ cdataClose <:+: listing ∧ '\r' ∉ listing) ∧
    Text.segments (fragment .english
        ([.item false, .quote, .division, .item true].foldr Wrapper.markup
          (codeMacro "a&amp;b" listing))) =
      (["- > 1. \x60\x60\x60\x60a&b", "  >    \x60\x60\x60", "  >", "  >",
        "  >    - \x60\x60\x60", "  >    > x", "  >      y", "  >    \x60\x60\x60\x60"] :
          List Text) := by
  have ampersand : Markup.IsReference "amp" '&' := ⟨.named (by decide), by decide⟩
  have escaped : Escaped '<' "a&b" "a&amp;b" :=
    .literal (by decide) (by decide) (.reference ampersand (.literal (by decide) (by decide) .nil))
  have noBreak : '\n' ∉ "a&b".toList := by decide
  have trimmed : Text.trim "a&b" = "a&b" := by decide
  have noTick : tick ∉ "a&b".toList := by decide
  have closed : ¬ cdataClose <:+: listing :=
    (Text.cut?_eq_none_iff (by decide)).1 (by decide +kernel)
  have plain : '\r' ∉ listing := by decide
  refine ⟨⟨escaped, noBreak, trimmed, noTick, closed, plain⟩, ?_⟩
  have lines := segments_fragment_wrapped .english
    [.item false, .quote, .division, .item true] escaped noBreak trimmed noTick closed plain
  rw [lines]
  decide +kernel

end Wikidown.Page
