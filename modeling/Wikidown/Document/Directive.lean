/-
# Wikidown.Document.Directive -- resolving wiki elements

Pages write macros, links and preformatted text as elements of the wiki's own.
`Forest.resolve` replaces them, at any depth, by what they mean:

* `ac:structured-macro` is a directive: `code` keeps the text of its plain body,
  `info` and `warning` keep their rich body as one line (`Forest.flatten`), and a
  macro of any other name is unsupported and keeps its name;
* `ac:link` is a link to what its first `ri:…` element points at;
* `pre` is a code directive;
* `ac:parameter` means something only inside a macro, and goes.
-/
import Wikidown.Document.Node

namespace Wikidown.Document

set_option autoImplicit false

/-! ## Flattening -/

/-- A space between two blocks, unless what is already there, the latest node first,
is empty or ends with white space. -/
def separate (out : Forest) : Forest :=
  match out with
  | [] => []
  | .text content :: _ =>
      match content.getLast? with
      | some c => if isSpace c then out else .text [' '] :: out
      | none => .text [' '] :: out
  | .lineBreak :: _ => out
  | _ => .text [' '] :: out

mutual

/-- A node without its block structure, put in front of `out`, the latest node first. -/
def Node.flattenOnto : Node → Forest → Forest
  | .heading _ cs, out | .paragraph cs, out | .list _ cs, out | .item cs, out | .quote cs, out
  | .directive _ _ cs, out => separate (Forest.flattenOnto cs out)
  | .element _ _ cs, out => Forest.flattenOnto cs out
  | .rule, out | .table _, out => separate out
  | .emphasis k cs, out => .emphasis k cs :: out
  | .codeSpan cs, out => .codeSpan cs :: out
  | .link h cs, out => .link h cs :: out
  | .lineBreak, out => .lineBreak :: out
  | .text content, out => .text content :: out
  | .malformed source, out => .malformed source :: out

/-- The nodes of a forest without their block structure, put in front of `out`. -/
def Forest.flattenOnto : List Node → Forest → Forest
  | [], out => out
  | n :: ns, out => Forest.flattenOnto ns (n.flattenOnto out)

end

/-- The inline nodes of a forest: blocks are opened up, with a space between two of
them, and no blank text is left at the end. -/
def Forest.flatten (nodes : Forest) : Forest :=
  ((Forest.flattenOnto nodes []).dropWhile Node.isBlankText).reverse

/-! ## The parts of a wiki element -/

/-- The parameters of a macro: the text of each parameter element under its name. -/
def Forest.parameters (nodes : Forest) : Dictionary :=
  Dictionary.ofList <| nodes.filterMap fun
    | .element name attributes cs =>
        if name = "ac:parameter" then
          some ((attributes.get? "ac:name").getD [], Text.trim (Forest.textContents cs))
        else none
    | _ => none

/-- What a resource element points at: an address, a page or a file. -/
def Node.target? : Node → Option Text
  | .element name attributes _ =>
      if Text.startsWith "ri:" name then
        attributes.get? "ri:value" <|> attributes.get? "ri:content-title"
          <|> attributes.get? "ri:filename"
      else none
  | _ => none

/-- What the first resource element with a target points at. -/
def Forest.target? (nodes : Forest) : Option Text := nodes.findSome? Node.target?

/-- The name of a macro in lower case; a blank name is no name. -/
def macroName (attributes : Dictionary) : Text :=
  let name := Text.trim ((attributes.get? "ac:name").getD [])
  if name.isEmpty then "unnamed" else Text.lower name

/-- The directive for a macro: `plain` is the text of its plain body and `rich` its
resolved rich body. -/
def directiveOf (attributes : Dictionary) (parameters : Dictionary) (plain : Text)
    (rich : Forest) : Node :=
  let name := macroName attributes
  match String.ofList name with
  | "code" => .directive .code parameters [.text plain]
  | "info" => .directive (.admonition .info) parameters rich.flatten
  | "warning" => .directive (.admonition .warning) parameters rich.flatten
  | _ => .directive (.unsupported name) parameters []

/-- A link without content shows what it points at. -/
def linkOf (target : Option Text) (content : Forest) : Node :=
  match target with
  | some t => .link t (if content.isEmpty then [.text t] else content)
  | none => .link [] content

/-! ## Resolving -/

mutual

/-- A node with every wiki element in it resolved; a stray parameter is dropped. -/
def Node.resolve? : Node → Option Node
  | .heading l cs => some (.heading l (Forest.resolve cs))
  | .paragraph cs => some (.paragraph (Forest.resolve cs))
  | .list o cs => some (.list o (Forest.resolve cs))
  | .item cs => some (.item (Forest.resolve cs))
  | .quote cs => some (.quote (Forest.resolve cs))
  | .emphasis k cs => some (.emphasis k (Forest.resolve cs))
  | .codeSpan cs => some (.codeSpan (Forest.resolve cs))
  | .link h cs => some (.link h (Forest.resolve cs))
  | .directive k p cs => some (.directive k p (Forest.resolve cs))
  | .lineBreak => some .lineBreak
  | .rule => some .rule
  | .text content => some (.text content)
  | .table source => some (.table source)
  | .malformed source => some (.malformed source)
  | .element name attributes cs =>
      match String.ofList name with
      | "ac:structured-macro" =>
          let plain := (Forest.childBody? "ac:plain-text-body" cs).getD []
          let rich := (Forest.resolveChild? "ac:rich-text-body" cs).getD []
          some (directiveOf attributes (Forest.parameters cs) (Forest.textContents plain) rich)
      | "ac:parameter" => none
      | "pre" => some (.directive .code .empty [.text (Forest.textContents cs)])
      | "ac:link" =>
          let content := Forest.resolveChild? "ac:link-body" cs
            <|> Forest.resolveChild? "ac:plain-text-link-body" cs
          some (linkOf (Forest.target? cs) (content.getD []))
      | _ => some (.element name attributes (Forest.resolve cs))

/-- A forest with every wiki element in it resolved. -/
def Forest.resolve : List Node → Forest
  | [] => []
  | n :: ns => n.resolve?.toList ++ Forest.resolve ns

/-- The resolved children of the first element of the given name among the nodes. -/
def Forest.resolveChild? (name : Text) : List Node → Option Forest
  | [] => none
  | .element n _ cs :: ns =>
      if n = name then some (Forest.resolve cs) else Forest.resolveChild? name ns
  | _ :: ns => Forest.resolveChild? name ns

end

/-- Resolving a child's body is taking it and resolving it. -/
theorem Forest.resolveChild?_eq (name : Text) (nodes : Forest) :
    Forest.resolveChild? name nodes = (Forest.childBody? name nodes).map Forest.resolve := by
  induction nodes with
  | nil => rfl
  | cons n ns ih =>
      unfold Forest.childBody? Forest.childElement? at ih ⊢
      cases n with
      | element n attributes cs =>
          by_cases h : n = name
          · simp [Forest.resolveChild?, Node.isElement, Node.children, h]
          · simpa [Forest.resolveChild?, Node.isElement, h] using ih
      | _ => simpa [Forest.resolveChild?, Node.isElement] using ih

end Wikidown.Document
