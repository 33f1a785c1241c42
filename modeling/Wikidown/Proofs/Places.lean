/-
# Wikidown.Proofs.Places -- places in a page, and what resolving makes of them

A `Place` is a way down a forest of markup, through blocks, emphasis, elements of the
layout and the bodies of boxes, to where a node stands; `Place.fill` puts a node there.
The body of a box is flattened, and there a table or an unknown macro leaves nothing
unless an emphasis shields it from the flattening (`Place.shows`): what is put at a place
that does not show makes no difference (`resolve_fill_congr`).
-/
import Wikidown.Document.Directive

namespace Wikidown.Document

set_option autoImplicit false

/-! ## Forests in parts -/

theorem Forest.resolve_append (a b : Forest) :
    Forest.resolve (a ++ b) = Forest.resolve a ++ Forest.resolve b := by
  induction a with
  | nil => rfl
  | cons n ns ih => simp [Forest.resolve, ih]

theorem Forest.flattenOnto_append (a b out : Forest) :
    Forest.flattenOnto (a ++ b) out = Forest.flattenOnto b (Forest.flattenOnto a out) := by
  induction a generalizing out with
  | nil => rfl
  | cons n ns ih => exact ih _

/-! ## What cannot be shown -/

/-- The names of the macros that can be shown. -/
def knownMacros : List Text := ["code", "info", "warning"]

/-- A construct that Markdown cannot show: a table, or a macro of an unknown name. -/
inductive Construct where
  | table (source : Text)
  | directive (attributes : Dictionary) (children : Forest)
      (unknown : macroName attributes ∉ knownMacros)

namespace Construct

/-- The node that markup has for a construct. -/
def node : Construct → Node
  | table source => .table source
  | directive attributes children _ => .element "ac:structured-macro" attributes children

/-- The node that a construct is resolved to. -/
def resolved : Construct → Node
  | table source => .table source
  | directive attributes children _ =>
      .directive (.unsupported (macroName attributes)) (Forest.parameters children) []

/-- Whether the name of a macro has no line feed. -/
def OneLine : Construct → Prop
  | table _ => True
  | directive attributes _ _ => '\n' ∉ macroName attributes

end Construct

theorem directiveOf_unknown {attributes : Dictionary} (unknown : macroName attributes ∉ knownMacros)
    (parameters : Dictionary) (plain : Text) (rich : Forest) :
    directiveOf attributes parameters plain rich =
      .directive (.unsupported (macroName attributes)) parameters [] := by
  have other : ∀ name : String, name.toList ∈ knownMacros →
      String.ofList (macroName attributes) ≠ name := by
    rintro name known rfl
    exact unknown (by simpa using known)
  simp only [directiveOf]
  split
  · next eq => exact absurd eq (other _ (by decide))
  · next eq => exact absurd eq (other _ (by decide))
  · next eq => exact absurd eq (other _ (by decide))
  · rfl

theorem Construct.resolve?_node (c : Construct) : c.node.resolve? = some c.resolved := by
  cases c with
  | table source => rfl
  | directive attributes children unknown =>
      simp [Construct.node, Construct.resolved, Node.resolve?, directiveOf_unknown unknown]

/-- Flattening leaves nothing of a construct but a space. -/
theorem Construct.flattenOnto_resolved (c : Construct) (out : Forest) :
    c.resolved.flattenOnto out = separate out := by
  cases c <;> rfl

/-! ## Places -/

/-- The names of the elements that resolving replaces or drops. -/
def wikiElements : List Text := ["ac:structured-macro", "ac:parameter", "pre", "ac:link"]

/-- The name of the element that holds the body of a box. -/
def richBody : Text := "ac:rich-text-body"

/-- The box that a macro of the given attributes is. -/
def boxKind (attributes : Dictionary) : Admonition :=
  if macroName attributes = "info".toList then .info else .warning

/-- One level of markup that may stand above a construct. -/
inductive Step where
  | heading (level : Nat)
  | paragraph
  | list (ordered : Bool)
  | item
  | quote
  | emphasis (kind : Emphasis)
  /-- An element of the layout, which means nothing to the wiki. -/
  | element (name : Text) (attributes : Dictionary) (layout : name ∉ wikiElements)
  /-- A rich body of a box, with what stands beside it. -/
  | box (attributes : Dictionary) (boxed : macroName attributes ∈ ["info".toList, "warning".toList])
      (before : Forest) (bodyAttributes : Dictionary) (after : Forest)

namespace Step

/-- The node of a level with the given nodes below it. -/
def node : Step → Forest → Node
  | heading level, cs => .heading level cs
  | paragraph, cs => .paragraph cs
  | list ordered, cs => .list ordered cs
  | item, cs => .item cs
  | quote, cs => .quote cs
  | emphasis kind, cs => .emphasis kind cs
  | element name attributes _, cs => .element name attributes cs
  | box attributes _ before bodyAttributes after, cs =>
      .element "ac:structured-macro" attributes (before ++ .element richBody bodyAttributes cs :: after)

/-- What a level is resolved to, where the nodes below it are resolved to the given ones.
Of several rich bodies a box has the first. -/
def resolved : Step → Forest → Node
  | heading level, cs => .heading level cs
  | paragraph, cs => .paragraph cs
  | list ordered, cs => .list ordered cs
  | item, cs => .item cs
  | quote, cs => .quote cs
  | emphasis kind, cs => .emphasis kind cs
  | element name attributes _, cs => .element name attributes cs
  | box attributes _ before _ after, cs =>
      .directive (.admonition (boxKind attributes)) (Forest.parameters (before ++ after))
        (((Forest.childBody? richBody before).map Forest.resolve).getD cs).flatten

end Step

/-- A way down a forest to where a node stands, with all that stands beside it. -/
inductive Place where
  | here (before after : Forest)
  | within (before : Forest) (step : Step) (inner : Place) (after : Forest)

namespace Place

/-- The forest with a node at the place. -/
def fill (x : Node) : Place → Forest
  | here before after => before ++ x :: after
  | within before step inner after => before ++ step.node (inner.fill x) :: after

/-- Whether the place stands below an emphasis. -/
def stressed : Place → Bool
  | here _ _ => false
  | within _ (.emphasis _) _ _ => true
  | within _ _ inner _ => inner.stressed

/-- Whether what cannot be shown leaves its notice at the place: each box above it shows
the rich body that the place is in, and an emphasis stands between the box and the place. -/
def shows : Place → Bool
  | here _ _ => true
  | within _ (.box _ _ before _ _) inner _ =>
      (Forest.childBody? richBody before).isNone && inner.stressed && inner.shows
  | within _ _ inner _ => inner.shows

end Place

/-! ## Resolving a place -/

theorem directiveOf_box {attributes : Dictionary}
    (boxed : macroName attributes ∈ ["info".toList, "warning".toList])
    (parameters : Dictionary) (plain : Text) (rich : Forest) :
    directiveOf attributes parameters plain rich =
      .directive (.admonition (boxKind attributes)) parameters rich.flatten := by
  rcases (by simpa using boxed : macroName attributes = "info".toList ∨
    macroName attributes = "warning".toList) with name | name
  · simp [directiveOf, boxKind, name]
  · simp [directiveOf, boxKind, name]

theorem resolve?_layout {name : Text} (layout : name ∉ wikiElements) (attributes : Dictionary)
    (cs : Forest) : (Node.element name attributes cs).resolve? =
      some (.element name attributes (Forest.resolve cs)) := by
  have other : ∀ special : String, special.toList ∈ wikiElements → String.ofList name ≠ special := by
    rintro special known rfl
    exact layout (by simpa using known)
  simp only [Node.resolve?]
  split
  · next eq => exact absurd eq (other _ (by decide))
  · next eq => exact absurd eq (other _ (by decide))
  · next eq => exact absurd eq (other _ (by decide))
  · next eq => exact absurd eq (other _ (by decide))
  · rfl

/-- An element that is no parameter element adds no parameter. -/
theorem parameters_element {name : Text} (other : name ≠ "ac:parameter".toList)
    (before after cs : Forest) (attributes : Dictionary) :
    Forest.parameters (before ++ .element name attributes cs :: after) =
      Forest.parameters (before ++ after) := by
  simp only [Forest.parameters, List.filterMap_append, List.filterMap_cons, if_neg other]

theorem childBody?_body (before after cs : Forest) (bodyAttributes : Dictionary) :
    Forest.childBody? richBody (before ++ .element richBody bodyAttributes cs :: after) =
      some ((Forest.childBody? richBody before).getD cs) := by
  simp only [Forest.childBody?, Forest.childElement?, List.find?_append]
  cases List.find? (Node.isElement richBody) before with
  | none => simp [Node.isElement, Node.children]
  | some body => rfl

theorem Step.resolve?_node (step : Step) (cs : Forest) :
    (step.node cs).resolve? = some (step.resolved (Forest.resolve cs)) := by
  cases step with
  | element name attributes layout => exact resolve?_layout layout attributes cs
  | box attributes boxed before bodyAttributes after =>
      have body : Forest.resolveChild? richBody
          (before ++ .element richBody bodyAttributes cs :: after) =
            some (((Forest.childBody? richBody before).map Forest.resolve).getD
              (Forest.resolve cs)) := by
        rw [Forest.resolveChild?_eq, childBody?_body]
        cases Forest.childBody? richBody before <;> rfl
      have shell : (Step.node (.box attributes boxed before bodyAttributes after) cs).resolve? =
          some (directiveOf attributes _ _ ((Forest.resolveChild? richBody
            (before ++ .element richBody bodyAttributes cs :: after)).getD [])) := rfl
      rw [shell, directiveOf_box boxed, parameters_element (by decide), body]
      rfl
  | _ => rfl

theorem resolve_here (c : Construct) (before after : Forest) :
    Forest.resolve ((Place.here before after).fill c.node) =
      Forest.resolve before ++ c.resolved :: Forest.resolve after := by
  rw [Place.fill, Forest.resolve_append, Forest.resolve, c.resolve?_node]
  rfl

theorem resolve_within (x : Node) (before : Forest) (step : Step) (inner : Place) (after : Forest) :
    Forest.resolve ((Place.within before step inner after).fill x) =
      Forest.resolve before ++ step.resolved (Forest.resolve (inner.fill x)) :: Forest.resolve after := by
  rw [Place.fill, Forest.resolve_append, Forest.resolve, step.resolve?_node]
  rfl

/-! ## Places that do not show -/

/-- A level whose nodes below it flatten alike flattens alike, unless it is an emphasis. -/
theorem Step.flattenOnto_congr {step : Step} (calm : ∀ kind, step ≠ .emphasis kind) {a b : Forest}
    (same : ∀ out, Forest.flattenOnto a out = Forest.flattenOnto b out) (out : Forest) :
    (step.resolved a).flattenOnto out = (step.resolved b).flattenOnto out := by
  cases step with
  | emphasis kind => exact absurd rfl (calm kind)
  | element name attributes layout => exact same out
  | box attributes boxed before bodyAttributes after =>
      simp only [Step.resolved, Node.flattenOnto]
      cases Forest.childBody? richBody before with
      | none => simp [Forest.flatten, same]
      | some body => rfl
  | _ => simp only [Step.resolved, Node.flattenOnto, same]

/-- Without an emphasis above it, a construct leaves nothing behind flattening that depends
on what it is. -/
theorem flattenOnto_fill_congr (c d : Construct) {place : Place} (calm : place.stressed = false)
    (out : Forest) :
    Forest.flattenOnto (Forest.resolve (place.fill c.node)) out =
      Forest.flattenOnto (Forest.resolve (place.fill d.node)) out := by
  induction place generalizing out with
  | here before after =>
      simp only [resolve_here, Forest.flattenOnto_append, Forest.flattenOnto,
        Construct.flattenOnto_resolved]
  | within before step inner after ih =>
      have unstressed : ∀ kind, step ≠ .emphasis kind := by
        rintro kind rfl
        simp [Place.stressed] at calm
      have inside : inner.stressed = false := by
        cases step with
        | emphasis kind => exact absurd rfl (unstressed kind)
        | _ => exact calm
      simp only [resolve_within, Forest.flattenOnto_append, Forest.flattenOnto]
      rw [Step.flattenOnto_congr unstressed (ih inside)]

/-- What stands at a place that does not show makes no difference. -/
theorem resolve_fill_congr (c d : Construct) {place : Place} (hidden : place.shows = false) :
    Forest.resolve (place.fill c.node) = Forest.resolve (place.fill d.node) := by
  induction place with
  | here before after => simp [Place.shows] at hidden
  | within before step inner after ih =>
      rw [resolve_within, resolve_within]
      congr 2
      cases step with
      | box attributes boxed earlier bodyAttributes later =>
          simp only [Place.shows, Bool.and_eq_false_iff, Option.isNone_eq_false_iff] at hidden
          simp only [Step.resolved]
          rcases hidden with (taken | calm) | deeper
          · obtain ⟨body, found⟩ := Option.isSome_iff_exists.1 taken
            rw [found]
            rfl
          · cases Forest.childBody? richBody earlier with
            | none => simp [Forest.flatten, flattenOnto_fill_congr c d calm]
            | some body => rfl
          · rw [ih deeper]
      | _ => rw [ih hidden]

end Wikidown.Document
