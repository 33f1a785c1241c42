/-
# Wikidown.Proofs.Resolution -- the normal form that resolving reaches

Resolving replaces the wiki's own elements, at any depth, and leaves none behind: what it
moves into a box or a link is resolved on the way, and what it throws away takes its
elements with it.  `Replaces cs m` lists what can stand in the place of a wiki element with
the children `cs`; every other node keeps itself and has its children resolved
(`resolve?_cases`).  All statements about a whole forest are read off these two cases.

`Forest.Holds f n` says that `n` stands in `f` at some depth.  The main statement is
`resolve_settles`: a resolved forest holds no wiki element, the box that a macro element
becomes has a body of inline nodes alone, any other box was there before, a forest without
wiki elements stays as it is, and resolving twice is resolving once.
-/
import Wikidown.Proofs.Places
import Wikidown.Proofs.Linearization

namespace Wikidown.Document

set_option autoImplicit false

/-! ## Depth -/

/-- A node stands in a forest, at its top or at any depth below. -/
inductive Forest.Holds (n : Node) : Forest → Prop
  | here {f : Forest} (mem : n ∈ f) : Holds n f
  | deeper {f : Forest} {m : Node} (mem : m ∈ f) (deep : Holds n m.children) : Holds n f

open Forest (Holds)

theorem Forest.Holds.trans {n m : Node} {f : Forest} (inner : Holds n m.children)
    (outer : Holds m f) : Holds n f := by
  induction outer with
  | here mem => exact .deeper mem inner
  | deeper mem _ ih => exact .deeper mem ih

theorem Forest.Holds.mono {n : Node} {f g : Forest} (h : Holds n f) (sub : f ⊆ g) : Holds n g := by
  cases h with
  | here mem => exact .here (sub mem)
  | deeper mem deep => exact .deeper (sub mem) deep

theorem not_holds_nil {n : Node} : ¬ Holds n [] := by
  intro h
  cases h with
  | here mem => simp at mem
  | deeper mem => simp at mem

theorem holds_leaf {n leaf : Node} (bottom : leaf.children = []) (h : Holds n [leaf]) : n = leaf := by
  cases h with
  | here mem => exact List.mem_singleton.1 mem
  | deeper mem deep =>
      rw [List.mem_singleton.1 mem, bottom] at deep
      exact absurd deep not_holds_nil

theorem sizeOf_lt_of_holds {n : Node} {f : Forest} (h : Holds n f) : sizeOf n < sizeOf f := by
  induction h with
  | here mem => exact List.sizeOf_lt_of_mem mem
  | @deeper _ m mem _ ih =>
      have inside := sizeOf_children_le m
      have whole := List.sizeOf_lt_of_mem mem
      omega

/-- What holds of a node if it holds of all nodes below it holds of every node. -/
theorem Node.induction_below {P : Node → Prop}
    (step : ∀ n : Node, (∀ m, Holds m n.children → P m) → P n) (n : Node) : P n :=
  step n fun m h =>
    have := sizeOf_lt_of_holds h
    have := sizeOf_children_le n
    Node.induction_below step m
termination_by sizeOf n
decreasing_by omega

/-! ## Nodes that stand in a line -/

/-- A node that runs along in a line and hides no other kind of node: neither a block nor
an element. -/
def Node.IsInline (n : Node) : Prop :=
  n.isBlock = false ∧ ∀ name attributes cs, n ≠ .element name attributes cs

theorem mem_separate {n : Node} {out : Forest} (h : n ∈ separate out) : n ∈ out ∨ n = .text [' '] := by
  unfold separate at h
  split at h
  · exact absurd h List.not_mem_nil
  · split at h
    · split at h
      · exact .inl h
      · exact (List.mem_cons.1 h).symm
    · exact (List.mem_cons.1 h).symm
  · exact .inl h
  · exact (List.mem_cons.1 h).symm

mutual

theorem mem_flattenOnto_node {x : Node} : (n : Node) → (out : Forest) → x ∈ n.flattenOnto out →
    x ∈ out ∨ x.IsInline ∧ (x = .text [' '] ∨ Holds x [n])
  | .heading _ cs, out, h | .paragraph cs, out, h | .list _ cs, out, h | .item cs, out, h
  | .quote cs, out, h | .directive _ _ cs, out, h => by
      simp only [Node.flattenOnto] at h
      rcases mem_separate h with h | rfl
      · refine (mem_flattenOnto cs out h).imp_right fun ⟨inline, origin⟩ => ⟨inline, ?_⟩
        exact origin.imp_right fun deep => .deeper List.mem_cons_self deep
      · exact .inr ⟨⟨rfl, by simp⟩, .inl rfl⟩
  | .element _ _ cs, out, h => by
      simp only [Node.flattenOnto] at h
      refine (mem_flattenOnto cs out h).imp_right fun ⟨inline, origin⟩ => ⟨inline, ?_⟩
      exact origin.imp_right fun deep => .deeper List.mem_cons_self deep
  | .rule, out, h | .table _, out, h => by
      simp only [Node.flattenOnto] at h
      refine (mem_separate h).imp_right ?_
      rintro rfl
      exact ⟨⟨rfl, by simp⟩, .inl rfl⟩
  | .emphasis _ _, out, h | .codeSpan _, out, h | .link _ _, out, h | .lineBreak, out, h
  | .text _, out, h | .malformed _, out, h => by
      simp only [Node.flattenOnto] at h
      rcases List.mem_cons.1 h with rfl | h
      · exact .inr ⟨⟨rfl, by simp⟩, .inr (.here List.mem_cons_self)⟩
      · exact .inl h

/-- Flattening brings up inline nodes of the forest, and spaces. -/
theorem mem_flattenOnto {x : Node} : (ns out : Forest) → x ∈ Forest.flattenOnto ns out →
    x ∈ out ∨ x.IsInline ∧ (x = .text [' '] ∨ Holds x ns)
  | [], _, h => .inl h
  | n :: ns, out, h => by
      simp only [Forest.flattenOnto] at h
      rcases mem_flattenOnto ns _ h with h | ⟨inline, origin⟩
      · refine (mem_flattenOnto_node n out h).imp_right fun ⟨inline, origin⟩ => ⟨inline, ?_⟩
        exact origin.imp_right fun deep => deep.mono (List.cons_subset_cons n (List.nil_subset ns))
      · exact .inr ⟨inline, origin.imp_right fun deep => deep.mono (List.subset_cons_self n ns)⟩

end

theorem mem_flatten {x : Node} {ns : Forest} (h : x ∈ Forest.flatten ns) :
    x.IsInline ∧ (x = .text [' '] ∨ Holds x ns) := by
  have kept : x ∈ Forest.flattenOnto ns [] :=
    (List.dropWhile_suffix Node.isBlankText).subset (List.mem_reverse.1 h)
  exact (mem_flattenOnto ns [] kept).resolve_left List.not_mem_nil

/-- A flattened forest holds nothing new but spaces. -/
theorem holds_of_holds_flatten {x : Node} {ns : Forest} (h : Holds x ns.flatten) :
    x = .text [' '] ∨ Holds x ns := by
  cases h with
  | here mem => exact (mem_flatten mem).2
  | deeper mem deep =>
      rcases (mem_flatten mem).2 with rfl | outer
      · exact absurd deep not_holds_nil
      · exact .inr (deep.trans outer)

/-! ## What resolving makes of one node -/

/-- An element that has a meaning of the wiki's own. -/
def Node.IsWiki : Node → Prop
  | .element name _ _ => name ∈ wikiElements
  | _ => False

/-- What stands in the place of a wiki element with the given children.  A body is resolved
and is that of one of the children, or empty. -/
inductive Replaces (cs : Forest) : Node → Prop
  | code (parameters : Dictionary) (content : Text) :
      Replaces cs (.directive .code parameters [.text content])
  | unsupported (name : Text) (parameters : Dictionary) :
      Replaces cs (.directive (.unsupported name) parameters [])
  | box (kind : Admonition) (parameters : Dictionary) {body : Forest}
      (part : ∀ n ∈ body, Holds n cs) :
      Replaces cs (.directive (.admonition kind) parameters (Forest.resolve body).flatten)
  | link (href : Text) {body : Forest} (part : ∀ n ∈ body, Holds n cs) :
      Replaces cs (.link href (Forest.resolve body))
  | target (href : Text) : Replaces cs (.link href [.text href])

theorem holds_of_childBody? {name : Text} {cs body : Forest}
    (h : Forest.childBody? name cs = some body) : ∀ n ∈ body, Holds n cs := by
  intro n mem
  obtain ⟨child, found, rfl⟩ := Option.map_eq_some_iff.1 h
  exact .deeper (List.mem_of_find?_eq_some found) (.here mem)

/-- The resolved body of a child is that of a part of the forest. -/
theorem resolveChild?_getD (name : Text) (cs : Forest) :
    ∃ body : Forest, (∀ n ∈ body, Holds n cs) ∧
      (Forest.resolveChild? name cs).getD [] = Forest.resolve body := by
  rw [Forest.resolveChild?_eq]
  cases found : Forest.childBody? name cs with
  | none => exact ⟨[], by simp, rfl⟩
  | some body => exact ⟨body, holds_of_childBody? found, rfl⟩

theorem replaces_directiveOf (attributes parameters : Dictionary) (plain : Text) {cs body : Forest}
    (part : ∀ n ∈ body, Holds n cs) :
    Replaces cs (directiveOf attributes parameters plain (Forest.resolve body)) := by
  simp only [directiveOf]
  split
  · exact .code parameters plain
  · exact .box .info parameters part
  · exact .box .warning parameters part
  · exact .unsupported _ parameters

theorem replaces_linkOf (target? : Option Text) {cs body : Forest} (part : ∀ n ∈ body, Holds n cs) :
    Replaces cs (linkOf target? (Forest.resolve body)) := by
  cases target? with
  | none => exact .link [] part
  | some href =>
      simp only [linkOf]
      split
      · exact .target href
      · exact .link href part

theorem replaces_of_resolve? {name : Text} (wiki : name ∈ wikiElements) {attributes : Dictionary}
    {cs : Forest} {m : Node} (h : (Node.element name attributes cs).resolve? = some m) :
    Replaces cs m := by
  rcases (by simpa [wikiElements] using wiki : name = "ac:structured-macro".toList ∨
    name = "ac:parameter".toList ∨ name = "pre".toList ∨ name = "ac:link".toList)
    with rfl | rfl | rfl | rfl
  · obtain ⟨body, part, rich⟩ := resolveChild?_getD "ac:rich-text-body" cs
    simp only [Node.resolve?, String.ofList_toList, Option.some.injEq, rich] at h
    exact h ▸ replaces_directiveOf attributes _ _ part
  · simp [Node.resolve?] at h
  · simp only [Node.resolve?, String.ofList_toList, Option.some.injEq] at h
    exact h ▸ .code .empty _
  · have content : ∃ body : Forest, (∀ n ∈ body, Holds n cs) ∧
        ((Forest.resolveChild? "ac:link-body" cs <|>
          Forest.resolveChild? "ac:plain-text-link-body" cs).getD []) = Forest.resolve body := by
      cases found : Forest.resolveChild? "ac:link-body" cs with
      | none => exact resolveChild?_getD "ac:plain-text-link-body" cs
      | some content =>
          obtain ⟨body, part, eq⟩ := resolveChild?_getD "ac:link-body" cs
          rw [found] at eq
          exact ⟨body, part, eq⟩
    obtain ⟨body, part, content⟩ := content
    simp only [Node.resolve?, String.ofList_toList, Option.some.injEq, content] at h
    exact h ▸ replaces_linkOf _ part

/-- A node is replaced if it is a wiki element; any other stays and has its children
resolved. -/
theorem resolve?_cases {n m : Node} (h : n.resolve? = some m) :
    (¬ n.IsWiki ∧ m.bare = n.bare ∧ m.children = Forest.resolve n.children) ∨
      (n.IsWiki ∧ Replaces n.children m) := by
  cases n with
  | element name attributes cs =>
      by_cases wiki : name ∈ wikiElements
      · exact .inr ⟨wiki, replaces_of_resolve? wiki h⟩
      · rw [resolve?_layout wiki] at h
        obtain rfl := Option.some.inj h
        exact .inl ⟨wiki, rfl, rfl⟩
  | _ =>
      simp only [Node.resolve?, Option.some.injEq] at h
      subst h
      exact .inl ⟨id, rfl, rfl⟩

theorem mem_resolve {m : Node} {f : Forest} : m ∈ Forest.resolve f ↔ ∃ n ∈ f, n.resolve? = some m := by
  induction f with
  | nil => simp [Forest.resolve]
  | cons n ns ih => simp [Forest.resolve, ih]

theorem isWiki_iff_of_bare_eq {n m : Node} (same : m.bare = n.bare) : m.IsWiki ↔ n.IsWiki := by
  cases n <;> cases m <;> simp_all [Node.bare, Node.IsWiki]

/-! ## What resolving makes of a forest -/

/-- What is held by a resolved forest stands below or is what one of its nodes became. -/
theorem holds_resolve {x : Node} {f : Forest} (h : Holds x (Forest.resolve f)) :
    ∃ n ∈ f, ∃ m, n.resolve? = some m ∧ (x = m ∨ Holds x m.children) := by
  cases h with
  | here mem =>
      obtain ⟨n, inside, eq⟩ := mem_resolve.1 mem
      exact ⟨n, inside, x, eq, .inl rfl⟩
  | deeper mem deep =>
      obtain ⟨n, inside, eq⟩ := mem_resolve.1 mem
      exact ⟨n, inside, _, eq, .inr deep⟩

/-- A property of all that a forest holds when it is resolved: it is enough to show it of
what each single node becomes and of what is then below it. -/
theorem forall_holds_resolve {P : Node → Prop} {f : Forest}
    (each : ∀ n, Holds n f → ∀ m, n.resolve? = some m → P m ∧ ∀ x, Holds x m.children → P x) :
    ∀ x, Holds x (Forest.resolve f) → P x := by
  intro x h
  obtain ⟨n, mem, m, eq, rfl | deep⟩ := holds_resolve h
  · exact (each n (.here mem) _ eq).1
  · exact (each n (.here mem) m eq).2 x deep

/-- No wiki element is left of a node. -/
theorem not_isWiki_of_resolve? (n : Node) : ∀ m, n.resolve? = some m →
    ¬ m.IsWiki ∧ ∀ x, Holds x m.children → ¬ x.IsWiki := by
  induction n using Node.induction_below with
  | step n ih =>
    intro m h
    have parts : ∀ body : Forest, (∀ k ∈ body, Holds k n.children) →
        ∀ x, Holds x (Forest.resolve body) → ¬ x.IsWiki := by
      intro body part
      refine forall_holds_resolve fun k held => ih k ?_
      cases held with
      | here mem => exact part k mem
      | deeper mem deep => exact deep.trans (part _ mem)
    rcases resolve?_cases h with ⟨plain, same, below⟩ | ⟨-, replaced⟩
    · refine ⟨fun wiki => plain ((isWiki_iff_of_bare_eq same).1 wiki), ?_⟩
      rw [below]
      exact parts n.children fun k mem => .here mem
    · cases replaced with
      | code parameters content =>
          exact ⟨id, fun x held => by rw [holds_leaf rfl held]; exact id⟩
      | unsupported => exact ⟨id, fun x held => absurd held not_holds_nil⟩
      | box kind parameters part =>
          refine ⟨id, fun x held => ?_⟩
          rcases holds_of_holds_flatten held with rfl | deep
          · exact id
          · exact parts _ part x deep
      | link href part => exact ⟨id, parts _ part⟩
      | target href => exact ⟨id, fun x held => by rw [holds_leaf rfl held]; exact id⟩

/-- Where a box in a resolved forest comes from: a wiki element became the box, or the box
was there and its body was resolved where it stands. -/
def Origin (f : Forest) (kind : Admonition) (parameters : Dictionary) (body : Forest) : Prop :=
  (∃ e, Holds e f ∧ e.IsWiki ∧ e.resolve? = some (.directive (.admonition kind) parameters body)) ∨
    ∃ before, Holds (.directive (.admonition kind) parameters before) f ∧
      body = Forest.resolve before

theorem Origin.within {f g : Forest} {kind : Admonition} {parameters : Dictionary} {body : Forest}
    (h : Origin f kind parameters body) (part : ∀ n, Holds n f → Holds n g) :
    Origin g kind parameters body := by
  rcases h with ⟨e, held, became⟩ | ⟨before, held, eq⟩
  · exact .inl ⟨e, part e held, became⟩
  · exact .inr ⟨before, part _ held, eq⟩

theorem origin_of_resolve? (n : Node) : ∀ m, n.resolve? = some m →
    ∀ kind parameters body,
      m = .directive (.admonition kind) parameters body ∨
          Holds (.directive (.admonition kind) parameters body) m.children →
        Origin [n] kind parameters body := by
  induction n using Node.induction_below with
  | step n ih =>
    intro m h kind parameters body found
    have parts : ∀ part : Forest, (∀ k ∈ part, Holds k n.children) →
        Holds (.directive (.admonition kind) parameters body) (Forest.resolve part) →
        Origin [n] kind parameters body := by
      intro part inside held
      obtain ⟨k, mem, m, eq, place⟩ := holds_resolve held
      refine (ih k (inside k mem) m eq kind parameters body (place.imp_left Eq.symm)).within ?_
      intro x held
      refine .deeper List.mem_cons_self ?_
      cases held with
      | here mem' => exact List.mem_singleton.1 mem' ▸ inside k mem
      | deeper mem' deep => exact (List.mem_singleton.1 mem' ▸ deep).trans (inside k mem)
    rcases resolve?_cases h with ⟨-, same, below⟩ | ⟨wiki, replaced⟩
    · rcases found with rfl | held
      · -- A box that was there keeps its kind and parameters.
        cases n with
        | directive kind' parameters' before =>
            simp only [Node.bare, Node.directive.injEq, and_true] at same
            obtain ⟨rfl, rfl⟩ := same
            exact .inr ⟨before, .here List.mem_cons_self, below⟩
        | _ => simp [Node.bare] at same
      · exact parts n.children (fun k mem => .here mem) (below ▸ held)
    · rcases found with rfl | held
      · exact .inl ⟨n, .here List.mem_cons_self, wiki, h⟩
      · cases replaced with
        | code => exact absurd (holds_leaf rfl held) (by simp)
        | unsupported => exact absurd held not_holds_nil
        | box _ _ part => exact parts _ part ((holds_of_holds_flatten held).resolve_left (by simp))
        | link _ part => exact parts _ part held
        | target => exact absurd (holds_leaf rfl held) (by simp)

/-- The box that a wiki element becomes holds inline nodes alone. -/
theorem isInline_of_resolve? {e : Node} (wiki : e.IsWiki) {kind : Admonition}
    {parameters : Dictionary} {body : Forest}
    (h : e.resolve? = some (.directive (.admonition kind) parameters body)) :
    ∀ n ∈ body, n.IsInline := by
  obtain ⟨-, replaced⟩ := (resolve?_cases h).resolve_left fun plain => plain.1 wiki
  cases replaced with
  | box => exact fun n mem => (mem_flatten mem).1

/-- A forest without wiki elements stays as it is, if each of its nodes does. -/
theorem resolve_eq_self {f : Forest} (each : ∀ n ∈ f, n.resolve? = some n) :
    Forest.resolve f = f := by
  induction f with
  | nil => rfl
  | cons n ns ih =>
      rw [Forest.resolve, each n List.mem_cons_self,
        ih fun m mem => each m (List.mem_cons_of_mem _ mem)]
      rfl

theorem resolve?_of_plain (n : Node) : ¬ n.IsWiki → (∀ x, Holds x n.children → ¬ x.IsWiki) →
    n.resolve? = some n := by
  induction n using Node.induction_below with
  | step n ih =>
    intro plain below
    have children : Forest.resolve n.children = n.children :=
      resolve_eq_self fun k mem =>
        ih k (.here mem) (below k (.here mem)) fun x deep => below x (.deeper mem deep)
    cases n with
    | element name attributes cs =>
        rw [resolve?_layout plain]
        exact congrArg (fun cs => some (Node.element name attributes cs)) children
    | _ => simp_all [Node.resolve?, Node.children]

/-! ## The normal form -/

/-- A forest that holds no wiki element at any depth. -/
def Forest.IsResolved (f : Forest) : Prop := ∀ n, Holds n f → ¬ n.IsWiki

theorem resolve_of_isResolved {f : Forest} (h : f.IsResolved) : Forest.resolve f = f :=
  resolve_eq_self fun n mem =>
    resolve?_of_plain n (h n (.here mem)) fun x deep => h x (.deeper mem deep)

theorem isResolved_resolve (f : Forest) : (Forest.resolve f).IsResolved :=
  forall_holds_resolve fun n _ m eq => not_isWiki_of_resolve? n m eq

theorem origin_of_holds_resolve {f : Forest} {kind : Admonition} {parameters : Dictionary}
    {body : Forest} (h : Holds (.directive (.admonition kind) parameters body) (Forest.resolve f)) :
    Origin f kind parameters body := by
  obtain ⟨n, mem, m, eq, place⟩ := holds_resolve h
  refine (origin_of_resolve? n m eq kind parameters body (place.imp_left Eq.symm)).within ?_
  exact fun x held => held.mono (List.cons_subset.2 ⟨mem, List.nil_subset f⟩)

/-- Resolving is complete and stable.

* A resolved forest holds no wiki element, be it in links or in boxes.
* A box that a wiki element becomes holds neither a block nor an element at its top, and
  every other box in a resolved forest was a box before, with the same kind and parameters.
* A forest without wiki elements stays as it is, so that resolving twice is resolving once. -/
theorem resolve_settles (f : Forest) :
    (Forest.resolve f).IsResolved ∧
      (∀ e : Node, e.IsWiki → ∀ kind parameters body,
        e.resolve? = some (.directive (.admonition kind) parameters body) →
          ∀ n ∈ body, n.IsInline) ∧
      (∀ kind parameters body,
        Holds (.directive (.admonition kind) parameters body) (Forest.resolve f) →
          Origin f kind parameters body) ∧
      (f.IsResolved → Forest.resolve f = f) ∧
      Forest.resolve (Forest.resolve f) = Forest.resolve f :=
  ⟨isResolved_resolve f, fun _ wiki _ _ _ => isInline_of_resolve? wiki,
    fun _ _ _ => origin_of_holds_resolve, resolve_of_isResolved,
    resolve_of_isResolved (isResolved_resolve f)⟩

end Wikidown.Document
