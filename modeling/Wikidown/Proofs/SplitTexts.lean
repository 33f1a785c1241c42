/-
# Wikidown.Proofs.SplitTexts -- how text falls into nodes does not show

What a reader of markup makes one text node, another may make two.  `Splits inList f g` says
that `g` is `f` with one text cut in two, at any depth; either half may be blank or empty, and
the cut may fall inside a run of white space.  Directly below a list a text that is not blank is
an item of its own, so there nothing is cut; `inList` says that the forest stands there.

A draft goes on from where a text ends, so the halves are written as the whole is
(`alike_texts`).  What the writer cannot tell apart below a node it cannot tell apart above it
either (`Alike.node`), up to the page: the main statement is `render_of_splits`.
-/
import Mathlib.Logic.Relation
import Wikidown.Proofs.Drafts
import Wikidown.Proofs.Transparency

namespace Wikidown

set_option autoImplicit false

namespace Document

/-- The second forest is the first with one of its texts cut in two.  `inList` says that the
forest is the children of a list; texts among these are left as they are. -/
inductive Forest.Splits : Bool → Forest → Forest → Prop
  /-- The text is the first node. -/
  | here (front back : Text) (ns : Forest) :
      Splits false (.text (front ++ back) :: ns) (.text front :: .text back :: ns)
  /-- The text stands below the first node. -/
  | inside {inList : Bool} (n : Node) {cs : Forest} (ns : Forest)
      (deeper : Splits n.isList n.children cs) : Splits inList (n :: ns) (n.withChildren cs :: ns)
  /-- The text stands behind the first node. -/
  | behind {inList : Bool} (n : Node) {ns ns' : Forest} (later : Splits inList ns ns') :
      Splits inList (n :: ns) (n :: ns')

end Document

namespace Markdown

open Document (Node Forest)

variable {language : Language} {a b : Forest}

/-- The two halves of a text bring a draft to where the whole text does. -/
theorem join_collapse_append (out : Draft) (front back : Text) :
    (out.join (Text.collapse front)).join (Text.collapse back) =
      out.join (Text.collapse (front ++ back)) := by
  rw [Draft.join_collapse out, Draft.join_collapse, Draft.join_collapse]
  exact Draft.collapseFrom_append out front back

/-- Anywhere but in a list, the two halves of a text are written as the whole. -/
theorem alike_texts (front back : Text) (ns : Forest) :
    Alike language false (.text (front ++ back) :: ns) (.text front :: .text back :: ns) where
  write := by
    intro out
    show writeForest language ns (out.join (Text.collapse (front ++ back))) = _
    rw [← join_collapse_append]
    rfl
  text := by
    show front ++ back ++ Forest.textContents ns = front ++ (back ++ Forest.textContents ns)
    exact List.append_assoc ..
  lay := by
    intro _ f
    show layForest language ns ⟨f.parts, f.draft.join (Text.collapse (front ++ back))⟩ = _
    rw [← join_collapse_append]
    rfl
  items := by
    intro inList
    cases inList

/-- The run: two halves at any depth cannot be told from the whole. -/
theorem alike_of_splits {inList : Bool} (h : Forest.Splits inList a b) :
    Alike language inList a b := by
  induction h with
  | here front back ns => exact alike_texts front back ns
  | inside n ns _ ih => exact ih.node.cons _ ns
  | behind n _ ih => exact ih.behind n

/-- Forests that cannot be told apart have the same Markdown. -/
theorem Alike.render_eq (h : Alike language false a b) : render language a = render language b := by
  rw [render, render, h.lay rfl .start]

/-- **How text falls into nodes does not show.**  The Markdown of a forest is the same when one
of its texts, at any depth but not directly below a list, is cut in two at any place. -/
theorem render_of_splits (language : Language) (h : Forest.Splits false a b) :
    render language a = render language b :=
  (alike_of_splits h).render_eq

/-- A list item with a hard break in bold text, whose second line has wide gaps. -/
def gappedItem : Forest :=
  [.list false [.item [.quote [.emphasis .bold
    [.text "a", .lineBreak, .text " \n\tb  \u00a0c"], .text "\n"]]]]

/-- The same with the second line cut inside a gap. -/
def gappedHalves : Forest :=
  [.list false [.item [.quote [.emphasis .bold
    [.text "a", .lineBreak, .text " \n\tb ", .text " \u00a0c"], .text "\n"]]]]

theorem render_gappedItem : Forest.Splits false gappedItem gappedHalves ∧
    render .english gappedItem = render .english gappedHalves ∧
    render .english gappedHalves = "- > **a**  \n  > **b c**".toList := by
  have splits : Forest.Splits false gappedItem gappedHalves :=
    .inside (.list false _) _ <| .inside (.item _) _ <| .inside (.quote _) _ <|
      .inside (.emphasis .bold _) _ <| .behind _ <| .behind _ <| .here " \n\tb " " \u00a0c" _
  exact ⟨splits, render_of_splits .english splits, by decide⟩

/-- So it is after any number of cuts, and of texts that are joined again. -/
theorem render_of_eqvGen (language : Language) (h : Relation.EqvGen (Forest.Splits false) a b) :
    render language a = render language b := by
  induction h with
  | rel a b splits => exact (alike_of_splits splits).render_eq
  | refl a => rfl
  | symm a b _ ih => exact ih.symm
  | trans a b c _ _ first second => exact first.trans second

/-- Directly below a list each half is an item. -/
example : render .english [.list false [.text "ab"]] = "- ab".toList ∧
    render .english [.list false [.text "a", .text "b"]] = "- a\n- b".toList := by
  decide

end Markdown

end Wikidown
