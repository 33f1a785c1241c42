/-
# Wikidown.Proofs.Visible -- nodes that show in a line

`shows` reads off a node whether anything but white space is written for it in a line.
Nothing that is written later takes it away again: a draft is blank exactly as long as no
node that shows was put on it (`isBlank_writeNode`), so that a text is blank exactly if none
of its nodes shows (`isBlank_inlineText`).
-/
import Wikidown.Proofs.Drafts
import Wikidown.Proofs.Ink

namespace Wikidown.Markdown

set_option autoImplicit false

open Document (Node Forest Emphasis)

/-! ## What shows -/

mutual

/-- Whether a node leaves anything but white space in a line. -/
def shows : Node → Bool
  | .text content => !Text.isBlank content
  | .codeSpan cs => !Text.isBlank (Forest.textContents cs)
  | .link href cs => !href.isEmpty || showsAny cs
  | .lineBreak | .rule => false
  | .table _ | .malformed _ | .directive .code _ _ | .directive (.unsupported _) _ _ => true
  | .directive (.admonition _) _ cs | .emphasis _ cs | .element _ _ cs | .heading _ cs
  | .paragraph cs | .list _ cs | .item cs | .quote cs => showsAny cs

/-- Whether a node of a forest does. -/
def showsAny : List Node → Bool
  | [] => false
  | n :: ns => shows n || showsAny ns

end

/-! ## Pieces that are not blank -/

theorem isBlank_append (a b : Text) : Text.isBlank (a ++ b) = (Text.isBlank a && Text.isBlank b) :=
  List.all_append

theorem isBlank_reverse (t : Text) : Text.isBlank t.reverse = Text.isBlank t := List.all_reverse

theorem isBlank_collapse (t : Text) : Text.isBlank (Text.collapse t) = Text.isBlank t :=
  isBlank_congr (Text.filter_collapse inked_isVisible t)

theorem isBlank_codeSpan (code : Text) : Text.isBlank (codeSpan code) = false := by
  simp only [codeSpan, ticks, List.replicate_succ]
  split <;> rfl

theorem isBlank_link (t href : Text) : Text.isBlank (link t href) = false := rfl

theorem isBlank_linkTo (href t : Text) :
    Text.isBlank (linkTo href t) = (href.isEmpty && Text.isBlank t) := by
  simp only [linkTo]
  split
  · next empty => simp [empty]
  · next leads => split <;> simp [leads, isBlank_link]

/-- A text is blank between marks exactly if it is blank, since blank lines have no marks. -/
theorem isBlank_wrap (opening closing t : Text) :
    Text.isBlank (wrap opening closing t) = Text.isBlank t := by
  cases blank : Text.isBlank t with
  | false => exact not_isBlank_of_sublist blank (filter_wrap inked_isVisible opening closing t)
  | true => rw [wrap_eq_wrapLines, wrapLines_of_isBlank blank, blank]

/-! ## Drafts -/

/-- A draft, latest character first, is blank if its text is. -/
theorem isBlank_text (out : Draft) : Text.isBlank out.text = Text.isBlank out := isBlank_reverse out

theorem isBlank_put (out : Draft) (piece : Text) :
    Text.isBlank (out.put piece) = (Text.isBlank out && Text.isBlank piece) := by
  rw [Draft.put, isBlank_append, isBlank_reverse, Bool.and_comm]

theorem isBlank_dropWhile_space (t : Text) :
    Text.isBlank (t.dropWhile (· == ' ')) = Text.isBlank t :=
  isBlank_congr (Text.filter_dropWhile (fun c eq => by rw [beq_iff_eq.1 eq]; decide) t)

theorem isBlank_join (out : Draft) (piece : Text) :
    Text.isBlank (out.join piece) = (Text.isBlank out && Text.isBlank piece) := by
  rw [Draft.join_eq, isBlank_put]
  split
  · rw [isBlank_dropWhile_space]
  · rfl

theorem isBlank_breakLine (out : Draft) : Text.isBlank out.breakLine = Text.isBlank out := by
  rw [← isBlank_dropWhile_space out]
  rfl

/-- A struck text that takes back two tildes is not blank itself. -/
theorem isBlank_emphasize (out : Draft) (kind : Emphasis) (t : Text) :
    Text.isBlank (out.emphasize kind t) = (Text.isBlank out && Text.isBlank t) := by
  unfold Draft.emphasize
  split
  · next before =>
    split
    · next goesOn =>
      have text : Text.isBlank t = false := by
        simp only [continuesStrike, Bool.and_eq_true] at goesOn
        cases t with
        | nil => simp at goesOn
        | cons c t => simp_all [Text.isBlank]
      rw [isBlank_put, isBlank_wrap, text, Bool.and_false, Bool.and_false]
    · rw [isBlank_join, isBlank_wrap]
  · rw [isBlank_join, isBlank_wrap]

/-! ## Writing -/

section

variable (language : Language)

theorem isBlank_tableNotice : Text.isBlank language.tableNotice = false := by
  cases language <;> decide

theorem isBlank_unsupportedNotice (name : Text) :
    Text.isBlank (language.unsupportedNotice name) = false := by
  cases language <;> rfl

theorem isBlank_malformedNotice (source : Text) :
    Text.isBlank (language.malformedNotice source) = false := by
  cases language <;> rfl

mutual

theorem isBlank_writeNode : (n : Node) → (out : Draft) →
    Text.isBlank (writeNode language n out) = (Text.isBlank out && !shows n)
  | .text content, out => by
      simp only [writeNode, shows, isBlank_join, isBlank_collapse, Bool.not_not]
  | .emphasis kind cs, out => by
      simp only [writeNode, shows, isBlank_emphasize, isBlank_text, isBlank_writeForest cs]
      rfl
  | .codeSpan cs, out => by
      simp only [writeNode, shows, isBlank_collapse, Bool.not_not]
      split
      · next blank => rw [blank, Bool.and_true]
      · next text => rw [isBlank_join, isBlank_codeSpan, Bool.eq_false_iff.2 text]
  | .link href cs, out => by
      simp only [writeNode, shows, isBlank_join, isBlank_linkTo, Text.isBlank_trim, isBlank_text,
        isBlank_writeForest cs, Bool.not_or, Bool.not_not]
      rfl
  | .lineBreak, out => by
      simp only [writeNode, shows, isBlank_breakLine, Bool.not_false, Bool.and_true]
  | .element _ _ cs, out => by simp only [writeNode, shows, isBlank_writeForest cs]
  | .malformed source, out => by
      simp only [writeNode, shows, isBlank_join, isBlank_malformedNotice, Bool.not_true]
  | .table _, out => by
      simp only [writeNode, shows, isBlank_join, isBlank_tableNotice, Bool.not_true]
  | .directive .code _ cs, out => by
      simp only [writeNode, shows, isBlank_join, isBlank_codeSpan, Bool.not_true]
  | .directive (.unsupported name) _ _, out => by
      simp only [writeNode, shows, isBlank_join, isBlank_unsupportedNotice, Bool.not_true]
  | .directive (.admonition _) _ cs, out => by simp only [writeNode, shows, isBlank_writeForest cs]
  | .rule, out => by
      simp only [writeNode, shows, isBlank_join, Bool.not_false]
      rfl
  | .heading _ cs, out | .paragraph cs, out | .list _ cs, out | .item cs, out
  | .quote cs, out => by
      have space : Text.isBlank [' '] = true := rfl
      simp only [writeNode, shows, isBlank_join, isBlank_writeForest cs, space, Bool.and_true]

theorem isBlank_writeForest : (ns : List Node) → (out : Draft) →
    Text.isBlank (writeForest language ns out) = (Text.isBlank out && !showsAny ns)
  | [], out => by simp only [writeForest, showsAny, Bool.not_false, Bool.and_true]
  | n :: ns, out => by
      simp only [writeForest, showsAny, isBlank_writeForest ns, isBlank_writeNode n,
        Bool.not_or, Bool.and_assoc]

end

/-- A text in a line is blank exactly if none of its nodes shows. -/
theorem isBlank_inlineText (nodes : Forest) :
    Text.isBlank (inlineText language nodes) = !showsAny nodes := by
  rw [inlineText, isBlank_text, isBlank_writeForest]
  rfl

end

end Wikidown.Markdown
