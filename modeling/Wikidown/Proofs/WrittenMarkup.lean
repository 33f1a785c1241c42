/-
# Wikidown.Proofs.WrittenMarkup -- markup, its tokens and the forest that they build

Reading markup is cutting it into tokens and building a forest of them.  `Writes markup
tokens forest` says both at once for a part of the markup, wherever that part stands: the
tokens are spelled, and they attach the nodes of the forest to whatever is open.  There is
one lemma for each way to put markup together (`append`, `text`, `cdata`, `element`), and
`forestOfMarkup_eq` for the markup as a whole.
-/
import Wikidown.Page.Conversion
import Wikidown.Proofs.Linearization
import Wikidown.Proofs.Spelling

namespace Wikidown.Page

set_option autoImplicit false

open Document (Node Forest Builder Wraps)
open Markup (Token Spelled TextsApart Escaped IsTagName cdataOpen cdataClose)

/-! ## What a part of the markup writes -/

/-- The markup spells the tokens, and wherever they stand the tokens build the forest. -/
structure Writes (markup : Text) (tokens : List Token) (forest : Forest) : Prop where
  spelled : ∀ t ∈ tokens, Spelled t
  apart : TextsApart tokens
  source : tokens.flatMap Token.source = markup
  builds : ∀ b : Builder, b.table? = none → tokens.foldl Builder.push b = b.attachAll forest

/-- The nodes of a text: none if it is empty. -/
def textNodes (t : Text) : Forest := if t = [] then [] else [.text t]

theorem textContents_textNodes (t : Text) : Forest.textContents (textNodes t) = t := by
  unfold textNodes
  split
  · next empty =>
    rw [empty]
    rfl
  · exact List.append_nil t

namespace Writes

variable {markup markup' : Text} {tokens tokens' : List Token} {forest forest' : Forest}

theorem append (first : Writes markup tokens forest) (second : Writes markup' tokens' forest')
    (tag : ∀ t, tokens'.head? = some t → t.isText = false) :
    Writes (markup ++ markup') (tokens ++ tokens') (forest ++ forest') where
  spelled := by
    intro t mem
    rcases List.mem_append.1 mem with mem | mem
    · exact first.spelled t mem
    · exact second.spelled t mem
  apart := first.apart.append second.apart tag
  source := by rw [List.flatMap_append, first.source, second.source]
  builds := by
    intro b closed
    rw [List.foldl_append, first.builds b closed, second.builds, Builder.attachAll_append]
    rw [Builder.table?_attachAll]
    exact closed

/-- Text in markup, its characters as they are or as references. -/
theorem text {content written : Text} (escaped : Escaped '<' content written) :
    ∃ tokens, Writes written tokens (textNodes content) := by
  cases content with
  | nil =>
      cases escaped
      exact ⟨[], by simp, trivial, rfl, fun b _ => rfl⟩
  | cons c content =>
      refine ⟨[.text (c :: content) written], ?_, trivial, List.append_nil _, fun b closed => ?_⟩
      · intro t mem
        rw [List.mem_singleton.1 mem]
        exact .text (by simp) escaped
      · exact Builder.push_of_leaf (.text _ (by simp)) closed

/-- A CDATA section; an empty one is a token that makes no node. -/
theorem cdata {content : Text} (closed : ¬ cdataClose <:+: content) :
    ∃ tokens, Writes (cdataOpen ++ content ++ cdataClose) tokens (textNodes content) := by
  refine ⟨[.cdata content (cdataOpen ++ content ++ cdataClose)], ?_, trivial,
    List.append_nil _, fun b noTable => ?_⟩
  · intro t mem
    rw [List.mem_singleton.1 mem]
    exact .cdata closed
  · show b.push _ = b.attachAll (textNodes content)
    cases content with
    | nil =>
        rw [Builder.push_of_closed noTable]
        rfl
    | cons c content => exact Builder.push_of_leaf (.cdata _ (by simp)) noTable

/-- A tag around markup. -/
theorem element {name source source' : Text} {attributes : Dictionary} {wrap : Forest → Node}
    (inner : Writes markup tokens forest) (tag : Wraps name attributes wrap)
    (opens : Spelled (.startTag name attributes source)) (closes : Spelled (.endTag name source')) :
    Writes (source ++ markup ++ source')
      (.startTag name attributes source :: (tokens ++ [.endTag name source'])) [wrap forest] where
  spelled := by
    intro t mem
    rw [List.mem_cons, List.mem_append, List.mem_singleton] at mem
    rcases mem with rfl | mem | rfl
    · exact opens
    · exact inner.spelled t mem
    · exact closes
  apart := by
    have behind : TextsApart (tokens ++ [.endTag name source']) := by
      refine inner.apart.append trivial ?_
      intro t head
      rw [← Option.some.inj head]
      rfl
    cases eq : tokens ++ [.endTag name source'] with
    | nil => trivial
    | cons t ts => exact ⟨.inl rfl, eq ▸ behind⟩
  source := by
    rw [List.flatMap_cons, List.flatMap_append, inner.source, List.flatMap_singleton,
      List.append_assoc]
    rfl
  builds := by
    intro b closed
    obtain ⟨roots, opened, table?⟩ := b
    obtain rfl : table? = none := closed
    rw [List.foldl_cons, Builder.push_startTag tag rfl, List.foldl_append, inner.builds _ rfl,
      Builder.attachAll_opened, List.foldl_cons, Builder.push_endTag tag]
    simp [Builder.attachAll]

theorem forestOfMarkup_eq (h : Writes markup tokens forest) :
    forestOfMarkup markup = Forest.resolve forest := by
  have read : Markup.tokens markup = tokens := by
    rw [Markup.tokens, ← h.source, Markup.pieces_flatMap_source h.spelled h.apart,
      List.filterMap_map]
    exact List.filterMap_some
  have built : Forest.ofTokens tokens = forest := by
    rw [Forest.ofTokens, h.builds _ rfl, Builder.start, Builder.attachAll_roots]
    simp [Builder.finish, Builder.closeTable, Builder.closeMany]
  rw [forestOfMarkup, read, built]

end Writes

/-! ## Tags -/

theorem spelled_startTag {name : Text} (named : IsTagName name) :
    Spelled (.startTag name .empty ('<' :: (name ++ ['>']))) := by
  show Spelled (.startTag name .empty ('<' :: (name ++ ([] ++ [] ++ ['>']))))
  exact .startTag named (Markup.lower_of_isTagName named) (.refl _) .nil rfl

theorem spelled_endTag {name : Text} (named : IsTagName name) :
    Spelled (.endTag name ('<' :: '/' :: (name ++ ['>']))) := by
  have spelled : Spelled (.endTag name ('<' :: '/' :: (name ++ [] ++ ['>']))) :=
    .endTag named (Markup.lower_of_isTagName named) rfl
  rwa [List.append_nil] at spelled

/-- A tag that names what it is for. -/
theorem spelled_named {name value : Text} (named : IsTagName name)
    (plain : Escaped '"' value value) :
    Spelled (.startTag name (Dictionary.empty.insert "ac:name" value)
      ('<' :: (name ++ (" ac:name=\"".toList ++ value ++ ['"', '>'])))) := by
  have one : Markup.SpellsAttribute ("ac:name", value)
      ("ac:name".toList ++ [] ++ '=' :: ([] ++ '"' :: (value ++ ['"']))) :=
    .mk ⟨by decide, by decide, Markup.forall_mem_of_all (by decide)⟩ (by decide) rfl rfl
      (.inl rfl) plain
  have all : Markup.SpellsAttributes [("ac:name", value)]
      (" ".toList ++ ("ac:name".toList ++ [] ++ '=' :: ([] ++ '"' :: (value ++ ['"'])) ++ [])) :=
    .cons (by decide) (by decide) one .nil
  have spelled : Spelled (.startTag name (Dictionary.empty.insert "ac:name" value)
      ('<' :: (name ++ (_ ++ [] ++ ['>'])))) :=
    .startTag named (Markup.lower_of_isTagName named) (.refl _) all rfl
  simpa using spelled

/-- A tag without attributes around markup. -/
theorem Writes.tag {name markup : Text} {wrap : Forest → Node} {tokens : List Token}
    {forest : Forest} (inner : Writes markup tokens forest) (tag : Wraps name .empty wrap)
    (named : IsTagName name) :
    ∃ tokens, Writes (('<' :: (name ++ ['>'])) ++ markup ++ ('<' :: '/' :: (name ++ ['>'])))
      tokens [wrap forest] :=
  ⟨_, inner.element tag (spelled_startTag named) (spelled_endTag named)⟩

end Wikidown.Page
