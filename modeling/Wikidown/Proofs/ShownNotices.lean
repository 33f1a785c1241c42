/-
# Wikidown.Proofs.ShownNotices -- where a page shows what Markdown cannot

A construct that Markdown cannot show leaves its notice in the Markdown of a page, through
resolving and rendering, wherever its `Place` shows.  In the body of a box it leaves nothing
at all unless an emphasis shields it (`notice_shown_iff`).
-/
import Wikidown.Page.Conversion
import Wikidown.Proofs.Notices
import Wikidown.Proofs.Places

namespace Wikidown.Markdown

set_option autoImplicit false

open Document

/-! ## Notices that flattening leaves -/

section

variable (language : Language)

mutual

/-- The notices below an emphasis, which flattening keeps whole. -/
def stressedOf : Node → List Text
  | .emphasis _ cs => allNotices language cs
  | .heading _ cs | .paragraph cs | .list _ cs | .item cs | .quote cs | .element _ _ cs
  | .directive (.admonition _) _ cs => allStressed cs
  | .codeSpan _ | .link _ _ | .directive .code _ _ | .directive (.unsupported _) _ _
  | .lineBreak | .rule | .text _ | .table _ | .malformed _ => []

/-- The notices below an emphasis in a forest. -/
def allStressed : List Node → List Text
  | [] => []
  | n :: ns => stressedOf n ++ allStressed ns

end

end

section

variable {language : Language} {x : Text}

theorem mem_allStressed {ns : Forest} :
    x ∈ allStressed language ns ↔ ∃ n ∈ ns, x ∈ stressedOf language n := by
  induction ns with
  | nil => simp [allStressed]
  | cons n ns ih => simp [allStressed, ih]

theorem stressed_blank {n : Node} (blank : n.isBlankText = true) : x ∉ stressedOf language n := by
  cases n with
  | text content => exact nofun
  | _ => simp [Node.isBlankText] at blank

theorem mem_allStressed_separate {out : Forest} (h : x ∈ allStressed language out) :
    x ∈ allStressed language (separate out) := by
  unfold separate
  split
  · exact h
  · split
    · split
      · exact h
      · exact List.mem_append_right _ h
    · exact List.mem_append_right _ h
  · exact h
  · exact List.mem_append_right _ h

mutual

theorem stressed_flattenOnto_node {out : Forest} :
    (n : Node) → x ∈ stressedOf language n ∨ x ∈ allStressed language out →
      x ∈ allStressed language (n.flattenOnto out)
  | .heading _ cs, h => mem_allStressed_separate (stressed_flattenOnto cs h)
  | .paragraph cs, h => mem_allStressed_separate (stressed_flattenOnto cs h)
  | .list _ cs, h => mem_allStressed_separate (stressed_flattenOnto cs h)
  | .item cs, h => mem_allStressed_separate (stressed_flattenOnto cs h)
  | .quote cs, h => mem_allStressed_separate (stressed_flattenOnto cs h)
  | .directive (.admonition _) _ cs, h => mem_allStressed_separate (stressed_flattenOnto cs h)
  | .directive .code _ cs, h =>
      mem_allStressed_separate (stressed_flattenOnto cs (.inr (h.resolve_left nofun)))
  | .directive (.unsupported _) _ cs, h =>
      mem_allStressed_separate (stressed_flattenOnto cs (.inr (h.resolve_left nofun)))
  | .element _ _ cs, h => stressed_flattenOnto cs h
  | .rule, h => mem_allStressed_separate (h.resolve_left nofun)
  | .table _, h => mem_allStressed_separate (h.resolve_left nofun)
  | .emphasis _ _, h => List.mem_append.2 h
  | .codeSpan _, h => List.mem_append.2 h
  | .link _ _, h => List.mem_append.2 h
  | .lineBreak, h => List.mem_append.2 h
  | .text _, h => List.mem_append.2 h
  | .malformed _, h => List.mem_append.2 h

theorem stressed_flattenOnto {out : Forest} :
    (ns : List Node) → x ∈ allStressed language ns ∨ x ∈ allStressed language out →
      x ∈ allStressed language (Forest.flattenOnto ns out)
  | [], h => h.resolve_left nofun
  | n :: ns, h => by
      refine stressed_flattenOnto ns ?_
      rcases h with mem | before
      · rcases List.mem_append.1 mem with here | later
        · exact .inr (stressed_flattenOnto_node n (.inl here))
        · exact .inl later
      · exact .inr (stressed_flattenOnto_node n (.inr before))

end

/-- What flattening drops at the end holds no notice. -/
theorem stressed_dropWhile {ns : Forest} (h : x ∈ allStressed language ns) :
    x ∈ allStressed language (ns.dropWhile Node.isBlankText) := by
  induction ns with
  | nil => exact h
  | cons n ns ih =>
      rw [List.dropWhile_cons]
      split
      · next blank => exact ih ((List.mem_append.1 h).resolve_left (stressed_blank blank))
      · exact h

theorem stressed_flatten {ns : Forest} (h : x ∈ allStressed language ns) :
    x ∈ allStressed language ns.flatten := by
  have kept : x ∈ allStressed language (Forest.flattenOnto ns []) :=
    stressed_flattenOnto ns (.inl h)
  obtain ⟨n, mem, inside⟩ := mem_allStressed.1 (stressed_dropWhile kept)
  exact mem_allStressed.2 ⟨n, List.mem_reverse.2 mem, inside⟩

mutual

theorem notices_of_stressed_node : (n : Node) → x ∈ stressedOf language n → x ∈ noticesOf language n
  | .heading _ cs, h | .paragraph cs, h | .list _ cs, h | .item cs, h | .quote cs, h
  | .element _ _ cs, h | .directive (.admonition _) _ cs, h => notices_of_stressed cs h
  | .emphasis _ _, h => h
  | .directive (.unsupported _) _ _, h => nomatch h

theorem notices_of_stressed :
    (ns : List Node) → x ∈ allStressed language ns → x ∈ allNotices language ns
  | [], h => nomatch h
  | n :: ns, h => by
      rcases List.mem_append.1 h with here | later
      · exact List.mem_append_left _ (notices_of_stressed_node n here)
      · exact List.mem_append_right _ (notices_of_stressed ns later)

end

theorem mem_allStressed_append {a b : Forest} :
    x ∈ allStressed language (a ++ b) ↔ x ∈ allStressed language a ∨ x ∈ allStressed language b := by
  simp only [mem_allStressed, List.mem_append, or_and_right, exists_or]

/-! ## Notices at a place -/

/-- What stands in place of a construct. -/
def noticeOf (language : Language) : Construct → Text
  | .table _ => language.tableNotice
  | .directive attributes _ _ => language.unsupportedNotice (macroName attributes)

theorem notices_resolved (c : Construct) :
    noticesOf language c.resolved = [noticeOf language c] := by
  cases c <;> rfl

theorem starred_between {opening name : Text} (opens : opening.head? = some '*')
    (openingLine : '\n' ∉ opening) (line : '\n' ∉ name) :
    Starred (opening ++ name ++ [']', '*']) := by
  obtain ⟨rest, rfl⟩ := List.head?_eq_some_iff.1 opens
  refine ⟨⟨rest ++ name ++ [']', '*'], rfl⟩, ⟨'*' :: rest ++ name ++ [']'], by simp⟩, ?_⟩
  simp only [List.mem_append, not_or]
  exact ⟨⟨openingLine, line⟩, by decide⟩

theorem starred_tableNotice (language : Language) : Starred language.tableNotice := by
  cases language with
  | english =>
      have whole : Language.english.tableNotice =
          "*[Table omitted: ".toList ++ "manual formatting required".toList ++ [']', '*'] := by
        decide
      rw [whole]
      exact starred_between (by decide) (by decide) (by decide)
  | chinese =>
      have whole : Language.chinese.tableNotice =
          "*[表格内容：".toList ++ "需要手动格式化".toList ++ [']', '*'] := by
        decide
      rw [whole]
      exact starred_between (by decide) (by decide) (by decide)

theorem starred_unsupportedNotice (language : Language) {name : Text} (line : '\n' ∉ name) :
    Starred (language.unsupportedNotice name) := by
  cases language with
  | english =>
      have whole : Language.english.unsupportedNotice name =
          "*[Unsupported macro: ".toList ++ name ++ "]*".toList := rfl
      rw [whole]
      exact starred_between (by decide) (by decide) line
  | chinese =>
      have whole : Language.chinese.unsupportedNotice name =
          "*[不支持的宏: ".toList ++ name ++ "]*".toList := rfl
      rw [whole]
      exact starred_between (by decide) (by decide) line

theorem starred_noticeOf (language : Language) {c : Construct} (line : c.OneLine) :
    Starred (noticeOf language c) := by
  cases c with
  | table source => exact starred_tableNotice language
  | directive attributes children unknown => exact starred_unsupportedNotice language line

/-- A place that shows has its notice in what the page is resolved to, and keeps it in any
box that has the page for its body if an emphasis stands above it. -/
theorem notice_of_shows (language : Language) (c : Construct) {place : Place}
    (shown : place.shows = true) :
    noticeOf language c ∈ allNotices language (Forest.resolve (place.fill c.node)) ∧
      (place.stressed = true →
        noticeOf language c ∈ allStressed language (Forest.resolve (place.fill c.node))) := by
  induction place with
  | here before after =>
      rw [resolve_here, mem_allNotices_append, allNotices, notices_resolved]
      exact ⟨.inr List.mem_cons_self, fun stressed => by simp [Place.stressed] at stressed⟩
  | within before step inner after ih =>
      rw [resolve_within, mem_allNotices_append, mem_allStressed_append]
      suffices here : noticeOf language c ∈
            noticesOf language (step.resolved (Forest.resolve (inner.fill c.node))) ∧
          ((Place.within before step inner after).stressed = true → noticeOf language c ∈
            stressedOf language (step.resolved (Forest.resolve (inner.fill c.node)))) by
        constructor
        · exact .inr (List.mem_append_left _ here.1)
        · intro stressed
          exact .inr (List.mem_append_left _ (here.2 stressed))
      cases step with
      | emphasis kind => exact ⟨(ih shown).1, fun _ => (ih shown).1⟩
      | box attributes boxed earlier bodyAttributes later =>
          simp only [Place.shows, Bool.and_eq_true, Option.isNone_iff_eq_none] at shown
          obtain ⟨⟨first, stressed⟩, deeper⟩ := shown
          have flat := stressed_flatten ((ih deeper).2 stressed)
          simp only [Step.resolved, first]
          exact ⟨notices_of_stressed _ flat, fun _ => flat⟩
      | _ => exact ih shown

end

end Wikidown.Markdown

namespace Wikidown.Page

open Document
open Markdown (noticeOf render)

/-! ## A name for every length -/

/-- The attributes of a macro with a name of the given length, which no known macro has. -/
def namedAttributes (n : Nat) : Dictionary :=
  Dictionary.empty.insert "ac:name" (List.replicate (n + 5) 'a')

theorem macroName_namedAttributes (n : Nat) :
    macroName (namedAttributes n) = List.replicate (n + 5) 'a' := by
  have letter : isSpace 'a' = false := by decide
  have trimmed : Text.trim (List.replicate (n + 5) 'a') = List.replicate (n + 5) 'a' := by
    simp [Text.trim, Text.trimStart, Text.trimEnd, Text.dropEndWhile, letter]
  have lowered : Text.lower (List.replicate (n + 5) 'a') = List.replicate (n + 5) 'a' := by
    simp [Text.lower, lowerChar]
  simp [macroName, namedAttributes, trimmed, lowered]

theorem namedAttributes_unknown (n : Nat) : macroName (namedAttributes n) ∉ knownMacros := by
  rw [macroName_namedAttributes]
  intro known
  simp [knownMacros, List.replicate_succ] at known

theorem infix_unsupportedNotice (language : Language) (name : Text) :
    name <:+: language.unsupportedNotice name := by
  cases language with
  | english => exact ⟨"*[Unsupported macro: ".toList, "]*".toList, rfl⟩
  | chinese => exact ⟨"*[不支持的宏: ".toList, "]*".toList, rfl⟩

/-- Some macro has a notice that is longer than a given text. -/
theorem exists_notice_not_infix (language : Language) (t : Text) :
    ∃ c : Construct, c.OneLine ∧ ¬ noticeOf language c <:+: t := by
  refine ⟨.directive (namedAttributes t.length) [] (namedAttributes_unknown _), ?_, ?_⟩
  · show '\n' ∉ macroName (namedAttributes t.length)
    rw [macroName_namedAttributes]
    simp
  · intro inside
    have short := ((infix_unsupportedNotice language _).trans inside).length_le
    rw [macroName_namedAttributes, List.length_replicate] at short
    omega

/-! ## Notices in a page -/

/-- **What Markdown cannot show is noticed exactly at the places that show.**  A table or
an unknown macro with a name in one line, at a place of the markup's tree, leaves its
notice in the Markdown if the place shows.  If it does not show, what stands there makes no
difference to the Markdown, and so there is a macro whose notice is missing. -/
theorem notice_shown_iff (language : Language) {markup : Text} {place : Place} {c : Construct}
    (tree : Forest.ofTokens (Markup.tokens markup) = place.fill c.node) (line : c.OneLine) :
    (place.shows = true → noticeOf language c <:+: fragment language markup) ∧
    (place.shows = false → ∀ other : Construct,
      render language (Forest.resolve (place.fill other.node)) = fragment language markup) ∧
    (place.shows = true ↔ ∀ other : Construct, other.OneLine →
      noticeOf language other <:+: render language (Forest.resolve (place.fill other.node))) := by
  have shown : place.shows = true → ∀ other : Construct, other.OneLine →
      noticeOf language other <:+: render language (Forest.resolve (place.fill other.node)) := by
    intro shows other otherLine
    exact Markdown.notice_infix_render (Markdown.starred_noticeOf language otherLine)
      (Markdown.notice_of_shows language other shows).1
  have page : fragment language markup = render language (Forest.resolve (place.fill c.node)) := by
    rw [fragment, forestOfMarkup, tree]
  have same : place.shows = false → ∀ other : Construct,
      render language (Forest.resolve (place.fill other.node)) = fragment language markup := by
    intro hidden other
    rw [page, resolve_fill_congr other c hidden]
  refine ⟨?_, same, ?_⟩
  · intro shows
    rw [page]
    exact shown shows c line
  · constructor
    · exact shown
    · intro all
      by_cases shows : place.shows = true
      · exact shows
      · have hidden : place.shows = false := by simpa using shows
        obtain ⟨other, otherLine, missing⟩ :=
          exists_notice_not_infix language (fragment language markup)
        rw [← same hidden other] at missing
        exact absurd (all other otherLine) missing

/-- The markup of a box with the given body. -/
def infoBox (body : Text) : Text :=
  "<ac:structured-macro ac:name=\"info\">" ++ "<ac:rich-text-body>".toList ++ body
    ++ "</ac:rich-text-body>".toList ++ "</ac:structured-macro>".toList

/-- A box with a table in bold. -/
def boxedTable : Text := infoBox "<b><table/></b>"

/-- A box with a paragraph and an unknown macro behind it. -/
def boxedMacro : Text :=
  infoBox ("<p>x</p>" ++ "<ac:structured-macro ac:name=\"jira\"/>".toList)

theorem tokens_boxedTable :
    Markup.tokens boxedTable =
      [.startTag "ac:structured-macro" (Dictionary.empty.insert "ac:name" "info")
          "<ac:structured-macro ac:name=\"info\">",
        .startTag "ac:rich-text-body" .empty "<ac:rich-text-body>", .startTag "b" .empty "<b>",
        .emptyTag "table" .empty "<table/>", .endTag "b" "</b>",
        .endTag "ac:rich-text-body" "</ac:rich-text-body>",
        .endTag "ac:structured-macro" "</ac:structured-macro>"] := by
  decide +kernel

theorem tokens_boxedMacro :
    Markup.tokens boxedMacro =
      [.startTag "ac:structured-macro" (Dictionary.empty.insert "ac:name" "info")
          "<ac:structured-macro ac:name=\"info\">",
        .startTag "ac:rich-text-body" .empty "<ac:rich-text-body>", .startTag "p" .empty "<p>",
        .text "x" "x", .endTag "p" "</p>",
        .emptyTag "ac:structured-macro" (Dictionary.empty.insert "ac:name" "jira")
          "<ac:structured-macro ac:name=\"jira\"/>",
        .endTag "ac:rich-text-body" "</ac:rich-text-body>",
        .endTag "ac:structured-macro" "</ac:structured-macro>"] := by
  decide +kernel

/-- The body of a box with the given attributes and nothing beside the body. -/
def bodyOf (attributes : Dictionary)
    (boxed : macroName attributes ∈ ["info".toList, "warning".toList]) (inner : Place) : Place :=
  .within [] (.box attributes boxed [] .empty []) inner []

/-- A table in bold is noticed in the box that holds it. -/
theorem boxed_table_shown :
    Forest.ofTokens (Markup.tokens boxedTable) =
        (bodyOf (Dictionary.empty.insert "ac:name" "info") (by decide)
          (.within [] (.emphasis .bold) (.here [] []) [])).fill (Construct.table "<table/>").node ∧
      Language.english.tableNotice <:+: fragment .english boxedTable := by
  have tree : Forest.ofTokens (Markup.tokens boxedTable) =
      (bodyOf (Dictionary.empty.insert "ac:name" "info") (by decide)
        (.within [] (.emphasis .bold) (.here [] []) [])).fill (Construct.table "<table/>").node := by
    rw [tokens_boxedTable]
    rfl
  exact ⟨tree, (notice_shown_iff .english tree trivial).1 (by decide)⟩

/-- An unknown macro behind a paragraph leaves no trace in the box that holds it. -/
theorem boxed_macro_lost :
    Forest.ofTokens (Markup.tokens boxedMacro) =
        (bodyOf (Dictionary.empty.insert "ac:name" "info") (by decide)
          (.here [.paragraph [.text "x"]] [])).fill
            (Construct.directive (Dictionary.empty.insert "ac:name" "jira") [] (by decide)).node ∧
      ¬ Language.english.unsupportedNotice "jira" <:+: fragment .english boxedMacro := by
  have page : fragment .english boxedMacro = "> ℹ\uFE0F **Info:** x" := by
    rw [fragment, forestOfMarkup, tokens_boxedMacro]
    decide
  rw [page, tokens_boxedMacro]
  -- The page is shorter than the notice.
  exact ⟨rfl, fun inside => absurd inside.length_le (by decide)⟩

end Wikidown.Page
