/-
# Wikidown.Language -- the words of the output

The pages that the library writes have headings, field labels and notices of their own.
They are the same set in every language, and nothing else depends on the language.  A tag such
as `zh-CN` names a language by the part before its first hyphen or underscore
(`Language.ofTag?_eq_some_iff`).
-/
import Wikidown.Markdown.Escape
import Wikidown.Document.Node

namespace Wikidown

set_option autoImplicit false

/-- A language of the output. -/
inductive Language where
  | english
  | chinese
  deriving DecidableEq

/-- What a heading or a field is called. -/
inductive Label where
  | pageInformation
  | id
  | space
  | version
  | lastUpdated
  | updatedBy
  | link
  | pageContent
  | comments
  | comment
  | author
  | created
  deriving DecidableEq

namespace Language

open Document (Admonition)

/-- The language that a tag names by its part before the first hyphen or underscore. -/
def ofTag? (tag : Text) : Option Language :=
  let primary := (Text.lower tag).takeWhile fun c => !(c == '-' || c == '_')
  match String.ofList primary with
  | "en" => some english
  | "zh" => some chinese
  | _ => none

/-- What a tag names the language by. -/
def code : Language → Text
  | english => "en"
  | chinese => "zh"

/-- A tag names a language by its part before the first hyphen or underscore, in capitals or in
small letters. -/
def IsNamedBy (l : Language) (tag : Text) : Prop :=
  ∃ primary rest, tag = primary ++ rest ∧ Text.lower primary = l.code ∧
    ∀ c, rest.head? = some c → c = '-' ∨ c = '_'

/-- Letter case does not tell where the part before the first hyphen or underscore ends. -/
theorem takeWhile_lower (tag : Text) :
    (Text.lower tag).takeWhile (fun c => !(c == '-' || c == '_')) =
      Text.lower (tag.takeWhile fun c => !(c == '-' || c == '_')) := by
  have mark (c d : Char) (known : d.isAlpha = false) : (lowerChar c == d) = (c == d) := by
    rw [Bool.eq_iff_iff, beq_iff_eq, beq_iff_eq, lowerChar_eq_iff known]
  have same : (fun c => !(c == '-' || c == '_')) ∘ lowerChar = fun c => !(c == '-' || c == '_') := by
    funext c
    simp only [Function.comp_apply, mark c '-' rfl, mark c '_' rfl]
  rw [Text.lower, List.takeWhile_map, same, Text.lower]

theorem ofTag?_eq_some_iff_takeWhile {tag : Text} {l : Language} :
    ofTag? tag = some l ↔
      Text.lower (tag.takeWhile fun c => !(c == '-' || c == '_')) = l.code := by
  simp only [ofTag?, takeWhile_lower]
  generalize Text.lower (tag.takeWhile fun c => !(c == '-' || c == '_')) = primary
  constructor
  · intro named
    have letters {s : String} (same : String.ofList primary = s) : primary = s.toList := by
      rw [← same, String.toList_ofList]
    split at named <;> cases named
    · next same => exact letters same
    · next same => exact letters same
  · rintro rfl
    cases l <;> rfl

/-- A language is found exactly by the tags that name it. -/
theorem ofTag?_eq_some_iff {tag : Text} {l : Language} : ofTag? tag = some l ↔ l.IsNamedBy tag := by
  rw [ofTag?_eq_some_iff_takeWhile]
  constructor
  · intro code
    refine ⟨_, _, List.takeWhile_append_dropWhile.symm, code, fun c head => ?_⟩
    have ended := List.head?_dropWhile_not (fun c => !(c == '-' || c == '_')) tag
    simp only [head] at ended
    rwa [Bool.not_eq_false', Bool.or_eq_true, beq_iff_eq, beq_iff_eq] at ended
  · rintro ⟨primary, rest, rfl, code, ends⟩
    have letters : ∀ d ∈ l.code, d ≠ '-' ∧ d ≠ '_' := by cases l <;> simp [Language.code]
    have inside : ∀ c ∈ primary, (!(c == '-' || c == '_')) = true := by
      intro c mem
      obtain ⟨noHyphen, noLowLine⟩ := letters (lowerChar c) (code ▸ List.mem_map_of_mem mem)
      rw [ne_eq, lowerChar_eq_iff rfl] at noHyphen noLowLine
      simp [noHyphen, noLowLine]
    have outside : rest.takeWhile (fun c => !(c == '-' || c == '_')) = [] := by
      cases rest with
      | nil => rfl
      | cons c rest => rcases ends c rfl with rfl | rfl <;> rfl
    rw [List.takeWhile_append_of_pos inside, outside, List.append_nil, code]

/-- A tag that names no language finds none. -/
theorem ofTag?_eq_none_iff {tag : Text} : ofTag? tag = none ↔ ∀ l : Language, ¬ l.IsNamedBy tag := by
  simp only [Option.eq_none_iff_forall_ne_some, ne_eq, ofTag?_eq_some_iff]

/-- The word for a heading or a field. -/
def label : Language → Label → Text
  | english, .pageInformation => "Page Information"
  | english, .id => "ID"
  | english, .space => "Space"
  | english, .version => "Version"
  | english, .lastUpdated => "Last Updated"
  | english, .updatedBy => "Updated By"
  | english, .link => "Link"
  | english, .pageContent => "Page Content"
  | english, .comments => "Comments"
  | english, .comment => "Comment"
  | english, .author => "Author"
  | english, .created => "Created"
  | chinese, .pageInformation => "页面信息"
  | chinese, .id => "ID"
  | chinese, .space => "空间"
  | chinese, .version => "版本"
  | chinese, .lastUpdated => "最后修改"
  | chinese, .updatedBy => "修改者"
  | chinese, .link => "链接"
  | chinese, .pageContent => "页面内容"
  | chinese, .comments => "评论"
  | chinese, .comment => "评论"
  | chinese, .author => "创建者"
  | chinese, .created => "创建时间"

/-- What opens a box. -/
def admonition : Language → Admonition → Text
  | english, .info => "ℹ\uFE0F **Info:**"
  | english, .warning => "⚠\uFE0F **Warning:**"
  | chinese, .info => "ℹ\uFE0F **信息:**"
  | chinese, .warning => "⚠\uFE0F **警告:**"

/-- What stands in place of a table. -/
def tableNotice : Language → Text
  | english => "*[Table omitted: manual formatting required]*"
  | chinese => "*[表格内容：需要手动格式化]*"

/-- What stands in place of a macro that cannot be shown. -/
def unsupportedNotice (name : Text) : Language → Text
  | english => "*[Unsupported macro: " ++ name ++ "]*"
  | chinese => "*[不支持的宏: " ++ name ++ "]*"

/-- What stands in place of malformed markup. -/
def malformedNotice (source : Text) : Language → Text
  | english => "*[Unconverted content: " ++ Markdown.codeSpan source ++ "]*"
  | chinese => "*[未转换的内容: " ++ Markdown.codeSpan source ++ "]*"

end Language

end Wikidown
