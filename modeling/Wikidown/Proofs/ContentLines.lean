/-
# Wikidown.Proofs.ContentLines -- the lines of a converted page

The content of a page is laid out from `pageParts`, texts that follow from its record and
its comments: its title, headings, an entry for each field that is known, its body in
Markdown, and its comments by number.  `Written out parts` says that `out` is the lines of
the parts, each ended by a line feed, with blank lines among them; laying out goes part by
part (`Written.append`).

Cleaning loses no line of text, whatever the bodies hold.  It does take a carriage return
for a part of the line feed behind it, so that the lines of the content are those of the
parts if and only if none of them ends with one (`content_lines_iff`).
-/
import Wikidown.Page.Conversion
import Wikidown.Proofs.BlankLines
import Wikidown.Proofs.PageLayout

namespace Wikidown.Page

set_option autoImplicit false

/-! ## The parts of a page -/

/-- The lines of a text that are not blank. -/
def textLines (t : Text) : List Text := (Text.segments t).filter (!Text.isBlank ·)

/-- The entry of a field that is known: present, and not blank. -/
def fieldEntry (language : Language) : Label × Option Text → List Text
  | (label, some value) =>
      if Text.isBlank value then []
      else ["- **" ++ language.label label ++ ":** " ++ Text.trim value]
  | (_, none) => []

/-- What can be known about a page whose site has the given address. -/
def PageRecord.fields (page : PageRecord) (base : Text) : List (Label × Option Text) :=
  [(.id, some page.id), (.space, spaceText? page.spaceName page.spaceKey),
    (.version, if 0 < page.version then some (Nat.toDigits 10 page.version.toNat) else none),
    (.lastUpdated, Timestamp.format? page.lastModified), (.updatedBy, some page.editor),
    (.link, some (webUrl base page.webLink))]

/-- What can be known about a comment. -/
def CommentRecord.fields (c : CommentRecord) : List (Label × Option Text) :=
  [(.author, some c.author), (.created, Timestamp.format? c.timestamp)]

/-- The parts of a comment: its heading, its entries and its body. -/
def CommentRecord.parts (language : Language) (number : Nat) (c : CommentRecord) : List Text :=
  ["### " ++ language.label .comment ++ ' ' :: Nat.toDigits 10 number]
    ++ c.fields.flatMap (fieldEntry language) ++ [fragment language c.body]

/-- The parts of the comments from the given number on. -/
def commentParts (language : Language) (number : Nat) : List CommentRecord → List Text
  | [] => []
  | c :: rest => c.parts language number ++ commentParts language (number + 1) rest

/-- The parts of the section for comments, if there are any. -/
def commentSectionParts (language : Language) (comments : List CommentRecord) : List Text :=
  if comments.isEmpty then []
  else
    ["## " ++ language.label .comments ++ " (" ++ Nat.toDigits 10 comments.length ++ ")"]
      ++ commentParts language 1 comments

/-- The parts of a page and its comments, in the order in which they are shown. -/
def pageParts (options : Options) (page : PageRecord) (comments : List CommentRecord) :
    List Text :=
  let language := options.language
  ["# " ++ Text.trim page.title] ++ ["## " ++ language.label .pageInformation]
    ++ (page.fields options.baseUrl).flatMap (fieldEntry language)
    ++ ["## " ++ language.label .pageContent] ++ [fragment language page.body]
    ++ commentSectionParts language (if options.includeComments then comments else [])

/-! ## Writing parts -/

/-- The text is made of lines, each ended by a line feed; those that are not blank are the
lines of the given parts. -/
def Written (out : Text) (parts : List Text) : Prop :=
  ∃ ls : List Text, out = ls.flatMap (· ++ ['\n']) ∧ (∀ l ∈ ls, '\n' ∉ l) ∧
    ls.filter (!Text.isBlank ·) = parts.flatMap textLines

theorem written_nil : Written [] [] := ⟨[], rfl, by simp, rfl⟩

theorem Written.append {a b : Text} {xs ys : List Text} (ha : Written a xs) (hb : Written b ys) :
    Written (a ++ b) (xs ++ ys) := by
  obtain ⟨ls, rfl, noBreak, text⟩ := ha
  obtain ⟨ms, rfl, noBreak', text'⟩ := hb
  refine ⟨ls ++ ms, by rw [List.flatMap_append], fun l mem => ?_, ?_⟩
  · rcases List.mem_append.1 mem with mem | mem
    · exact noBreak l mem
    · exact noBreak' l mem
  · rw [List.filter_append, text, text', List.flatMap_append]

/-- A text with a line feed behind it. -/
theorem written_text (t : Text) : Written (t ++ ['\n']) [t] := by
  refine ⟨Text.segments t, (Text.flatMap_segments t).symm, ?_, ?_⟩
  · intro l mem
    exact Text.newline_notMem_of_mem_segments mem
  · rw [List.flatMap_singleton]
    rfl

/-- An empty line. -/
theorem written_blank : Written ['\n'] [] := ⟨[[]], rfl, by simp, rfl⟩

theorem written_paragraph (t : Text) : Written (paragraph t) [t] := by
  have both := (written_text t).append written_blank
  rw [List.append_assoc] at both
  exact both

theorem written_lineSection (ts : List Text) : Written (lineSection ts) ts := by
  have lines : Written (ts.map (· ++ ['\n'])).flatten ts := by
    induction ts with
    | nil => exact written_nil
    | cons t ts ih => exact (written_text t).append ih
  have both := lines.append written_blank
  rw [List.append_nil] at both
  exact both

/-! ## Fields -/

theorem nonblank?_eq (t : Text) :
    nonblank? t = if Text.isBlank t then none else some (Text.trim t) := by
  simp only [nonblank?, Text.isEmpty_trim]

theorem fieldLines_eq (language : Language) (fields : List (Label × Option Text)) :
    fieldLines language fields = fields.flatMap (fieldEntry language) := by
  induction fields with
  | nil => rfl
  | cons field fields ih =>
      obtain ⟨label, value?⟩ := field
      unfold fieldLines at ih ⊢
      rw [List.filterMap_cons, List.flatMap_cons, ih]
      cases value? with
      | none => rfl
      | some value =>
          simp only [fieldLine?, fieldEntry, Option.bind_some, nonblank?_eq]
          cases Text.isBlank value <;> rfl

/-- A field has the same entry whether or not its value is trimmed first. -/
theorem fieldEntry_nonblank? (language : Language) (label : Label) (t : Text) :
    fieldEntry language (label, nonblank? t) = fieldEntry language (label, some t) := by
  rw [nonblank?_eq]
  cases blank : Text.isBlank t with
  | true => simp only [if_true, fieldEntry, blank]
  | false =>
      have text : Text.isBlank (Text.trim t) = false := (Text.isBlank_trim t).trans blank
      simp only [Bool.false_eq_true, if_false, fieldEntry, blank, text, Text.trim_trim]

theorem fieldLines_metadata (language : Language) (page : PageRecord) (base : Text) :
    fieldLines language (page.metadata base).fields =
      (page.fields base).flatMap (fieldEntry language) := by
  rw [fieldLines_eq]
  simp only [Metadata.fields, PageRecord.metadata, PageRecord.fields, List.flatMap_cons,
    fieldEntry_nonblank?]
  rfl

theorem fieldLines_render (language : Language) (c : CommentRecord) :
    fieldLines language (c.render language).fields = c.fields.flatMap (fieldEntry language) := by
  rw [fieldLines_eq]
  simp only [RenderedComment.fields, CommentRecord.render, CommentRecord.fields,
    List.flatMap_cons, fieldEntry_nonblank?]

/-! ## The page -/

theorem body_render (language : Language) (c : CommentRecord) :
    (c.render language).body = fragment language c.body := by
  rw [CommentRecord.render]

theorem written_comment (language : Language) (number : Nat) (c : CommentRecord) :
    Written ((c.render language).text language number) (c.parts language number) := by
  have heading := written_paragraph
    ("### " ++ language.label .comment ++ ' ' :: Nat.toDigits 10 number)
  have entries := written_lineSection (c.fields.flatMap (fieldEntry language))
  have body := written_paragraph (fragment language c.body)
  rw [RenderedComment.text, fieldLines_render, body_render, CommentRecord.parts]
  exact (heading.append entries).append body

theorem written_comments (language : Language) (number : Nat) (comments : List CommentRecord) :
    Written (commentTexts language number (comments.map (CommentRecord.render language)))
      (commentParts language number comments) := by
  induction comments generalizing number with
  | nil => exact written_nil
  | cons c comments ih => exact (written_comment language number c).append (ih (number + 1))

theorem written_commentSection (language : Language) (comments : List CommentRecord) :
    Written (commentSection language (comments.map (CommentRecord.render language)))
      (commentSectionParts language comments) := by
  unfold commentSection commentSectionParts
  cases comments with
  | nil => exact written_nil
  | cons c comments =>
      simp only [List.map_cons, List.isEmpty_cons, Bool.false_eq_true, if_false, List.length_cons,
        List.length_map]
      exact (written_paragraph _).append (written_comments language 1 (c :: comments))

/-- Before it is cleaned, a page is the lines of its parts. -/
theorem exists_written (options : Options) (page : PageRecord) (comments : List CommentRecord) :
    ∃ out, Written out (pageParts options page comments) ∧
      assemble options.language (page.metadata options.baseUrl)
          (fragment options.language page.body)
          ((if options.includeComments then comments else []).map
            (CommentRecord.render options.language)) = Markdown.tidy out := by
  refine ⟨_, ?_, rfl⟩
  rw [fieldLines_metadata]
  exact (((((written_paragraph _).append (written_paragraph _)).append
    (written_lineSection _)).append (written_paragraph _)).append
      (written_paragraph _)).append (written_commentSection options.language _)

/-- The lines of text in a clean text are the written ones, each without a carriage return at
its end. -/
theorem textLines_tidy {out : Text} {parts : List Text} (written : Written out parts) :
    textLines (Markdown.tidy out) = (parts.flatMap textLines).map Text.dropReturn := by
  obtain ⟨ls, rfl, noBreak, text⟩ := written
  rw [textLines, Markdown.filter_text_tidy, Text.lines_terminated noBreak, ← text,
    List.filter_map]
  congr 2
  funext l
  exact congrArg (!·) (Text.isBlank_dropReturn l)

/-- A list of lines stays as it is exactly if none of them ends with a carriage return. -/
theorem map_dropReturn_eq_iff (ls : List Text) :
    ls.map Text.dropReturn = ls ↔ ∀ l ∈ ls, l.getLast? ≠ some '\r' := by
  constructor
  · intro same
    apply Text.getLast?_ne_of_count_le
    exact Nat.le_of_eq (by rw [same])
  · exact Text.map_dropReturn_of_plain

/-- **A page shows the lines of its parts.**  A page with an id converts.  The lines of text in
its content are those of its parts, in order, less a carriage return at the end of each; so
they are exactly those lines if and only if none of them ends with a carriage return. -/
theorem content_lines_iff (options : Options) (page : PageRecord) (comments : List CommentRecord)
    (named : Text.isBlank page.id = false) :
    ∃ conversion, convert options page comments = .ok conversion ∧
      textLines conversion.content =
        ((pageParts options page comments).flatMap textLines).map Text.dropReturn ∧
      (textLines conversion.content = (pageParts options page comments).flatMap textLines ↔
        ∀ part ∈ pageParts options page comments, ∀ l ∈ textLines part,
          l.getLast? ≠ some '\r') := by
  obtain ⟨out, written, assembled⟩ := exists_written options page comments
  have lines := textLines_tidy written
  refine ⟨⟨page.metadata options.baseUrl, Markdown.tidy out⟩, ?_, lines, ?_⟩
  · simp only [convert, named, Bool.false_eq_true, if_false, assembled]
  · rw [lines, map_dropReturn_eq_iff]
    simp only [List.mem_flatMap]
    constructor
    · intro ends part mem l line
      exact ends l ⟨part, mem, line⟩
    · rintro ends l ⟨part, mem, line⟩
      exact ends part mem l line

/-- A page by its id and title, with the given body. -/
def pageWith (body : Text) : PageRecord := ⟨"1", "T", [], [], 0, [], [], [], body⟩

/-- A page with a remark about code shows the lines of its parts. -/
theorem content_lines_remark :
    Text.isBlank (pageWith "<p>Hello</p>").id = false ∧
      ∃ conversion, convert .default (pageWith "<p>Hello</p>")
          [⟨none, "x", [], "<pre>a\n\n\nb</pre>"⟩] = .ok conversion ∧
        textLines conversion.content =
          (pageParts .default (pageWith "<p>Hello</p>")
            [⟨none, "x", [], "<pre>a\n\n\nb</pre>"⟩]).flatMap textLines := by
  have hello : fragment .english "<p>Hello</p>" = "Hello" := by decide +kernel
  have parts : pageParts .default (pageWith "<p>Hello</p>")
      [⟨none, "x", [], "<pre>a\n\n\nb</pre>"⟩] =
        ["# T", "## Page Information", "- **ID:** 1", "## Page Content", "Hello", "## Comments (1)",
          "### Comment 1", "- **Author:** x", "```\na\n\n\nb\n```"].map String.toList := by
    simp only [pageParts, Options.default, pageWith, if_true, commentSectionParts, commentParts,
      CommentRecord.parts, List.isEmpty_cons, Bool.false_eq_true, if_false, hello, fragment_pre]
    decide
  obtain ⟨conversion, converted, -, same⟩ := content_lines_iff .default (pageWith "<p>Hello</p>")
    [⟨none, "x", [], "<pre>a\n\n\nb</pre>"⟩] (by decide)
  refine ⟨by decide, conversion, converted, same.2 ?_⟩
  rw [parts]
  decide

/-- A line of code that ends with three carriage returns has two of them in the Markdown of
the body and one in the content of the page. -/
theorem content_drops_return :
    fragment .english "<pre>a&#13;&#13;&#13;&#10;b</pre>" = "```\na\r\r\nb\n```" ∧
      ∃ conversion,
        convert .default (pageWith "<pre>a&#13;&#13;&#13;&#10;b</pre>") [] = .ok conversion ∧
        textLines conversion.content ≠
          (pageParts .default (pageWith "<pre>a&#13;&#13;&#13;&#10;b</pre>") []).flatMap
            textLines := by
  have tokens : Markup.tokens "<pre>a&#13;&#13;&#13;&#10;b</pre>" =
      [.startTag "pre" .empty "<pre>", .text "a\r\r\r\nb" "a&#13;&#13;&#13;&#10;b",
        .endTag "pre" "</pre>"] := by
    decide +kernel
  have code : fragment .english "<pre>a&#13;&#13;&#13;&#10;b</pre>" = "```\na\r\r\nb\n```" := by
    rw [fragment, forestOfMarkup, tokens]
    decide
  refine ⟨code, _, rfl, ?_⟩
  simp only [pageParts, Options.default, pageWith, if_true, code]
  decide

end Wikidown.Page
