/-
# Wikidown.Proofs.PageLayout -- the blocks of a page

A page is a list of blocks: its title, headings and fields, and between them the bodies,
which arrive in Markdown.  `assemble` writes the blocks with a blank line between each two
and cleans the whole page once more.  The bodies come through that unchanged, and the scan
of the page falls into the scans of its blocks, if and only if no line of a body ends with
a carriage return and no body leaves a fence open that a later body closes
(`assemble_eq_layout_iff`).
-/
import Wikidown.Page.Conversion
import Wikidown.Proofs.Tidied

namespace Wikidown.Page

set_option autoImplicit false

open Markdown (Scan Apart Worded document tidyLines tick)

/-! ## Blocks -/

/-- The blocks of a comment, each as its lines: its heading, its fields and its body. -/
def RenderedComment.blocks (language : Language) (number : Nat) (c : RenderedComment) :
    List (List Text) :=
  [["### " ++ language.label .comment ++ ' ' :: Nat.toDigits 10 number],
    fieldLines language c.fields, Text.segments c.body]

/-- The blocks of the comments from the given number on. -/
def commentBlocks (language : Language) (number : Nat) : List RenderedComment → List (List Text)
  | [] => []
  | c :: rest => c.blocks language number ++ commentBlocks language (number + 1) rest

/-- The heading over the comments and their blocks, if there are any. -/
def commentSectionBlocks (language : Language) (comments : List RenderedComment) :
    List (List Text) :=
  if comments.isEmpty then []
  else
    ["## " ++ language.label .comments ++ " (" ++ Nat.toDigits 10 comments.length ++ ")"]
      :: commentBlocks language 1 comments

/-- The blocks of a page. -/
def pageBlocks (language : Language) (m : Metadata) (body : Text)
    (comments : List RenderedComment) : List (List Text) :=
  ["# " ++ Text.trim m.title] :: ["## " ++ language.label .pageInformation]
    :: fieldLines language m.fields :: ["## " ++ language.label .pageContent]
    :: Text.segments body :: commentSectionBlocks language comments

/-- The blocks that are not empty, with a blank line between each two. -/
def layout (blocks : List (List Text)) : Text :=
  List.intercalate ['\n', '\n'] ((blocks.map Text.joinLines).filter (!·.isEmpty))

/-- The bodies of a page, its own and those of its comments. -/
def bodies (body : Text) (comments : List RenderedComment) : List Text :=
  body :: comments.map RenderedComment.body

/-- The page as it is written before it is cleaned. -/
def rawPage (language : Language) (m : Metadata) (body : Text)
    (comments : List RenderedComment) : Text :=
  paragraph ("# " ++ Text.trim m.title)
    ++ paragraph ("## " ++ language.label .pageInformation)
    ++ lineSection (fieldLines language m.fields)
    ++ paragraph ("## " ++ language.label .pageContent)
    ++ paragraph body
    ++ commentSection language comments

/-! ## The texts of a record -/

/-- The texts that a page shows about itself. -/
def Metadata.texts (m : Metadata) : List Text :=
  [m.id, m.title, m.spaceKey, m.spaceName, m.webUrl] ++ m.lastUpdated?.toList
    ++ m.updatedBy?.toList

/-- The texts that a comment shows about itself. -/
def RenderedComment.texts (c : RenderedComment) : List Text := c.author?.toList ++ c.created?.toList

/-- A text without line feeds and backticks. -/
structure Plain (t : Text) : Prop where
  noBreak : '\n' ∉ t
  noTick : tick ∉ t

instance (t : Text) : Decidable (Plain t) :=
  decidable_of_iff ('\n' ∉ t ∧ tick ∉ t) ⟨fun h => ⟨h.1, h.2⟩, fun h => ⟨h.noBreak, h.noTick⟩⟩

/-- A plain text that can stand at the end of a line. -/
structure Ending (t : Text) : Prop extends Plain t where
  noReturn : t.getLast? ≠ some '\r'

/-- A line that the page itself writes. -/
structure Furniture (l : Text) : Prop extends Ending l where
  text : Text.isBlank l = false

theorem Plain.append {a b : Text} (ha : Plain a) (hb : Plain b) : Plain (a ++ b) where
  noBreak := by simp [ha.noBreak, hb.noBreak]
  noTick := by simp [ha.noTick, hb.noTick]

theorem Ending.append {a b : Text} (ha : Ending a) (hb : Ending b) : Ending (a ++ b) where
  toPlain := ha.toPlain.append hb.toPlain
  noReturn := by
    rw [List.getLast?_append]
    cases last : b.getLast? with
    | none => exact ha.noReturn
    | some c => simpa [last] using hb.noReturn

theorem Plain.trim {t : Text} (h : Plain t) : Ending (Text.trim t) where
  noBreak := fun mem => h.noBreak ((Text.isInfix_trim t).subset mem)
  noTick := fun mem => h.noTick ((Text.isInfix_trim t).subset mem)
  noReturn := fun last => by simpa [isSpace] using Text.isSpace_getLast?_trim last

theorem ending_label (language : Language) (label : Label) : Ending (language.label label) := by
  cases language <;> cases label <;> exact ⟨⟨by decide, by decide⟩, by decide⟩

theorem ending_digits (n : Nat) : Ending (Nat.toDigits 10 n) := by
  have digit : ∀ c ∈ Nat.toDigits 10 n, c.isDigit = true := fun c hc =>
    Nat.isDigit_of_mem_toDigits (by decide) (by decide) hc
  refine ⟨⟨fun h => ?_, fun h => ?_⟩, fun h => ?_⟩
  · exact absurd (digit _ h) (by decide)
  · exact absurd (digit _ h) (by decide)
  · exact absurd (digit _ (List.mem_of_getLast? h)) (by decide)

/-- What is kept of a field is what it holds, trimmed. -/
theorem ending_of_nonblank? {t value : Text} (plain : Plain t) (h : nonblank? t = some value) :
    Ending value ∧ value ≠ [] := by
  simp only [nonblank?] at h
  split at h
  · simp at h
  · next filled =>
    obtain rfl := Option.some.inj h
    exact ⟨plain.trim, by simpa using filled⟩

/-! ## Furniture -/

/-- A line that starts with a visible character. -/
theorem furniture_of_visible {c : Char} {l : Text} (visible : isSpace c = false)
    (line : Ending (c :: l)) : Furniture (c :: l) where
  toEnding := line
  text := by simp [Text.isBlank, visible]

theorem furniture_title {t : Text} (plain : Plain t) : Furniture ("# " ++ Text.trim t) := by
  have mark : Ending "# " := ⟨⟨by decide, by decide⟩, by decide⟩
  exact furniture_of_visible (by decide) (mark.append plain.trim)

theorem furniture_heading (language : Language) (label : Label) :
    Furniture ("## " ++ language.label label) := by
  have mark : Ending "## " := ⟨⟨by decide, by decide⟩, by decide⟩
  exact furniture_of_visible (by decide) (mark.append (ending_label language label))

theorem furniture_comments (language : Language) (number : Nat) :
    Furniture ("## " ++ language.label .comments ++ " (" ++ Nat.toDigits 10 number ++ ")") := by
  have mark : Ending "## " := ⟨⟨by decide, by decide⟩, by decide⟩
  have opening : Ending " (" := ⟨⟨by decide, by decide⟩, by decide⟩
  have closing : Ending ")" := ⟨⟨by decide, by decide⟩, by decide⟩
  exact furniture_of_visible (by decide)
    ((((mark.append (ending_label language .comments)).append opening).append
      (ending_digits number)).append closing)

theorem furniture_comment (language : Language) (number : Nat) :
    Furniture ("### " ++ language.label .comment ++ ' ' :: Nat.toDigits 10 number) := by
  have mark : Ending "### " := ⟨⟨by decide, by decide⟩, by decide⟩
  have space : Ending " " := ⟨⟨by decide, by decide⟩, by decide⟩
  exact furniture_of_visible (by decide)
    ((mark.append (ending_label language .comment)).append (space.append (ending_digits number)))

/-- The lines of plain fields are furniture. -/
theorem furniture_of_mem_fieldLines {language : Language} {fields : List (Label × Option Text)}
    (plain : ∀ label t, (label, some t) ∈ fields → Plain t) {l : Text}
    (h : l ∈ fieldLines language fields) : Furniture l := by
  obtain ⟨⟨label, value?⟩, mem, line⟩ := List.mem_filterMap.1 h
  obtain ⟨value, found, rfl⟩ := Option.map_eq_some_iff.1 line
  obtain ⟨t, rfl, kept⟩ := Option.bind_eq_some_iff.1 found
  obtain ⟨ending, -⟩ := ending_of_nonblank? (plain label t mem) kept
  have mark : Ending "- **" := ⟨⟨by decide, by decide⟩, by decide⟩
  have colon : Ending ":** " := ⟨⟨by decide, by decide⟩, by decide⟩
  exact furniture_of_visible (by decide)
    (((mark.append (ending_label language label)).append colon).append ending)

theorem plain_spaceText? {name key t : Text} (hn : Plain name) (hk : Plain key)
    (h : spaceText? name key = some t) : Plain t := by
  unfold spaceText? at h
  cases n : nonblank? name with
  | none =>
      cases k : nonblank? key with
      | none => simp [n, k] at h
      | some shown =>
          obtain rfl : shown = t := by simpa [n, k] using h
          exact (ending_of_nonblank? hk k).1.toPlain
  | some shown =>
      have first := (ending_of_nonblank? hn n).1.toPlain
      cases k : nonblank? key with
      | none =>
          obtain rfl : shown = t := by simpa [n, k] using h
          exact first
      | some second =>
          obtain rfl : shown ++ (" (" ++ second ++ ")") = t := by simpa [n, k] using h
          have opening : Plain " (" := ⟨by decide, by decide⟩
          have closing : Plain ")" := ⟨by decide, by decide⟩
          exact first.append ((opening.append (ending_of_nonblank? hk k).1.toPlain).append closing)

theorem furniture_pageFields {language : Language} {m : Metadata} (plain : ∀ t ∈ m.texts, Plain t)
    {l : Text} (h : l ∈ fieldLines language m.fields) : Furniture l := by
  refine furniture_of_mem_fieldLines (fun label t mem => ?_) h
  simp only [Metadata.texts] at plain
  simp only [Metadata.fields, List.mem_cons, Prod.mk.injEq, List.not_mem_nil, or_false] at mem
  rcases mem with ⟨-, eq⟩ | ⟨-, eq⟩ | ⟨-, eq⟩ | ⟨-, eq⟩ | ⟨-, eq⟩ | ⟨-, eq⟩
  · exact plain t (by simp_all)
  · exact plain_spaceText? (plain m.spaceName (by simp)) (plain m.spaceKey (by simp)) eq.symm
  · unfold versionText? at eq
    split at eq
    · obtain rfl := Option.some.inj eq
      exact (ending_digits _).toPlain
    · simp at eq
  · exact plain t (by simp [← eq])
  · exact plain t (by simp [← eq])
  · exact plain t (by simp_all)

theorem furniture_commentFields {language : Language} {c : RenderedComment}
    (plain : ∀ t ∈ c.texts, Plain t) {l : Text} (h : l ∈ fieldLines language c.fields) :
    Furniture l := by
  refine furniture_of_mem_fieldLines (fun label t mem => ?_) h
  simp only [RenderedComment.fields, List.mem_cons, Prod.mk.injEq, List.not_mem_nil,
    or_false] at mem
  apply plain t
  rcases mem with ⟨-, eq⟩ | ⟨-, eq⟩ <;> simp [RenderedComment.texts, ← eq]

/-! ## The blocks of a page and its bodies -/

section

variable {language : Language} {m : Metadata} {body : Text} {comments : List RenderedComment}

theorem mem_commentBlocks {number : Nat} (plain : ∀ c ∈ comments, ∀ t ∈ c.texts, Plain t)
    {b : List Text} (h : b ∈ commentBlocks language number comments) :
    (∀ l ∈ b, Furniture l) ∨ ∃ c ∈ comments, b = Text.segments c.body := by
  induction comments generalizing number with
  | nil => simp [commentBlocks] at h
  | cons c comments ih =>
      simp only [commentBlocks, RenderedComment.blocks, List.cons_append, List.nil_append,
        List.mem_cons] at h
      rcases h with rfl | rfl | rfl | h
      · exact .inl fun l hl => List.mem_singleton.1 hl ▸ furniture_comment language number
      · exact .inl fun l hl => furniture_commentFields (plain c List.mem_cons_self) hl
      · exact .inr ⟨c, List.mem_cons_self, rfl⟩
      · apply (ih (fun d hd => plain d (List.mem_cons_of_mem _ hd)) h).imp id
        rintro ⟨d, hd, rfl⟩
        exact ⟨d, List.mem_cons_of_mem _ hd, rfl⟩

theorem mem_commentSectionBlocks (plain : ∀ c ∈ comments, ∀ t ∈ c.texts, Plain t)
    {b : List Text} (h : b ∈ commentSectionBlocks language comments) :
    (∀ l ∈ b, Furniture l) ∨ ∃ c ∈ comments, b = Text.segments c.body := by
  unfold commentSectionBlocks at h
  split at h
  · simp at h
  · rcases List.mem_cons.1 h with rfl | h
    · exact .inl fun l hl => List.mem_singleton.1 hl ▸ furniture_comments language _
    · exact mem_commentBlocks plain h

/-- A block of a page is furniture or one of its bodies. -/
theorem mem_pageBlocks (plain : ∀ t ∈ m.texts, Plain t)
    (plainComments : ∀ c ∈ comments, ∀ t ∈ c.texts, Plain t) {b : List Text}
    (h : b ∈ pageBlocks language m body comments) :
    (∀ l ∈ b, Furniture l) ∨ ∃ t ∈ bodies body comments, b = Text.segments t := by
  simp only [pageBlocks, List.mem_cons] at h
  have title : Plain m.title := plain m.title (by simp [Metadata.texts])
  rcases h with rfl | rfl | rfl | rfl | rfl | h
  · exact .inl fun l hl => List.mem_singleton.1 hl ▸ furniture_title title
  · exact .inl fun l hl => List.mem_singleton.1 hl ▸ furniture_heading language .pageInformation
  · exact .inl fun l hl => furniture_pageFields plain hl
  · exact .inl fun l hl => List.mem_singleton.1 hl ▸ furniture_heading language .pageContent
  · exact .inr ⟨body, List.mem_cons_self, rfl⟩
  · apply (mem_commentSectionBlocks plainComments h).imp id
    rintro ⟨c, hc, rfl⟩
    exact ⟨c.body, List.mem_cons_of_mem _ (List.mem_map_of_mem hc), rfl⟩

theorem segments_mem_commentBlocks {number : Nat} {c : RenderedComment} (h : c ∈ comments) :
    Text.segments c.body ∈ commentBlocks language number comments := by
  induction comments generalizing number with
  | nil => simp at h
  | cons d comments ih =>
      rw [commentBlocks, List.mem_append]
      rcases List.mem_cons.1 h with rfl | h
      · exact .inl (by simp [RenderedComment.blocks])
      · exact .inr (ih h)

theorem segments_mem_commentSectionBlocks {c : RenderedComment} (h : c ∈ comments) :
    Text.segments c.body ∈ commentSectionBlocks language comments := by
  have some : comments.isEmpty = false := by
    cases comments with
    | nil => simp at h
    | cons d comments => rfl
  simp only [commentSectionBlocks, some]
  exact List.mem_cons_of_mem _ (segments_mem_commentBlocks h)

/-- Every body is a block of the page. -/
theorem segments_mem_pageBlocks {t : Text} (h : t ∈ bodies body comments) :
    Text.segments t ∈ pageBlocks language m body comments := by
  simp only [pageBlocks, List.mem_cons]
  rcases List.mem_cons.1 h with rfl | h
  · simp
  · obtain ⟨c, hc, rfl⟩ := List.mem_map.1 h
    simp [segments_mem_commentSectionBlocks hc]

/-! ## No block meddles with another -/

/-- Furniture closes no fence that another block leaves open. -/
theorem unclosed_of_furniture {a b : List Text} (furniture : ∀ l ∈ b, Furniture l) :
    ∀ fence ∈ Scan.start.looseFences a, b.any fence.isClosedBy = false := by
  intro fence loose
  obtain ⟨l, -, opens⟩ := Scan.exists_opening loose
  have enough := Markdown.Fence.three_le_ticks opens
  rw [List.any_eq_false]
  intro l hl
  have still : fence.isClosedBy l = false :=
    Markdown.Fence.isClosedBy_of_notMem (by omega) (furniture l hl).noTick
  simp [still]

/-- Furniture leaves no fence open. -/
theorem apart_cons_of_furniture {b : List Text} (furniture : ∀ l ∈ b, Furniture l)
    {blocks : List (List Text)} : Apart (b :: blocks) ↔ Apart blocks := by
  have words : ∀ l ∈ b, Worded l := fun l hl => ⟨(furniture l hl).text, (furniture l hl).noTick⟩
  have none := (Scan.keepAll_worded (.inl rfl) words).2
  simp [Apart, List.pairwise_cons, none]

theorem apart_commentBlocks_iff {number : Nat}
    (plain : ∀ c ∈ comments, ∀ t ∈ c.texts, Plain t) :
    Apart (commentBlocks language number comments) ↔
      Apart (comments.map fun c => Text.segments c.body) := by
  induction comments generalizing number with
  | nil => rfl
  | cons c comments ih =>
      have later : ∀ d ∈ comments, ∀ t ∈ d.texts, Plain t :=
        fun d hd => plain d (List.mem_cons_of_mem _ hd)
      simp only [commentBlocks, RenderedComment.blocks, List.cons_append, List.nil_append,
        List.map_cons]
      rw [apart_cons_of_furniture, apart_cons_of_furniture, Apart, Apart, List.pairwise_cons,
        List.pairwise_cons]
      · refine and_congr ⟨fun h b hb => ?_, fun h b hb => ?_⟩ (ih later)
        · obtain ⟨d, hd, rfl⟩ := List.mem_map.1 hb
          exact h _ (segments_mem_commentBlocks hd)
        · rcases mem_commentBlocks later hb with furniture | ⟨d, hd, rfl⟩
          · exact unclosed_of_furniture furniture
          · exact h _ (List.mem_map_of_mem hd)
      · exact fun l hl => furniture_commentFields (plain c List.mem_cons_self) hl
      · exact fun l hl => List.mem_singleton.1 hl ▸ furniture_comment language number

theorem apart_commentSectionBlocks_iff (plain : ∀ c ∈ comments, ∀ t ∈ c.texts, Plain t) :
    Apart (commentSectionBlocks language comments) ↔
      Apart (comments.map fun c => Text.segments c.body) := by
  unfold commentSectionBlocks
  split
  · next none =>
    rw [List.isEmpty_iff.1 none]
    rfl
  · rw [apart_cons_of_furniture, apart_commentBlocks_iff plain]
    exact fun l hl => List.mem_singleton.1 hl ▸ furniture_comments language _

/-- No block meddles with another exactly if no body meddles with another body. -/
theorem apart_pageBlocks_iff (plain : ∀ t ∈ m.texts, Plain t)
    (plainComments : ∀ c ∈ comments, ∀ t ∈ c.texts, Plain t) :
    Apart (pageBlocks language m body comments) ↔
      Apart ((bodies body comments).map Text.segments) := by
  have title : Plain m.title := plain m.title (by simp [Metadata.texts])
  simp only [pageBlocks, bodies, List.map_cons, List.map_map]
  rw [apart_cons_of_furniture, apart_cons_of_furniture, apart_cons_of_furniture,
    apart_cons_of_furniture, Apart, Apart, List.pairwise_cons, List.pairwise_cons]
  · refine and_congr ⟨fun h b hb => ?_, fun h b hb => ?_⟩
      (apart_commentSectionBlocks_iff plainComments)
    · obtain ⟨c, hc, rfl⟩ := List.mem_map.1 hb
      exact h _ (segments_mem_commentSectionBlocks hc)
    · rcases mem_commentSectionBlocks plainComments hb with furniture | ⟨c, hc, rfl⟩
      · exact unclosed_of_furniture furniture
      · exact h _ (List.mem_map_of_mem hc)
  · exact fun l hl => List.mem_singleton.1 hl ▸ furniture_heading language .pageContent
  · exact fun l hl => furniture_pageFields plain hl
  · exact fun l hl => List.mem_singleton.1 hl ▸ furniture_heading language .pageInformation
  · exact fun l hl => List.mem_singleton.1 hl ▸ furniture_title title

/-! ## The lines of the page -/

theorem paragraph_eq (t : Text) :
    paragraph t = (Text.segments t ++ [[]]).flatMap (· ++ ['\n']) := by
  rw [List.flatMap_append, Text.flatMap_segments]
  simp [paragraph]

theorem paragraph_line {l : Text} (h : '\n' ∉ l) :
    paragraph l = ([l] ++ [[]]).flatMap (· ++ ['\n']) := by
  rw [paragraph_eq, Text.segments_of_notMem h]

theorem lineSection_eq (ls : List Text) :
    lineSection ls = (ls ++ [[]]).flatMap (· ++ ['\n']) := by
  simp [lineSection, List.flatMap_def]

theorem flatMap_document_cons (b : List Text) (blocks : List (List Text)) :
    (document (b :: blocks)).flatMap (· ++ ['\n']) =
      (b ++ [[]]).flatMap (· ++ ['\n']) ++ (document blocks).flatMap (· ++ ['\n']) := by
  rw [Markdown.document_cons, List.flatMap_append]

theorem commentTexts_eq (number : Nat) :
    commentTexts language number comments =
      (document (commentBlocks language number comments)).flatMap (· ++ ['\n']) := by
  induction comments generalizing number with
  | nil => rfl
  | cons c comments ih =>
      have heading := paragraph_line (furniture_comment language number).noBreak
      rw [commentTexts, RenderedComment.text, heading, lineSection_eq, paragraph_eq c.body, ih]
      simp only [commentBlocks, RenderedComment.blocks, List.cons_append, List.nil_append,
        flatMap_document_cons, List.append_assoc]

/-- The page is written as the document of its blocks, each line with a line feed. -/
theorem rawPage_eq (plain : ∀ t ∈ m.texts, Plain t) :
    rawPage language m body comments =
      (document (pageBlocks language m body comments)).flatMap (· ++ ['\n']) := by
  have title := paragraph_line
    (furniture_title (plain m.title (by simp [Metadata.texts]))).noBreak
  have information := paragraph_line (furniture_heading language .pageInformation).noBreak
  have content := paragraph_line (furniture_heading language .pageContent).noBreak
  have remarks : commentSection language comments =
      (document (commentSectionBlocks language comments)).flatMap (· ++ ['\n']) := by
    have heading := paragraph_line (furniture_comments language comments.length).noBreak
    cases none : comments.isEmpty with
    | true => simp only [commentSection, commentSectionBlocks, none, if_true]; rfl
    | false =>
        simp only [commentSection, commentSectionBlocks, none, Bool.false_eq_true, if_false]
        rw [heading, commentTexts_eq, flatMap_document_cons]
  rw [rawPage, title, information, content, remarks, lineSection_eq, paragraph_eq body]
  simp only [pageBlocks, flatMap_document_cons, List.append_assoc]

/-- A reader's lines of the page: those of its blocks, each without a carriage return at
its end. -/
theorem lines_rawPage (plain : ∀ t ∈ m.texts, Plain t)
    (plainComments : ∀ c ∈ comments, ∀ t ∈ c.texts, Plain t) :
    Text.lines (rawPage language m body comments) =
      (document (pageBlocks language m body comments)).map Text.dropReturn := by
  rw [rawPage_eq plain]
  apply Text.lines_terminated
  intro l hl
  obtain ⟨b, hb, mem⟩ := List.mem_flatMap.1 hl
  rcases List.mem_append.1 mem with mem | mem
  · rcases mem_pageBlocks plain plainComments hb with furniture | ⟨t, -, rfl⟩
    · exact (furniture l mem).noBreak
    · exact Text.newline_notMem_of_mem_segments mem
  · rw [List.mem_singleton.1 mem]
    simp

/-! ## Cleaning the page -/

/-- A fragment that is cleaned once more stays as it is. -/
theorem tidyLines_segments_fragment (markup : Text) :
    tidyLines .start (Text.segments (fragment language markup)) =
      if (fragment language markup).isEmpty then []
      else Text.segments (fragment language markup) := by
  obtain ⟨t, whole⟩ : ∃ t, fragment language markup = Markdown.tidy t := ⟨_, rfl⟩
  rw [whole]
  by_cases none : tidyLines .start (Text.lines t) = []
  · simp [Markdown.tidy, none, Text.joinLines, tidyLines, Text.isBlank]
  · split
    · next empty =>
      rw [List.isEmpty_iff.1 empty]
      rfl
    · rw [Markdown.segments_tidy none, Markdown.tidyLines_tidyLines]

/-- Each block that is not empty is kept as it is. -/
theorem tidyLines_block (plain : ∀ t ∈ m.texts, Plain t)
    (plainComments : ∀ c ∈ comments, ∀ t ∈ c.texts, Plain t)
    (rendered : ∀ t ∈ bodies body comments, ∃ language markup, t = fragment language markup)
    {b : List Text} (h : b ∈ pageBlocks language m body comments) :
    tidyLines .start b = if (Text.joinLines b).isEmpty then [] else b := by
  rcases mem_pageBlocks plain plainComments h with furniture | ⟨t, ht, rfl⟩
  · have words : ∀ l ∈ b, Worded l := fun l hl => ⟨(furniture l hl).text, (furniture l hl).noTick⟩
    rw [Scan.tidyLines_eq_keepAll, (Scan.keepAll_worded (.inl rfl) words).1]
    cases b with
    | nil => rfl
    | cons l b =>
        have visible : l ≠ [] := by
          rintro rfl
          simpa [Text.isBlank] using (furniture [] List.mem_cons_self).text
        simp [Text.joinLines, Text.intercalate_cons, visible]
  · obtain ⟨language, markup, eq⟩ := rendered t ht
    rw [eq]
    simpa only [Text.joinLines_segments] using tidyLines_segments_fragment markup

/-- The blocks, each cleaned, make the layout. -/
theorem joinLines_tidyLines_blocks {blocks : List (List Text)}
    (settled : ∀ b ∈ blocks, tidyLines .start b = if (Text.joinLines b).isEmpty then [] else b) :
    Text.joinLines (List.intercalate [[]]
        ((blocks.map (tidyLines .start)).filter (!·.isEmpty))) = layout blocks := by
  rw [Text.joinLines_intercalate_blank fun b hb => by simpa using (List.mem_filter.1 hb).2, layout]
  congr 1
  induction blocks with
  | nil => rfl
  | cons b blocks ih =>
      have later := ih fun c hc => settled c (List.mem_cons_of_mem _ hc)
      simp only [List.map_cons, settled b List.mem_cons_self]
      cases empty : (Text.joinLines b).isEmpty with
      | true => simpa [empty] using later
      | false =>
          have filled : b ≠ [] := by
            rintro rfl
            simp [Text.joinLines] at empty
          simpa [empty, filled] using later

theorem count_layout (blocks : List (List Text)) :
    (layout blocks).count '\r' = (document blocks).flatten.count '\r' := by
  have joined : (blocks.map Text.joinLines).flatten.count '\r' =
      (document blocks).flatten.count '\r' := by
    induction blocks with
    | nil => rfl
    | cons b blocks ih =>
        have lines : (Text.joinLines b).count '\r' = b.flatten.count '\r' :=
          Text.count_intercalate (by decide) b
        simp only [List.map_cons, List.flatten_cons, Markdown.document_cons, List.flatten_append,
          List.count_append, ih, lines]
        simp
  rw [layout, Text.count_intercalate (by decide), List.flatten_filter_not_isEmpty, joined]

/-- Without carriage returns at their ends, the lines of the page are those of its blocks. -/
theorem lines_rawPage_of_plain (plain : ∀ t ∈ m.texts, Plain t)
    (plainComments : ∀ c ∈ comments, ∀ t ∈ c.texts, Plain t)
    (ends : ∀ t ∈ bodies body comments, ∀ l ∈ Text.segments t, l.getLast? ≠ some '\r') :
    Text.lines (rawPage language m body comments) =
      document (pageBlocks language m body comments) := by
  rw [lines_rawPage plain plainComments]
  apply Text.map_dropReturn_of_plain
  intro l hl
  obtain ⟨b, hb, mem⟩ := List.mem_flatMap.1 hl
  rcases List.mem_append.1 mem with mem | mem
  · rcases mem_pageBlocks plain plainComments hb with furniture | ⟨t, ht, rfl⟩
    · exact (furniture l mem).noReturn
    · exact ends t ht l mem
  · rw [List.mem_singleton.1 mem]
    simp

/-- A page that shows its bodies unchanged has lost no carriage return. -/
theorem noReturn_of_assemble_eq (plain : ∀ t ∈ m.texts, Plain t)
    (plainComments : ∀ c ∈ comments, ∀ t ∈ c.texts, Plain t)
    (h : assemble language m body comments = layout (pageBlocks language m body comments)) :
    ∀ t ∈ bodies body comments, ∀ l ∈ Text.segments t, l.getLast? ≠ some '\r' := by
  have kept : (document (pageBlocks language m body comments)).flatten.count '\r' ≤
      ((document (pageBlocks language m body comments)).map Text.dropReturn).flatten.count
        '\r' := by
    calc (document (pageBlocks language m body comments)).flatten.count '\r'
      _ = (assemble language m body comments).count '\r' := by rw [h, count_layout]
      _ = (tidyLines .start (Text.lines (rawPage language m body comments))).flatten.count
            '\r' := Text.count_intercalate (by decide) _
      _ ≤ (Text.lines (rawPage language m body comments)).flatten.count '\r' :=
          Markdown.count_tidyLines_le '\r' .start _
      _ = _ := by rw [lines_rawPage plain plainComments]
  intro t ht l hl
  refine Text.getLast?_ne_of_count_le kept l ?_
  exact List.mem_flatMap.2 ⟨_, segments_mem_pageBlocks ht, List.mem_append_left _ hl⟩

/-- **Bodies come through exactly if none meddles with a later one.**  A page of plain
records and rendered bodies shows its blocks as they are, with a blank line between each
two, and its scan stands inside code where the scans of the blocks do, if and only if no
line of a body ends with a carriage return and no body leaves a fence open that a later
body closes. -/
theorem assemble_eq_layout_iff (plain : ∀ t ∈ m.texts, Plain t)
    (plainComments : ∀ c ∈ comments, ∀ t ∈ c.texts, Plain t)
    (rendered : ∀ t ∈ bodies body comments, ∃ language markup, t = fragment language markup) :
    (assemble language m body comments = layout (pageBlocks language m body comments) ∧
      Scan.start.marks (Text.lines (rawPage language m body comments)) [] =
        (pageBlocks language m body comments).flatMap
          (fun b => Scan.start.marks b [] ++ [false])) ↔
    (∀ t ∈ bodies body comments, ∀ l ∈ Text.segments t, l.getLast? ≠ some '\r') ∧
      Apart ((bodies body comments).map Text.segments) := by
  rw [← apart_pageBlocks_iff plain plainComments]
  constructor
  · rintro ⟨unchanged, marked⟩
    have ends := noReturn_of_assemble_eq plain plainComments unchanged
    rw [lines_rawPage_of_plain plain plainComments ends,
      Markdown.marks_document_iff (.inl rfl)] at marked
    exact ⟨ends, marked⟩
  · rintro ⟨ends, apart⟩
    have settled : ∀ b ∈ pageBlocks language m body comments,
        tidyLines .start b = if (Text.joinLines b).isEmpty then [] else b :=
      fun b hb => tidyLines_block plain plainComments rendered hb
    rw [lines_rawPage_of_plain plain plainComments ends, Markdown.marks_document_iff (.inl rfl)]
    refine ⟨?_, apart⟩
    calc assemble language m body comments
      _ = Text.joinLines (tidyLines .start
            (Text.lines (rawPage language m body comments))) := rfl
      _ = Text.joinLines (tidyLines .start (document (pageBlocks language m body comments))) := by
          rw [lines_rawPage_of_plain plain plainComments ends]
      _ = layout (pageBlocks language m body comments) := by
          rw [Markdown.tidyLines_document apart, joinLines_tidyLines_blocks settled]

theorem fragment_pre :
    fragment .english "<pre>a\n\n\nb</pre>" = "```\na\n\n\nb\n```" := by
  have tokens : Markup.tokens "<pre>a\n\n\nb</pre>" =
      [.startTag "pre" .empty "<pre>", .text "a\n\n\nb" "a\n\n\nb", .endTag "pre" "</pre>"] := by
    decide +kernel
  rw [fragment, forestOfMarkup, tokens]
  decide

/-- A page by its id and title, with a remark about code. -/
theorem assemble_shows_remark :
    assemble .english ⟨"1", "T", [], [], 0, none, none, []⟩ (fragment .english "<p>Hello</p>")
        [⟨some "x", none, fragment .english "<pre>a\n\n\nb</pre>"⟩] =
      layout (pageBlocks .english ⟨"1", "T", [], [], 0, none, none, []⟩
        (fragment .english "<p>Hello</p>")
        [⟨some "x", none, fragment .english "<pre>a\n\n\nb</pre>"⟩]) := by
  have hello : fragment .english "<p>Hello</p>" = "Hello" := by decide +kernel
  refine ((assemble_eq_layout_iff ?_ ?_ ?_).2 ⟨?_, ?_⟩).1
  · decide
  · decide
  · intro t ht
    simp only [bodies, List.map_cons, List.map_nil, List.mem_cons, List.not_mem_nil,
      or_false] at ht
    rcases ht with rfl | rfl
    · exact ⟨_, _, rfl⟩
    · exact ⟨_, _, rfl⟩
  · rw [hello, fragment_pre]
    decide
  · rw [hello, fragment_pre]
    decide

/-- A page that opens a fence behind a hyphen swallows the first fence of the code in a
remark, and the code loses a blank line. -/
theorem assemble_reflows_remark :
    assemble .english ⟨"1", "T", [], [], 0, none, none, []⟩ (fragment .english "<p>- ```</p>")
        [⟨some "x", none, fragment .english "<pre>a\n\n\nb</pre>"⟩] ≠
      layout (pageBlocks .english ⟨"1", "T", [], [], 0, none, none, []⟩
        (fragment .english "<p>- ```</p>")
        [⟨some "x", none, fragment .english "<pre>a\n\n\nb</pre>"⟩]) := by
  have hyphen : fragment .english "<p>- ```</p>" = "- ```" := by decide +kernel
  rw [hyphen, fragment_pre]
  decide

end

end Wikidown.Page
