/-
# Wikidown.Proofs.CodeBlocks -- code among paragraphs

A page of paragraphs and code blocks goes through `tidy` as a whole.  Its code blocks come
out verbatim, and the scan stands inside code exactly between the fences of a block, if
and only if no paragraph opens a fence, behind quote marks or list markers, that a later
passage closes (`code_blocks_verbatim_iff`).
-/
import Wikidown.Proofs.Drafts
import Wikidown.Proofs.FencedCode

namespace Wikidown.Markdown

set_option autoImplicit false

open Document (Node Forest)

/-! ## Passages -/

/-- What a page of text and code is made of. -/
inductive Passage where
  /-- A paragraph of texts. -/
  | paragraph (texts : List Text)
  /-- A code macro that names no language and has one text as its body. -/
  | code (parameters : Dictionary) (body : Text)
      (unlabelled : parameters.get? "language" = none) (plain : '\r' ∉ body)

namespace Passage

/-- The node of a passage. -/
def node : Passage → Node
  | paragraph texts => .paragraph (texts.map .text)
  | code parameters body _ _ => .directive .code parameters [.text body]

/-- The code of a code passage: its body less the line feeds at the end. -/
def code? : Passage → Option Text
  | paragraph _ => none
  | code _ body _ _ => some (Text.dropEndWhile (· == '\n') body)

/-- The line of a paragraph: its words, escaped if they would open a block of code. -/
def paragraphLine (texts : List Text) : Text :=
  escapeFenceOpener (Text.trim (Text.collapse texts.flatten))

/-- The lines that a passage stands on; a blank paragraph has none. -/
def lines : Passage → List Text
  | paragraph texts => if (paragraphLine texts).isEmpty then [] else [paragraphLine texts]
  | code _ body _ _ => blockLines (Text.dropEndWhile (· == '\n') body)

/-- For each line of a passage, whether the line behind it belongs to a code block that
has been opened. -/
def marks : Passage → List Bool
  | paragraph texts => if (paragraphLine texts).isEmpty then [] else [false]
  | code _ body _ _ =>
      List.replicate ((Text.segments (Text.dropEndWhile (· == '\n') body)).length + 1) true
        ++ [false]

/-- The fence that the line of a paragraph opens. -/
def fence? : Passage → Option Fence
  | paragraph texts => Fence.open? (paragraphLine texts)
  | code _ _ _ _ => none

end Passage

/-! ## The layout of passages -/

theorem layForest_texts (language : Language) (texts : List Text) (f : Flow) :
    layForest language (texts.map .text) f =
      { f with draft := writeForest language (texts.map .text) f.draft } := by
  induction texts generalizing f with
  | nil => rfl
  | cons t texts ih =>
      simp only [List.map_cons, layForest, layNode, writeForest]
      exact ih _

theorem isEmpty_escapeFenceOpener (line : Text) :
    (escapeFenceOpener line).isEmpty = line.isEmpty := by
  simp only [escapeFenceOpener]
  split
  · next opens =>
    cases line with
    | nil => simp [Text.trimStart, opensFence] at opens
    | cons c line => simp
  · rfl

/-- An escaped line is blank only if the line is. -/
theorem isBlank_escapeFenceOpener {line : Text} (h : Text.isBlank line = false) :
    Text.isBlank (escapeFenceOpener line) = false := by
  simp only [escapeFenceOpener]
  split
  · simp [Text.isBlank, isSpace]
  · exact h

theorem mem_escapeFenceOpener {line : Text} {c : Char} (h : c ∈ escapeFenceOpener line) :
    c ∈ line ∨ c = '\\' := by
  simp only [escapeFenceOpener] at h
  split at h
  · simp only [List.mem_append, List.mem_cons] at h
    rcases h with h | rfl | h
    · exact .inl ((List.takeWhile_prefix isSpace).subset h)
    · exact .inr rfl
    · exact .inl ((Text.isSuffix_trimStart line).subset h)
  · exact .inl h

/-- A paragraph of one line ends as that line. -/
theorem close_of_text {parts : List Text} {draft : Draft} {t : Text} (h : draft.text = t)
    (newline : '\n' ∉ Text.trim t) :
    Flow.close ⟨parts, draft⟩ =
      ⟨if (Text.trim t).isEmpty then parts else escapeFenceOpener (Text.trim t) :: parts, []⟩ := by
  simp only [Flow.close, h, escapeFenceOpeners_of_notMem newline]
  split <;> rfl

theorem notMem_codeFence {c : Char} (ne : c ≠ tick) (content : Text) : c ∉ codeFence content :=
  fun h => ne (List.eq_of_mem_replicate h)

/-- The lines of a code block that names its language behind the first fence. -/
def labelledLines (label code : Text) : List Text :=
  (codeFence code ++ label) :: (Text.segments code ++ [codeFence code])

theorem labelledLines_nil (code : Text) : labelledLines [] code = blockLines code := by
  rw [labelledLines, List.append_nil]
  rfl

theorem joinLines_labelledLines {label : Text} (noBreak : '\n' ∉ label) (code : Text) :
    Text.joinLines (labelledLines label code) =
      (codeFence code ++ label) ++ '\n' :: (code ++ '\n' :: codeFence code) := by
  have fence : '\n' ∉ codeFence code := notMem_codeFence (by decide) code
  have first : '\n' ∉ codeFence code ++ label := by
    rw [List.mem_append]
    rintro (mem | mem)
    · exact fence mem
    · exact noBreak mem
  have cut : Text.segments ((codeFence code ++ label) ++ '\n' :: (code ++ '\n' :: codeFence code)) =
      labelledLines label code := by
    rw [Text.segments_append_newline, Text.segments_append_newline,
      Text.segments_of_notMem first, Text.segments_of_notMem fence]
    rfl
  rw [← cut, Text.joinLines_segments]

/-- A code block is its lines; of the code without carriage returns, only the line feeds at the
end do not count. -/
theorem codeBlock_eq {label body : Text} (noBreak : '\n' ∉ label) (plain : '\r' ∉ body) :
    codeBlock label body =
      Text.joinLines (labelledLines label (Text.dropEndWhile (· == '\n') body)) := by
  have same : Text.dropEndWhile (fun c => c == '\n' || c == '\r') body =
      Text.dropEndWhile (· == '\n') body := by
    apply Text.dropEndWhile_congr
    intro c hc
    have ne : c ≠ '\r' := fun eq => plain (eq ▸ hc)
    simp [ne]
  simp [codeBlock, same, joinLines_labelledLines noBreak]

namespace Passage

theorem notMem_paragraphLine {texts : List Text} {c : Char} (space : isSpace c = true)
    (ne : c ≠ ' ') : c ∉ paragraphLine texts := by
  intro h
  rcases mem_escapeFenceOpener h with h | rfl
  · rcases Text.mem_collapseFrom ((Text.isInfix_trim _).subset h) with rfl | visible
    · exact ne rfl
    · simp [space] at visible
  · simp [isSpace] at space

theorem isBlank_paragraphLine {texts : List Text} (h : (paragraphLine texts).isEmpty = false) :
    Text.isBlank (paragraphLine texts) = false := by
  rw [paragraphLine, isEmpty_escapeFenceOpener, Text.isEmpty_trim] at h
  exact isBlank_escapeFenceOpener ((Text.isBlank_trim _).trans h)

/-- The lines of a passage hold no line break. -/
theorem notMem_of_mem_lines {p : Passage} {l : Text} (h : l ∈ p.lines) : '\n' ∉ l ∧ '\r' ∉ l := by
  cases p with
  | paragraph texts =>
      simp only [lines] at h
      split at h
      · simp at h
      · rw [List.mem_singleton.1 h]
        exact ⟨notMem_paragraphLine (by decide) (by decide),
          notMem_paragraphLine (by decide) (by decide)⟩
  | code parameters body unlabelled plain =>
      simp only [lines, blockLines, List.mem_cons, List.mem_append, List.not_mem_nil,
        or_false] at h
      have fence (c : Char) (ne : c ≠ tick) := notMem_codeFence ne
        (Text.dropEndWhile (· == '\n') body)
      rcases h with rfl | h | rfl
      · exact ⟨fence _ (by decide), fence _ (by decide)⟩
      · refine ⟨Text.newline_notMem_of_mem_segments h, fun mem => plain ?_⟩
        exact (Text.isPrefix_dropEndWhile _ _).subset (Text.mem_of_mem_segments h _ mem).1
      · exact ⟨fence _ (by decide), fence _ (by decide)⟩

/-- The last line of a passage is not empty. -/
theorem getLast?_lines_ne (p : Passage) : p.lines.getLast? ≠ some [] := by
  cases p with
  | paragraph texts =>
      simp only [lines]
      split
      · simp
      · next filled => simpa using filled
  | code parameters body unlabelled plain =>
      have fence : codeFence (Text.dropEndWhile (· == '\n') body) ≠ [] := by
        simp [codeFence, ticks]
      simpa [lines, blockLines, List.getLast?_cons] using fence

/-- A passage becomes a part of the layout, made of its lines. -/
theorem layNode_node (language : Language) (p : Passage) (parts : List Text) :
    layNode language p.node ⟨parts, []⟩ =
      ⟨if p.lines.isEmpty then parts else Text.joinLines p.lines :: parts, []⟩ := by
  cases p with
  | paragraph texts =>
      have draft : (writeForest language (texts.map .text) []).text =
          Text.collapse texts.flatten := by
        rw [writeForest_texts]
        simp [Draft.put, Draft.text, Draft.spaced, Text.collapse]
      have newline : '\n' ∉ Text.trim (Text.collapse texts.flatten) := by
        intro h
        exact Text.newline_notMem_collapse _ ((Text.isInfix_trim _).subset h)
      rw [node, layNode, Flow.close_nil, layForest_texts, close_of_text draft newline]
      simp only [lines, paragraphLine, isEmpty_escapeFenceOpener]
      cases (Text.trim (Text.collapse texts.flatten)).isEmpty <;> simp [Text.joinLines]
  | code parameters body unlabelled plain =>
      have written : directiveText language .code parameters [.text body] =
          Text.joinLines (blockLines (Text.dropEndWhile (· == '\n') body)) := by
        have content : Document.Forest.textContents [.text body] = body := List.append_nil body
        simp only [directiveText, unlabelled, content]
        rw [← labelledLines_nil]
        exact codeBlock_eq (by simp) plain
      have filled : (Text.joinLines (blockLines (Text.dropEndWhile (· == '\n') body))).isEmpty =
          false := by
        rw [← labelledLines_nil, joinLines_labelledLines (by simp)]
        simp
      simp only [node, layNode, written, Flow.add, filled, Flow.close_nil, lines]
      rfl

end Passage

/-- The lines of the passages that have any. -/
def keptLines (passages : List Passage) : List (List Text) :=
  (passages.map Passage.lines).filter (!·.isEmpty)

theorem mem_keptLines {passages : List Passage} {part : List Text} (h : part ∈ keptLines passages) :
    ∃ p : Passage, part = p.lines ∧ part ≠ [] := by
  obtain ⟨mem, filled⟩ := List.mem_filter.1 h
  obtain ⟨p, -, rfl⟩ := List.mem_map.1 mem
  exact ⟨p, rfl, by simpa using filled⟩

theorem layForest_passages (language : Language) (passages : List Passage) (parts : List Text) :
    layForest language (passages.map Passage.node) ⟨parts, []⟩ =
      ⟨((keptLines passages).map Text.joinLines).reverse ++ parts, []⟩ := by
  induction passages generalizing parts with
  | nil => rfl
  | cons p passages ih =>
      rw [List.map_cons, layForest, Passage.layNode_node, ih]
      cases empty : p.lines.isEmpty <;> simp [keptLines, empty]

/-! ## The scan of a page of passages -/

namespace Passage

theorem fence?_of_lines_nil {p : Passage} (h : p.lines = []) : p.fence? = none := by
  cases p with
  | paragraph texts =>
      have empty : (paragraphLine texts).isEmpty = true := by
        simpa [lines] using h
      rw [fence?, List.isEmpty_iff.1 empty]
      rfl
  | code parameters body unlabelled plain => rfl

/-- On its own a passage is kept as it is, the scan stands inside code where it should,
and only a paragraph can leave a fence loose. -/
theorem scan_lines (p : Passage) :
    tidyLines .start p.lines = p.lines ∧ Scan.start.marks p.lines [] = p.marks ∧
      Scan.start.looseFences p.lines = p.fence?.toList := by
  cases p with
  | paragraph texts =>
      simp only [lines, marks, fence?]
      cases empty : (paragraphLine texts).isEmpty with
      | true =>
          rw [List.isEmpty_iff.1 empty]
          exact ⟨rfl, rfl, rfl⟩
      | false =>
          have text := isBlank_paragraphLine empty
          have loose : (Scan.start.next (paragraphLine texts) []).inCode = false := by
            simp only [Scan.next, text, Scan.after, List.any_nil]
            cases Fence.open? (paragraphLine texts) <;> rfl
          refine ⟨?_, ?_, ?_⟩
          · simp [tidyLines, text, Scan.separator]
          · simp [Scan.marks, loose]
          · simp [Scan.looseFences, Scan.opened?, Scan.inCode]
  | code parameters body unlabelled plain =>
      simp only [lines, marks, fence?]
      obtain ⟨kept, marked, loose⟩ := Scan.block_lines (Text.dropEndWhile (· == '\n') body)
      exact ⟨by rw [Scan.tidyLines_eq_keepAll, kept], marked, loose⟩

end Passage

/-- No paragraph opens a fence that a later passage closes. -/
def Undisturbed (passages : List Passage) : Prop :=
  passages.Pairwise fun a b =>
    ∀ fence, a.fence? = some fence → b.lines.any fence.isClosedBy = false

theorem apart_keptLines_iff {passages : List Passage} :
    Apart (keptLines passages) ↔ Undisturbed passages := by
  rw [Apart, keptLines, List.pairwise_filter, List.pairwise_map]
  apply List.Pairwise.iff
  intro a b
  simp only [a.scan_lines.2.2, Option.mem_toList]
  constructor
  · intro h fence opens
    have here : a.lines ≠ [] := by
      intro empty
      simp [Passage.fence?_of_lines_nil empty] at opens
    cases empty : b.lines.isEmpty with
    | true => rw [List.isEmpty_iff.1 empty, List.any_nil]
    | false => exact h (by simpa using here) (by simp [empty]) fence opens
  · intro h _ _ fence opens
    exact h fence opens

/-- The lines of the page before `tidy` are those of the passages. -/
theorem lines_pageText (language : Language) (passages : List Passage) :
    Text.lines (layForest language (passages.map Passage.node) .start).pageText =
      List.intercalate [[]] (keptLines passages) := by
  have texts : (layForest language (passages.map Passage.node) .start).texts =
      (keptLines passages).map Text.joinLines := by
    rw [Flow.start, layForest_passages]
    simp [Flow.texts, Flow.close_nil]
  rw [Flow.pageText, texts]
  by_cases none : keptLines passages = []
  · rw [none]
    rfl
  · have cut : Text.segments (List.intercalate ['\n', '\n']
        ((keptLines passages).map Text.joinLines)) =
          List.intercalate [[]] (keptLines passages) := by
      rw [Text.segments_intercalate_blank (by simpa using none), List.map_map]
      congr 1
      refine (List.map_congr_left fun part h => ?_).trans (List.map_id _)
      obtain ⟨p, rfl, ne⟩ := mem_keptLines h
      exact Text.segments_joinLines ne fun l hl => (Passage.notMem_of_mem_lines hl).1
    rw [Text.lines_eq_segments, cut]
    · intro l h
      rw [cut] at h
      have plain : '\r' ∉ l := by
        rcases Text.mem_intercalate h with h | ⟨part, mem, h⟩
        · simp_all
        · obtain ⟨p, rfl, -⟩ := mem_keptLines mem
          exact (Passage.notMem_of_mem_lines h).2
      exact fun last => plain (List.mem_of_getLast? last)
    · rw [cut]
      obtain ⟨part, mem, last⟩ := Text.getLast?_intercalate [[]] none fun part h =>
        (mem_keptLines h).choose_spec.2
      obtain ⟨p, rfl, -⟩ := mem_keptLines mem
      rw [last]
      exact p.getLast?_lines_ne

/-! ## The code blocks of the page -/

/-- The blocks stand among the lines in order, each unbroken and behind the one before. -/
def InOrder : List (List Text) → List Text → Prop
  | [], _ => True
  | block :: blocks, ls => ∃ before behind, ls = before ++ block ++ behind ∧ InOrder blocks behind

theorem InOrder.append_left {blocks : List (List Text)} {ls : List Text} (more : List Text)
    (h : InOrder blocks ls) : InOrder blocks (more ++ ls) := by
  cases blocks with
  | nil => trivial
  | cons block blocks =>
      obtain ⟨before, behind, rfl, later⟩ := h
      exact ⟨more ++ before, behind, by simp, later⟩

/-- Parts that are left out do not part the blocks that stay. -/
theorem InOrder.of_sublist {blocks parts : List (List Text)} (h : blocks.Sublist parts) :
    InOrder blocks (List.intercalate [[]] parts) := by
  induction h with
  | slnil => trivial
  | @cons blocks parts part h ih =>
      cases parts with
      | nil =>
          rw [List.sublist_nil.1 h]
          trivial
      | cons next parts =>
          rw [List.intercalate_cons_cons]
          exact ih.append_left _
  | @cons_cons blocks parts part h ih =>
      cases parts with
      | nil =>
          rw [List.sublist_nil.1 h]
          exact ⟨[], [], by simp, trivial⟩
      | cons next parts =>
          rw [List.intercalate_cons_cons]
          exact ⟨[], [[]] ++ List.intercalate [[]] (next :: parts), by simp, ih.append_left _⟩

theorem blocks_sublist_keptLines (passages : List Passage) :
    ((passages.filterMap Passage.code?).map blockLines).Sublist (keptLines passages) := by
  induction passages with
  | nil => exact List.Sublist.slnil
  | cons p passages ih =>
      cases p with
      | paragraph texts =>
          exact ih.trans ((List.sublist_cons_self _ _).filter _)
      | code parameters body unlabelled plain =>
          simpa [Passage.code?, keptLines, Passage.lines, blockLines] using ih

theorem filter_marks (passages : List Passage) :
    (passages.map Passage.marks).filter (!·.isEmpty) =
      (keptLines passages).map (Scan.start.marks · []) := by
  induction passages with
  | nil => rfl
  | cons p passages ih =>
      have marked := p.scan_lines.2.1
      have same : p.marks.isEmpty = p.lines.isEmpty := by
        rw [← marked]
        cases p.lines <;> rfl
      unfold keptLines at ih ⊢
      rw [List.map_cons, List.map_cons, List.filter_cons, List.filter_cons, same, ih]
      split
      · rw [List.map_cons, marked]
      · rfl

/-- **Code comes through exactly if no paragraph meddles.**  The code blocks of a page of
passages stand in its Markdown in order and line by line, and the scan of `tidy` stands
inside code between the fences of a block and nowhere else, if and only if no paragraph
opens a fence that a later passage closes. -/
theorem code_blocks_verbatim_iff (language : Language) (passages : List Passage) :
    (InOrder ((passages.filterMap Passage.code?).map blockLines)
        (Text.segments (render language (passages.map Passage.node))) ∧
      Scan.start.marks
          (Text.lines (layForest language (passages.map Passage.node) .start).pageText) [] =
        List.intercalate [false] ((passages.map Passage.marks).filter (!·.isEmpty))) ↔
    Undisturbed passages := by
  rw [lines_pageText, filter_marks, marks_intercalate_iff, apart_keptLines_iff]
  refine ⟨fun h => h.2, fun undisturbed => ⟨?_, undisturbed⟩⟩
  have alone : (keptLines passages).map (tidyLines .start) = keptLines passages := by
    refine (List.map_congr_left fun part h => ?_).trans (List.map_id _)
    obtain ⟨p, rfl, -⟩ := mem_keptLines h
    exact p.scan_lines.1
  have filled : (keptLines passages).filter (!·.isEmpty) = keptLines passages := by
    rw [keptLines, List.filter_filter]
    simp
  have page : render language (passages.map Passage.node) =
      Text.joinLines (List.intercalate [[]] (keptLines passages)) := by
    rw [render, tidy, lines_pageText, tidyLines_intercalate (apart_keptLines_iff.2 undisturbed),
      alone, filled]
  have blocks := blocks_sublist_keptLines passages
  by_cases none : keptLines passages = []
  · rw [none] at blocks
    rw [List.sublist_nil.1 blocks]
    trivial
  · have cut : Text.segments (render language (passages.map Passage.node)) =
        List.intercalate [[]] (keptLines passages) := by
      rw [page]
      refine Text.segments_joinLines ?_ ?_
      · cases eq : keptLines passages with
        | nil => exact absurd eq none
        | cons part parts =>
            obtain ⟨-, -, filled⟩ := mem_keptLines (eq ▸ List.mem_cons_self)
            simp [Text.intercalate_cons, filled]
      · intro l h
        rcases Text.mem_intercalate h with h | ⟨part, mem, h⟩
        · simp_all
        · obtain ⟨p, rfl, -⟩ := mem_keptLines mem
          exact (Passage.notMem_of_mem_lines h).1
    rw [cut]
    exact InOrder.of_sublist blocks

/-- A paragraph that opens a fence behind a hyphen swallows the first fence of the code
block behind it, and the code loses a blank line. -/
theorem code_reflowed_behind_hyphen :
    ¬ InOrder [blockLines "a\n\n\nb"]
      (Text.segments (render .english
        [.paragraph [.text "- ```"], .directive .code .empty [.text "a\n\n\nb"]])) := by
  rintro ⟨before, behind, cut, -⟩
  have lost : ¬ blockLines "a\n\n\nb" <:+: Text.segments (render .english
      [.paragraph [.text "- ```"], .directive .code .empty [.text "a\n\n\nb"]]) := by decide
  exact lost ⟨before, behind, cut.symm⟩

end Wikidown.Markdown
