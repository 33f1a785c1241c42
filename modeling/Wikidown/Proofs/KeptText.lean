/-
# Wikidown.Proofs.KeptText -- text that rendering keeps

The visible characters of a forest's texts come through rendering in document order, with
one exception: a struck text that goes on with the span before it takes back the two
tildes at the end of the draft, and these may be text.  A `Visit` is a node on its way to a
draft; if every visit that takes something back keeps what was read, every visit does
(`keeps_iff_of_cuts`), and so does the whole page (`filter_render`).
-/
import Wikidown.Proofs.Drafts
import Wikidown.Proofs.Ink

namespace Wikidown.Markdown

set_option autoImplicit false

open scoped List
open Document (Node Forest Emphasis DirectiveKind)

/-! ## Forests without hidden text -/

mutual

/-- Whether every macro of the node that cannot be shown has an empty body. -/
def Bodiless : Node → Prop
  | .directive (.unsupported _) _ cs => cs = []
  | .directive .code _ cs | .directive (.admonition _) _ cs | .heading _ cs | .paragraph cs
  | .list _ cs | .item cs | .quote cs | .emphasis _ cs | .codeSpan cs | .link _ cs
  | .element _ _ cs => AllBodiless cs
  | .lineBreak | .rule | .text _ | .table _ | .malformed _ => True

/-- Whether every macro of the forest that cannot be shown has an empty body. -/
def AllBodiless : List Node → Prop
  | [] => True
  | n :: ns => Bodiless n ∧ AllBodiless ns

end

/-! ## Nodes on their way to a draft -/

/-- A node that is about to be written on a draft, with the ink of the finished parts before
the draft and the ink of the texts that were read so far. -/
structure Visit where
  base : Text
  read : Text
  out : Draft
  node : Node

section

variable (language : Language) (p : Char → Bool)

/-- The ink that was read stands behind `base` on the draft. -/
def Carries (base read : Text) (out : Draft) : Prop := read <+ base ++ out.text.filter p

instance (base read : Text) (out : Draft) : Decidable (Carries p base read out) :=
  inferInstanceAs (Decidable (_ <+ _))

namespace Visit

/-- Behind the node the ink that was read stands on the draft, the ink of the node included. -/
def Keeps (v : Visit) : Prop :=
  Carries p v.base (v.read ++ v.node.textContent.filter p) (writeNode language v.node v.out)

instance (v : Visit) : Decidable (v.Keeps language p) := inferInstanceAs (Decidable (Carries ..))

/-- The node is a struck text that takes back the two tildes at the end of the draft. -/
def Cuts (v : Visit) : Prop :=
  ∃ cs before, v.node = .emphasis .strikethrough cs ∧ v.out = '~' :: '~' :: before ∧
    continuesStrike (inlineText language cs) = true

/-- A struck text that takes something back keeps what was there before it, if its own text
keeps its ink. -/
def Spared (v : Visit) : Prop :=
  v.Cuts language → Carries p v.base v.read v.out →
    v.node.textContent.filter p <+ (inlineText language v.node.children).filter p →
      v.Keeps language p

end Visit

mutual

/-- The visits of the nodes below a node that is written.  The text of an emphasis and of a
link is written on a draft of its own first. -/
def visitsBelow : Node → (base read : Text) → Draft → List Visit
  | .emphasis _ cs, _, _, _ | .link _ cs, _, _, _ => allVisits cs [] [] []
  | .element _ _ cs, base, read, out | .directive (.admonition _) _ cs, base, read, out
  | .heading _ cs, base, read, out | .paragraph cs, base, read, out | .list _ cs, base, read, out
  | .item cs, base, read, out | .quote cs, base, read, out => allVisits cs base read out
  | .text _, _, _, _ | .codeSpan _, _, _, _ | .lineBreak, _, _, _ | .malformed _, _, _, _
  | .table _, _, _, _ | .rule, _, _, _ | .directive .code _ _, _, _, _
  | .directive (.unsupported _) _ _, _, _, _ => []

/-- The visits of nodes that are written one after the other. -/
def allVisits : List Node → (base read : Text) → Draft → List Visit
  | [], _, _, _ => []
  | n :: ns, base, read, out =>
      ⟨base, read, out, n⟩ :: visitsBelow n base read out
        ++ allVisits ns base (read ++ n.textContent.filter p) (writeNode language n out)

end

/-- Everything that a layout holds. -/
def Flow.written (f : Flow) : Text := f.parts.reverse.flatten ++ f.draft.text

/-- The visit of a node that goes to the draft of a layout. -/
def draftVisits (n : Node) (read : Text) (f : Flow) : List Visit :=
  allVisits language p [n] (f.parts.reverse.flatten.filter p) read f.draft

mutual

/-- The visits on the way of a node to a layout.  A part that is finished is not cut any
more. -/
def layVisits : Node → (read : Text) → Flow → List Visit
  | .heading _ cs, _, _ | .directive (.admonition _) _ cs, _, _ => allVisits language p cs [] [] []
  | .paragraph cs, read, f => allLayVisits cs read f.close
  | .list _ cs, _, _ => itemVisits cs
  | .item cs, _, _ | .quote cs, _, _ => allLayVisits cs [] .start
  | .element _ _ cs, read, f => allLayVisits cs read f
  | .rule, _, _ | .table _, _, _ | .directive .code _ _, _, _
  | .directive (.unsupported _) _ _, _, _ => []
  | .text content, read, f => draftVisits language p (.text content) read f
  | .codeSpan cs, read, f => draftVisits language p (.codeSpan cs) read f
  | .lineBreak, read, f => draftVisits language p .lineBreak read f
  | .malformed source, read, f => draftVisits language p (.malformed source) read f
  | .emphasis kind cs, read, f => draftVisits language p (.emphasis kind cs) read f
  | .link href cs, read, f => draftVisits language p (.link href cs) read f

/-- The visits of nodes that are laid out one after the other. -/
def allLayVisits : List Node → (read : Text) → Flow → List Visit
  | [], _, _ => []
  | n :: ns, read, f =>
      layVisits n read f ++ allLayVisits ns (read ++ n.textContent.filter p) (layNode language n f)

/-- The visits of the nodes of a list, each laid out on its own. -/
def itemVisits : List Node → List Visit
  | [] => []
  | n :: ns => layVisits n [] .start ++ itemVisits ns

end

/-- The visits of a page. -/
def pageVisits (nodes : Forest) : List Visit := allLayVisits language p nodes [] .start

end

/-! ## Ink on a draft -/

section

variable {language : Language} {p : Char → Bool}

theorem filter_join (ink : Inked p) (out : Draft) (piece : Text) :
    (out.join piece).text.filter p = out.text.filter p ++ piece.filter p := by
  have space : ∀ c, (c == ' ') = true → p c = false := by
    intro c h
    exact ink c (by simp_all [isSpace])
  rw [Draft.join_eq, Draft.text_put, List.filter_append]
  split
  · rw [Text.filter_dropWhile space]
  · rfl

theorem filter_breakLine (ink : Inked p) (out : Draft) :
    out.breakLine.text.filter p = out.text.filter p := by
  have space : ∀ c, (c == ' ') = true → p c = false := by
    intro c h
    exact ink c (by simp_all [isSpace])
  have kept := Text.filter_dropWhile space out
  simp only [Draft.breakLine, Draft.text, List.filter_reverse, List.filter_cons,
    ink '\n' (by decide), ink ' ' (by decide), kept, Bool.false_eq_true, if_false]

/-- A piece that is joined brings its ink. -/
theorem Carries.join (ink : Inked p) {base read more piece : Text} {out : Draft}
    (h : Carries p base read out) (brings : more <+ piece.filter p) :
    Carries p base (read ++ more) (out.join piece) := by
  unfold Carries at h ⊢
  rw [filter_join ink, ← List.append_assoc]
  exact h.append brings

theorem Draft.emphasize_eq_join {out : Draft} {kind : Emphasis} {t : Text}
    (stays : ∀ before, kind = .strikethrough → out = '~' :: '~' :: before →
      continuesStrike t = true → False) :
    out.emphasize kind t = out.join (wrap (marks kind out) (marks kind out) t) := by
  unfold emphasize
  split
  · next before =>
    rw [if_neg fun goesOn => stays before rfl rfl goesOn]
  · rfl

theorem Draft.emphasize_goesOn (before : Draft) {t : Text} (goesOn : continuesStrike t = true) :
    emphasize ('~' :: '~' :: before) .strikethrough t = before.put (wrap [] "~~" t) := by
  simp [emphasize, goesOn]

/-- Where tildes are no ink, a struck text takes no ink back. -/
theorem spared_of_tilde (ink : Inked p) (tilde : p '~' = false) (v : Visit) :
    v.Spared language p := by
  obtain ⟨base, read, out, n⟩ := v
  rintro ⟨cs, before, rfl, rfl, goesOn⟩ h brings
  have shape : writeNode language (.emphasis .strikethrough cs) ('~' :: '~' :: before) =
      Draft.put before (wrap [] "~~" (inlineText language cs)) :=
    Draft.emphasize_goesOn before goesOn
  have kept : read <+ base ++ (Draft.text before).filter p := by
    unfold Carries at h
    simpa [Draft.text, List.filter_append, tilde] using h
  simp only [Visit.Keeps, Carries, shape, Draft.text_put, List.filter_append]
  rw [← List.append_assoc]
  exact kept.append (brings.trans (filter_wrap ink _ _ _))

/-- What is joined without ink of its own leaves the ink as it is. -/
theorem Carries.joinMark (ink : Inked p) {base read : Text} {out : Draft}
    (h : Carries p base read out) (piece : Text) : Carries p base read (out.join piece) := by
  simpa using h.join ink (List.nil_sublist (piece.filter p))

theorem filter_linkTo (href t : Text) :
    t.filter p <+ (linkTo href t).filter p := by
  simp only [linkTo]
  split
  · exact List.Sublist.refl _
  · split
    · next empty => simp [List.isEmpty_iff.1 empty]
    · exact (sublist_link t href).filter p

/-! ## Ink through the writing of nodes -/

/-- Visits that keep the ink, one after the other. -/
theorem carries_of_keeps {base read : Text} {out : Draft} (ns : Forest)
    (keeps : ∀ v ∈ allVisits language p ns base read out, v.Keeps language p)
    (h : Carries p base read out) :
    Carries p base (read ++ (Forest.textContents ns).filter p) (writeForest language ns out) := by
  induction ns generalizing read out with
  | nil => simpa [Forest.textContents, writeForest] using h
  | cons n ns ih =>
      simp only [allVisits, List.forall_mem_append, List.forall_mem_cons] at keeps
      have rest := ih keeps.2 keeps.1.1
      simpa [Forest.textContents, writeForest] using rest

mutual

theorem keeps_node (ink : Inked p) {base read : Text} {out : Draft} :
    (n : Node) → Bodiless n →
      (∀ v ∈ (⟨base, read, out, n⟩ : Visit) :: visitsBelow language p n base read out,
        v.Spared language p) →
      Carries p base read out →
        ∀ v ∈ (⟨base, read, out, n⟩ : Visit) :: visitsBelow language p n base read out,
          v.Keeps language p
  | .text content, _, _, h =>
      List.forall_mem_singleton.2 (h.join ink (Text.sublist_filter_collapse ink content))
  | .emphasis kind cs, bodiless, spared, h => by
      obtain ⟨here, inside⟩ := List.forall_mem_cons.1 spared
      have below := keeps_all ink cs bodiless inside (List.nil_sublist _)
      have inner : Carries p [] ([] ++ (Forest.textContents cs).filter p)
          (writeForest language cs []) := carries_of_keeps cs below (List.nil_sublist _)
      refine List.forall_mem_cons.2 ⟨?_, below⟩
      by_cases cuts : Visit.Cuts language ⟨base, read, out, .emphasis kind cs⟩
      · exact here cuts h inner
      · have joined : writeNode language (.emphasis kind cs) out = out.join
            (wrap (marks kind out) (marks kind out) (inlineText language cs)) :=
          Draft.emphasize_eq_join fun before strike ends goesOn =>
            cuts ⟨cs, before, strike ▸ rfl, ends, goesOn⟩
        simp only [Visit.Keeps, joined]
        exact h.join ink (List.Sublist.trans inner (filter_wrap ink _ _ _))
  | .codeSpan cs, _, _, h => by
      refine List.forall_mem_singleton.2 ?_
      have folded := Text.filter_collapse ink (Forest.textContents cs)
      simp only [Visit.Keeps, writeNode, Node.textContent]
      split
      · next blank =>
        rw [Text.filter_of_isBlank ink blank] at folded
        rw [← folded, List.append_nil]
        exact h
      · rw [← folded]
        exact h.join ink ((sublist_codeSpan _).filter p)
  | .link href cs, bodiless, spared, h => by
      have below := keeps_all ink cs bodiless (List.forall_mem_cons.1 spared).2 (List.nil_sublist _)
      have inner : Carries p [] ([] ++ (Forest.textContents cs).filter p)
          (writeForest language cs []) := carries_of_keeps cs below (List.nil_sublist _)
      refine List.forall_mem_cons.2 ⟨?_, below⟩
      refine h.join ink (List.Sublist.trans ?_ (filter_linkTo href _))
      rw [Text.filter_trim ink]
      exact inner
  | .lineBreak, _, _, h => by
      refine List.forall_mem_singleton.2 ?_
      have none : ['\n'].filter p = [] := by simp [ink '\n' (by decide)]
      simp only [Visit.Keeps, Carries, Node.textContent, none, List.append_nil, writeNode,
        filter_breakLine ink]
      exact h
  | .element _ _ cs, bodiless, spared, h => by
      have below := keeps_all ink cs bodiless (List.forall_mem_cons.1 spared).2 h
      exact List.forall_mem_cons.2 ⟨carries_of_keeps cs below h, below⟩
  | .malformed source, _, _, h => List.forall_mem_singleton.2 (h.join ink (List.nil_sublist _))
  | .table _, _, _, h => List.forall_mem_singleton.2 (h.join ink (List.nil_sublist _))
  | .directive .code _ cs, _, _, h => by
      refine List.forall_mem_singleton.2 ?_
      have folded : (Text.collapse (Text.trim (Forest.textContents cs))).filter p =
          (Forest.textContents cs).filter p := by
        rw [Text.filter_collapse ink, Text.filter_trim ink]
      simp only [Visit.Keeps, writeNode, Node.textContent]
      rw [← folded]
      exact h.join ink ((sublist_codeSpan _).filter p)
  | .directive (.unsupported name) _ cs, bodiless, _, h => by
      obtain rfl : cs = [] := bodiless
      exact List.forall_mem_singleton.2 (h.join ink (List.nil_sublist _))
  | .directive (.admonition _) _ cs, bodiless, spared, h => by
      have below := keeps_all ink cs bodiless (List.forall_mem_cons.1 spared).2 h
      exact List.forall_mem_cons.2 ⟨carries_of_keeps cs below h, below⟩
  | .rule, _, _, h => List.forall_mem_singleton.2 (h.join ink (List.nil_sublist _))
  | .heading _ cs, bodiless, spared, h => by
      have below := keeps_all ink cs bodiless (List.forall_mem_cons.1 spared).2 h
      exact List.forall_mem_cons.2 ⟨(carries_of_keeps cs below h).joinMark ink _, below⟩
  | .paragraph cs, bodiless, spared, h => by
      have below := keeps_all ink cs bodiless (List.forall_mem_cons.1 spared).2 h
      exact List.forall_mem_cons.2 ⟨(carries_of_keeps cs below h).joinMark ink _, below⟩
  | .list _ cs, bodiless, spared, h => by
      have below := keeps_all ink cs bodiless (List.forall_mem_cons.1 spared).2 h
      exact List.forall_mem_cons.2 ⟨(carries_of_keeps cs below h).joinMark ink _, below⟩
  | .item cs, bodiless, spared, h => by
      have below := keeps_all ink cs bodiless (List.forall_mem_cons.1 spared).2 h
      exact List.forall_mem_cons.2 ⟨(carries_of_keeps cs below h).joinMark ink _, below⟩
  | .quote cs, bodiless, spared, h => by
      have below := keeps_all ink cs bodiless (List.forall_mem_cons.1 spared).2 h
      exact List.forall_mem_cons.2 ⟨(carries_of_keeps cs below h).joinMark ink _, below⟩

theorem keeps_all (ink : Inked p) {base read : Text} {out : Draft} :
    (ns : List Node) → AllBodiless ns →
      (∀ v ∈ allVisits language p ns base read out, v.Spared language p) →
      Carries p base read out →
        ∀ v ∈ allVisits language p ns base read out, v.Keeps language p
  | [], _, _, _ => nofun
  | n :: ns, bodiless, spared, h => by
      rw [allVisits, List.forall_mem_append] at spared ⊢
      have first := keeps_node ink n bodiless.1 spared.1 h
      exact ⟨first, keeps_all ink ns bodiless.2 spared.2 (first _ List.mem_cons_self)⟩

end

/-! ## Ink through the layout -/

theorem written_close (ink : Inked p) (f : Flow) :
    f.written.filter p <+ f.close.written.filter p := by
  have trimmed := Text.filter_trim ink f.draft.text
  simp only [Flow.close]
  split
  · next empty =>
    rw [List.isEmpty_iff.1 empty] at trimmed
    rw [Flow.written, List.filter_append, ← trimmed]
    simp [Flow.written, Draft.text]
  · have kept := filter_escapeFenceOpeners ink (Text.trim f.draft.text)
    rw [trimmed] at kept
    simpa [Flow.written, Draft.text] using kept

theorem draft_close (f : Flow) : f.close.draft = [] := by
  simp only [Flow.close]
  split <;> rfl

/-- A part that is added brings its ink. -/
theorem written_add (ink : Inked p) {read more part : Text} {f : Flow}
    (h : read <+ f.written.filter p) (brings : more <+ part.filter p) :
    read ++ more <+ (f.add part).written.filter p := by
  have closed := h.trans (written_close ink f)
  simp only [Flow.add]
  split
  · next empty =>
    rw [List.isEmpty_iff.1 empty] at brings
    rw [List.sublist_nil.1 brings, List.append_nil]
    exact closed
  · have none := draft_close f
    simp only [Flow.written, none, Draft.text, List.reverse_nil, List.append_nil] at closed
    simpa [Flow.written, Draft.text] using closed.append brings

theorem filter_texts (ink : Inked p) (f : Flow) :
    f.written.filter p <+ f.texts.flatten.filter p := by
  have none := draft_close f
  have closed := written_close ink f
  simpa [Flow.written, none, Draft.text, Flow.texts] using closed

theorem filter_itemText (ink : Inked p) (f : Flow) :
    f.written.filter p <+ f.itemText.filter p := by
  rw [Flow.itemText, Text.filter_joinLines ink]
  exact filter_texts ink f

theorem filter_pageText (ink : Inked p) (f : Flow) :
    f.written.filter p <+ f.pageText.filter p := by
  rw [Flow.pageText, Text.filter_intercalate (by simp [ink '\n' (by decide)])]
  exact filter_texts ink f

theorem filter_itemLines (ink : Inked p) (marker : Text) (f : Flow) :
    f.written.filter p <+ (itemLines marker f).flatten.filter p := by
  apply (filter_itemText ink f).trans
  rw [itemLines, ← Text.filter_lines ink f.itemText]
  exact filter_markLines marker _

theorem filter_directiveText (ink : Inked p) {kind : DirectiveKind} {parameters : Dictionary}
    {cs : Forest} (bodiless : Bodiless (.directive kind parameters cs)) {read : Text} {f : Flow}
    (keeps : ∀ v ∈ layVisits language p (.directive kind parameters cs) read f,
      v.Keeps language p) :
    (Forest.textContents cs).filter p <+ (directiveText language kind parameters cs).filter p := by
  cases kind with
  | code => exact filter_codeBlock ink _ _
  | admonition kind =>
      have inner : Carries p [] ([] ++ (Forest.textContents cs).filter p)
          (writeForest language cs []) := carries_of_keeps cs keeps (List.nil_sublist _)
      exact List.Sublist.trans inner (filter_boxText ink _ _ _)
  | unsupported name =>
      obtain rfl : cs = [] := bodiless
      exact List.nil_sublist _

/-- What is read stands in the draft of a layout, behind its finished parts. -/
theorem carries_of_written {f : Flow} {read : Text} (h : read <+ f.written.filter p) :
    Carries p (f.parts.reverse.flatten.filter p) read f.draft := by
  rw [Flow.written, List.filter_append] at h
  exact h

/-- Inline nodes go to the draft of the layout. -/
theorem written_draft {f : Flow} {read : Text} {n : Node} (h : read <+ f.written.filter p)
    (keeps : ∀ v ∈ draftVisits language p n read f, v.Keeps language p) :
    read ++ n.textContent.filter p <+
      (Flow.written { f with draft := writeNode language n f.draft }).filter p := by
  have kept := carries_of_keeps [n] keeps (carries_of_written h)
  simp only [Forest.textContents, writeForest, List.append_nil] at kept
  rw [Flow.written, List.filter_append]
  exact kept

/-- A node of a list that is neither an item nor a list is an item of its own. -/
theorem listLines_other {ordered : Bool} {number width : Nat} {n : Node} (ns : List Node)
    (notList : ∀ o cs, n ≠ .list o cs) (notItem : ∀ cs, n ≠ .item cs) :
    listLines language ordered number width (n :: ns) =
      if n.isBlankText then listLines language ordered number width ns
      else
        itemLines (itemMarker ordered number) (layNode language n .start)
          ++ listLines language ordered (number + 1) (itemMarker ordered number).length ns := by
  rw [listLines]
  · exact notList
  · exact notItem

theorem filter_of_isBlankText (ink : Inked p) {n : Node} (h : n.isBlankText = true) :
    n.textContent.filter p = [] := by
  cases n with
  | text content => exact Text.filter_of_isBlank ink h
  | _ => simp [Node.isBlankText] at h

theorem filter_listLines_other (ink : Inked p) {ordered : Bool} {number width : Nat} {n : Node}
    {ns : Forest} (notList : ∀ o cs, n ≠ .list o cs) (notItem : ∀ cs, n ≠ .item cs)
    (here : [] ++ n.textContent.filter p <+ (layNode language n .start).written.filter p)
    (rest : ∀ number width, (Forest.textContents ns).filter p <+
      (listLines language ordered number width ns).flatten.filter p) :
    (Forest.textContents (n :: ns)).filter p <+
      (listLines language ordered number width (n :: ns)).flatten.filter p := by
  rw [listLines_other ns notList notItem, Forest.textContents, List.filter_append]
  split
  · next blank =>
    rw [filter_of_isBlankText ink blank]
    exact rest number width
  · rw [List.flatten_append, List.filter_append]
    exact (List.Sublist.trans here (filter_itemLines ink _ _)).append (rest _ _)

mutual

/-- Behind a node whose visits keep the ink, it stands in the layout. -/
theorem written_layNode (ink : Inked p) {read : Text} {f : Flow} :
    (n : Node) → Bodiless n → (∀ v ∈ layVisits language p n read f, v.Keeps language p) →
      read <+ f.written.filter p →
        read ++ n.textContent.filter p <+ (layNode language n f).written.filter p
  | .heading level cs, _, keeps, h => by
      have inner : Carries p [] ([] ++ (Forest.textContents cs).filter p)
          (writeForest language cs []) := carries_of_keeps cs keeps (List.nil_sublist _)
      exact written_add ink h (List.Sublist.trans inner (filter_headingText ink level _))
  | .paragraph cs, bodiless, keeps, h => by
      have laid := written_layForest ink cs bodiless keeps (h.trans (written_close ink f))
      exact laid.trans (written_close ink _)
  | .list ordered cs, bodiless, keeps, h => by
      apply written_add ink h
      rw [Text.filter_joinLines ink]
      exact filter_listLines ink ordered 1 2 cs bodiless keeps
  | .item cs, bodiless, keeps, h => by
      apply written_add ink h
      rw [Text.filter_joinLines ink]
      have laid := written_layForest ink cs bodiless keeps (List.nil_sublist _)
      exact List.Sublist.trans laid (filter_itemLines ink _ _)
  | .quote cs, bodiless, keeps, h => by
      refine written_add ink h (List.Sublist.trans ?_ (filter_quoteText ink _))
      rw [filter_tidy ink]
      have laid := written_layForest ink cs bodiless keeps (List.nil_sublist _)
      exact List.Sublist.trans laid (filter_pageText ink _)
  | .rule, _, _, h => written_add ink h (List.nil_sublist _)
  | .table _, _, _, h => written_add ink h (List.nil_sublist _)
  | .directive kind parameters cs, bodiless, keeps, h =>
      written_add ink h (filter_directiveText ink bodiless keeps)
  | .element _ _ cs, bodiless, keeps, h => written_layForest ink cs bodiless keeps h
  | .text _, _, keeps, h | .codeSpan _, _, keeps, h | .lineBreak, _, keeps, h
  | .malformed _, _, keeps, h | .emphasis _ _, _, keeps, h | .link _ _, _, keeps, h =>
      written_draft h keeps

theorem written_layForest (ink : Inked p) {read : Text} {f : Flow} :
    (ns : List Node) → AllBodiless ns →
      (∀ v ∈ allLayVisits language p ns read f, v.Keeps language p) →
        read <+ f.written.filter p →
          read ++ (Forest.textContents ns).filter p <+ (layForest language ns f).written.filter p
  | [], _, _, h => by
      simpa [Forest.textContents, layForest] using h
  | n :: ns, bodiless, keeps, h => by
      rw [allLayVisits, List.forall_mem_append] at keeps
      have first := written_layNode ink n bodiless.1 keeps.1 h
      have rest := written_layForest ink ns bodiless.2 keeps.2 first
      simpa [Forest.textContents, layForest] using rest

theorem filter_listLines (ink : Inked p) (ordered : Bool) (number width : Nat) :
    (ns : List Node) → AllBodiless ns → (∀ v ∈ itemVisits language p ns, v.Keeps language p) →
      (Forest.textContents ns).filter p <+
        (listLines language ordered number width ns).flatten.filter p
  | [], _, _ => List.Sublist.slnil
  | n :: ns, bodiless, keeps => by
      rw [itemVisits, List.forall_mem_append] at keeps
      have here := written_layNode ink n bodiless.1 keeps.1 (List.nil_sublist _)
      have rest := fun number width =>
        filter_listLines ink ordered number width ns bodiless.2 keeps.2
      cases n with
      | list nested cs =>
          have inner := filter_listLines ink nested 1 2 cs bodiless.1 keeps.1
          have lines : (Forest.textContents cs).filter p <+
              (Text.lines (Text.joinLines (listLines language nested 1 2 cs))).flatten.filter p := by
            rw [Text.filter_lines ink, Text.filter_joinLines ink]
            exact inner
          simp only [listLines, Forest.textContents, Node.textContent, List.filter_append,
            List.flatten_append]
          refine List.Sublist.append (lines.trans ?_) (rest number width)
          exact Text.filter_flatten_map fun l _ => filter_indentLine width l
      | item cs =>
          have laid := written_layForest ink cs bodiless.1 keeps.1 (List.nil_sublist _)
          simp only [listLines, Forest.textContents, Node.textContent, List.filter_append,
            List.flatten_append]
          exact List.Sublist.append (List.Sublist.trans laid (filter_itemLines ink _ _)) (rest _ _)
      | _ => exact filter_listLines_other ink (by simp) (by simp) here rest

end

mutual

/-- Where every visit is spared, every visit keeps the ink. -/
theorem keeps_layNode (ink : Inked p) {read : Text} {f : Flow} :
    (n : Node) → Bodiless n → (∀ v ∈ layVisits language p n read f, v.Spared language p) →
      read <+ f.written.filter p → ∀ v ∈ layVisits language p n read f, v.Keeps language p
  | .heading _ cs, bodiless, spared, _ => keeps_all ink cs bodiless spared (List.nil_sublist _)
  | .directive (.admonition _) _ cs, bodiless, spared, _ =>
      keeps_all ink cs bodiless spared (List.nil_sublist _)
  | .paragraph cs, bodiless, spared, h =>
      keeps_layForest ink cs bodiless spared (h.trans (written_close ink f))
  | .list _ cs, bodiless, spared, _ => keeps_items ink cs bodiless spared
  | .item cs, bodiless, spared, _ => keeps_layForest ink cs bodiless spared (List.nil_sublist _)
  | .quote cs, bodiless, spared, _ => keeps_layForest ink cs bodiless spared (List.nil_sublist _)
  | .element _ _ cs, bodiless, spared, h => keeps_layForest ink cs bodiless spared h
  | .rule, _, _, _ | .table _, _, _, _ | .directive .code _ _, _, _, _
  | .directive (.unsupported _) _ _, _, _, _ => nofun
  | .text content, _, spared, h =>
      keeps_all ink [.text content] ⟨trivial, trivial⟩ spared (carries_of_written h)
  | .codeSpan cs, bodiless, spared, h =>
      keeps_all ink [.codeSpan cs] ⟨bodiless, trivial⟩ spared (carries_of_written h)
  | .lineBreak, _, spared, h =>
      keeps_all ink [.lineBreak] ⟨trivial, trivial⟩ spared (carries_of_written h)
  | .malformed source, _, spared, h =>
      keeps_all ink [.malformed source] ⟨trivial, trivial⟩ spared (carries_of_written h)
  | .emphasis kind cs, bodiless, spared, h =>
      keeps_all ink [.emphasis kind cs] ⟨bodiless, trivial⟩ spared (carries_of_written h)
  | .link href cs, bodiless, spared, h =>
      keeps_all ink [.link href cs] ⟨bodiless, trivial⟩ spared (carries_of_written h)

theorem keeps_layForest (ink : Inked p) {read : Text} {f : Flow} :
    (ns : List Node) → AllBodiless ns →
      (∀ v ∈ allLayVisits language p ns read f, v.Spared language p) →
        read <+ f.written.filter p →
          ∀ v ∈ allLayVisits language p ns read f, v.Keeps language p
  | [], _, _, _ => nofun
  | n :: ns, bodiless, spared, h => by
      rw [allLayVisits, List.forall_mem_append] at spared ⊢
      have first := keeps_layNode ink n bodiless.1 spared.1 h
      have laid := written_layNode ink n bodiless.1 first h
      exact ⟨first, keeps_layForest ink ns bodiless.2 spared.2 laid⟩

theorem keeps_items (ink : Inked p) :
    (ns : List Node) → AllBodiless ns → (∀ v ∈ itemVisits language p ns, v.Spared language p) →
      ∀ v ∈ itemVisits language p ns, v.Keeps language p
  | [], _, _ => nofun
  | n :: ns, bodiless, spared => by
      rw [itemVisits, List.forall_mem_append] at spared ⊢
      exact ⟨keeps_layNode ink n bodiless.1 spared.1 (List.nil_sublist _),
        keeps_items ink ns bodiless.2 spared.2⟩

end

/-! ## Pages -/

/-- Every visit of a page keeps the ink exactly if the visits that take something back do. -/
theorem keeps_iff_of_cuts (ink : Inked p) {nodes : Forest} (bodiless : AllBodiless nodes) :
    (∀ v ∈ pageVisits language p nodes, v.Keeps language p) ↔
      ∀ v ∈ pageVisits language p nodes, v.Cuts language → v.Keeps language p := by
  constructor
  · intro keeps v mem _
    exact keeps v mem
  · intro keeps
    exact keeps_layForest ink nodes bodiless (fun v mem cuts _ _ => keeps v mem cuts)
      (List.nil_sublist _)

/-- The ink of a forest comes through rendering, if every visit keeps it. -/
theorem filter_render (ink : Inked p) {nodes : Forest} (bodiless : AllBodiless nodes)
    (keeps : ∀ v ∈ pageVisits language p nodes, v.Keeps language p) :
    (Forest.textContents nodes).filter p <+ (render language nodes).filter p := by
  have laid := written_layForest ink nodes bodiless keeps (List.nil_sublist _)
  rw [render, filter_tidy ink]
  exact List.Sublist.trans laid (filter_pageText ink _)

/-- Ink without tildes comes through rendering. -/
theorem filter_render_of_tilde (ink : Inked p) (tilde : p '~' = false) {nodes : Forest}
    (bodiless : AllBodiless nodes) :
    (Forest.textContents nodes).filter p <+ (render language nodes).filter p :=
  filter_render ink bodiless <| keeps_layForest ink nodes bodiless
    (fun v _ => spared_of_tilde ink tilde v) (List.nil_sublist _)

end

end Wikidown.Markdown
