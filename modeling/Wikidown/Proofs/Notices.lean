/-
# Wikidown.Proofs.Notices -- notices that rendering shows

A table and a macro that cannot be shown leave a notice.  Wherever such a node stands
outside code and links, its notice stands in the Markdown of the forest, in one piece
(`notice_infix_render`): a node leaves every starred text where the layout has it already,
and adds its own notices (`shows_layNode`).
-/
import Wikidown.Proofs.KeptText
import Wikidown.Proofs.Starred

namespace Wikidown.Markdown

set_option autoImplicit false

open Document (Node Forest)

/-! ## The notices of a forest -/

section

variable (language : Language)

mutual

/-- The notices for the tables and the macros that cannot be shown, outside code and links. -/
def noticesOf : Node → List Text
  | .table _ => [language.tableNotice]
  | .directive (.unsupported name) _ _ => [language.unsupportedNotice name]
  | .heading _ cs | .paragraph cs | .list _ cs | .item cs | .quote cs | .emphasis _ cs
  | .element _ _ cs | .directive (.admonition _) _ cs => allNotices cs
  | .codeSpan _ | .link _ _ | .directive .code _ _ | .lineBreak | .rule | .text _
  | .malformed _ => []

/-- The notices of the nodes of a forest. -/
def allNotices : List Node → List Text
  | [] => []
  | n :: ns => noticesOf n ++ allNotices ns

end

end

section

variable {language : Language} {x : Text}

theorem mem_allNotices_append {a b : Forest} :
    x ∈ allNotices language (a ++ b) ↔ x ∈ allNotices language a ∨ x ∈ allNotices language b := by
  induction a with
  | nil => simp [allNotices]
  | cons n ns ih => simp [allNotices, ih, or_assoc]

theorem infix_of_mem_singleton {t : Text} (mem : x ∈ [t]) : x <:+: t :=
  List.mem_singleton.1 mem ▸ List.infix_refl _

/-! ## Notices on a draft -/

mutual

theorem infix_writeNode (star : Starred x) {out : Draft} :
    (n : Node) → x <:+: out.text ∨ x ∈ noticesOf language n →
      x <:+: (writeNode language n out).text
  | .text content, h => Draft.infix_join star (h.imp_right nofun)
  | .emphasis kind cs, h => by
      refine Draft.infix_emphasize star kind (h.imp_right fun mem => ?_)
      exact infix_writeForest star cs (.inr mem)
  | .codeSpan cs, h => by
      have before := h.resolve_right nofun
      simp only [writeNode]
      split
      · exact before
      · exact Draft.infix_join star (.inl before)
  | .link href cs, h => Draft.infix_join star (h.imp_right nofun)
  | .lineBreak, h => Draft.infix_breakLine star (h.resolve_right nofun)
  | .element _ _ cs, h => infix_writeForest star cs h
  | .malformed source, h => Draft.infix_join star (h.imp_right nofun)
  | .table source, h => Draft.infix_join star (h.imp_right infix_of_mem_singleton)
  | .directive .code _ cs, h => Draft.infix_join star (h.imp_right nofun)
  | .directive (.unsupported name) _ _, h =>
      Draft.infix_join star (h.imp_right infix_of_mem_singleton)
  | .directive (.admonition _) _ cs, h => infix_writeForest star cs h
  | .rule, h => Draft.infix_join star (h.imp_right nofun)
  | .heading _ cs, h => Draft.infix_join star (.inl (infix_writeForest star cs h))
  | .paragraph cs, h => Draft.infix_join star (.inl (infix_writeForest star cs h))
  | .list _ cs, h => Draft.infix_join star (.inl (infix_writeForest star cs h))
  | .item cs, h => Draft.infix_join star (.inl (infix_writeForest star cs h))
  | .quote cs, h => Draft.infix_join star (.inl (infix_writeForest star cs h))

theorem infix_writeForest (star : Starred x) {out : Draft} :
    (ns : List Node) → x <:+: out.text ∨ x ∈ allNotices language ns →
      x <:+: (writeForest language ns out).text
  | [], h => h.resolve_right nofun
  | n :: ns, h => by
      apply infix_writeForest star ns
      rcases h with before | mem
      · exact .inl (infix_writeNode star n (.inl before))
      · rcases List.mem_append.1 mem with here | later
        · exact .inl (infix_writeNode star n (.inr here))
        · exact .inr later

end

theorem infix_inlineText (star : Starred x) {cs : Forest} (mem : x ∈ allNotices language cs) :
    x <:+: inlineText language cs :=
  infix_writeForest star cs (.inr mem)

/-! ## Notices in a layout -/

/-- Whether a text stands in a part of the layout or in its draft. -/
def Flow.Shows (x : Text) (f : Flow) : Prop := (∃ part ∈ f.parts, x <:+: part) ∨ x <:+: f.draft.text

namespace Flow

theorem Shows.close (star : Starred x) {f : Flow} (h : f.Shows x) :
    ∃ part ∈ f.close.parts, x <:+: part := by
  simp only [Flow.close]
  rcases h with ⟨part, mem, inside⟩ | draft
  · split
    · exact ⟨part, mem, inside⟩
    · exact ⟨part, List.mem_cons_of_mem _ mem, inside⟩
  · have filled : (Text.trim f.draft.text).isEmpty = false := by
      rw [Text.isEmpty_trim, Text.not_isBlank_of_infix star draft]
    rw [if_neg (by simp [filled])]
    exact ⟨_, List.mem_cons_self, infix_escapeFenceOpeners star (Text.infix_trim star draft)⟩

theorem Shows.add (star : Starred x) {f : Flow} {part : Text} (h : f.Shows x ∨ x <:+: part) :
    (f.add part).Shows x := by
  simp only [Flow.add]
  split
  · next empty =>
    rcases h with before | here
    · exact .inl (before.close star)
    · rw [List.isEmpty_iff.1 empty, List.infix_nil] at here
      exact .inr (here ▸ List.nil_infix)
  · rcases h with before | here
    · obtain ⟨earlier, mem, inside⟩ := before.close star
      exact .inl ⟨earlier, List.mem_cons_of_mem _ mem, inside⟩
    · exact .inl ⟨part, List.mem_cons_self, here⟩

theorem Shows.texts (star : Starred x) {f : Flow} (h : f.Shows x) :
    ∃ part ∈ f.texts, x <:+: part := by
  obtain ⟨part, mem, inside⟩ := h.close star
  exact ⟨part, List.mem_reverse.2 mem, inside⟩

theorem Shows.pageText (star : Starred x) {f : Flow} (h : f.Shows x) : x <:+: f.pageText := by
  obtain ⟨part, mem, inside⟩ := h.texts star
  exact Text.infix_intercalate mem inside

theorem Shows.itemLines (star : Starred x) {f : Flow} (marker : Text) (h : f.Shows x) :
    ∃ l ∈ itemLines marker f, x <:+: l := by
  obtain ⟨part, mem, inside⟩ := h.texts star
  obtain ⟨l, found, line⟩ :=
    Text.exists_line_of_infix star (@Text.infix_intercalate x ['\n'] _ _ mem inside)
  exact exists_mem_markLines marker found line

end Flow

theorem infix_directiveText (star : Starred x) {kind : Document.DirectiveKind}
    (parameters : Dictionary) {cs : Forest}
    (mem : x ∈ noticesOf language (.directive kind parameters cs)) :
    x <:+: directiveText language kind parameters cs := by
  cases kind with
  | code => simp [noticesOf] at mem
  | admonition kind => exact infix_boxText star _ _ (infix_inlineText star mem)
  | unsupported name => exact infix_of_mem_singleton mem

theorem noticesOf_of_isBlankText {n : Node} (h : n.isBlankText = true) :
    noticesOf language n = [] := by
  cases n with
  | text content => rfl
  | _ => simp [Node.isBlankText] at h

/-- Inline nodes go to the draft of the layout. -/
theorem Flow.Shows.write (star : Starred x) {f : Flow} (n : Node)
    (h : f.Shows x ∨ x ∈ noticesOf language n) :
    Flow.Shows x { f with draft := writeNode language n f.draft } := by
  rcases h with (part | draft) | mem
  · exact .inl part
  · exact .inr (infix_writeNode star n (.inl draft))
  · exact .inr (infix_writeNode star n (.inr mem))

/-- Lines for a node of a list that is an item of its own. -/
theorem exists_line_listLines_other (star : Starred x) {ordered : Bool} {number width : Nat}
    {n : Node} {ns : Forest} (notList : ∀ o cs, n ≠ .list o cs) (notItem : ∀ cs, n ≠ .item cs)
    (here : x ∈ noticesOf language n → (layNode language n .start).Shows x)
    (rest : x ∈ allNotices language ns → ∀ number width,
      ∃ l ∈ listLines language ordered number width ns, x <:+: l)
    (mem : x ∈ allNotices language (n :: ns)) :
    ∃ l ∈ listLines language ordered number width (n :: ns), x <:+: l := by
  rw [listLines_other ns notList notItem]
  rw [allNotices, List.mem_append] at mem
  split
  · next blank =>
    rw [noticesOf_of_isBlankText blank] at mem
    exact rest (mem.resolve_left nofun) number width
  · rcases mem with first | later
    · obtain ⟨l, found, inside⟩ := (here first).itemLines star (itemMarker ordered number)
      exact ⟨l, List.mem_append_left _ found, inside⟩
    · obtain ⟨l, found, inside⟩ := rest later (number + 1) (itemMarker ordered number).length
      exact ⟨l, List.mem_append_right _ found, inside⟩

mutual

theorem shows_layNode (star : Starred x) {f : Flow} :
    (n : Node) → f.Shows x ∨ x ∈ noticesOf language n → (layNode language n f).Shows x
  | .heading level cs, h => .add star (h.imp_right fun mem =>
      infix_headingText star level (infix_inlineText star mem))
  | .paragraph cs, h => by
      refine .inl (Flow.Shows.close star (shows_layForest star cs ?_))
      exact h.imp_left fun before => .inl (before.close star)
  | .list ordered cs, h => by
      refine .add star (h.imp_right fun mem => ?_)
      obtain ⟨l, found, inside⟩ := exists_line_listLines star ordered 1 2 cs mem
      exact Text.infix_intercalate found inside
  | .item cs, h => by
      refine .add star (h.imp_right fun mem => ?_)
      have laid : (layForest language cs .start).Shows x := shows_layForest star cs (.inr mem)
      obtain ⟨l, found, inside⟩ := laid.itemLines star (itemMarker false 1)
      exact Text.infix_intercalate found inside
  | .quote cs, h => by
      refine .add star (h.imp_right fun mem => ?_)
      have laid : (layForest language cs .start).Shows x := shows_layForest star cs (.inr mem)
      exact infix_quoteText star (infix_tidy star (laid.pageText star))
  | .rule, h => .add star (h.imp_right nofun)
  | .table source, h => .add star (h.imp_right infix_of_mem_singleton)
  | .directive kind parameters cs, h =>
      .add star (h.imp_right (infix_directiveText star parameters))
  | .element _ _ cs, h => shows_layForest star cs h
  | .text content, h => .write star (.text content) h
  | .emphasis kind cs, h => .write star (.emphasis kind cs) h
  | .codeSpan cs, h => .write star (.codeSpan cs) h
  | .link href cs, h => .write star (.link href cs) h
  | .lineBreak, h => .write star .lineBreak h
  | .malformed source, h => .write star (.malformed source) h

theorem shows_layForest (star : Starred x) {f : Flow} :
    (ns : List Node) → f.Shows x ∨ x ∈ allNotices language ns → (layForest language ns f).Shows x
  | [], h => h.resolve_right nofun
  | n :: ns, h => by
      apply shows_layForest star ns
      rcases h with before | mem
      · exact .inl (shows_layNode star n (.inl before))
      · rcases List.mem_append.1 mem with here | later
        · exact .inl (shows_layNode star n (.inr here))
        · exact .inr later

theorem exists_line_listLines (star : Starred x) (ordered : Bool) (number width : Nat) :
    (ns : List Node) → x ∈ allNotices language ns →
      ∃ l ∈ listLines language ordered number width ns, x <:+: l
  | [], mem => nomatch mem
  | n :: ns, mem => by
      have here := fun first => shows_layNode (f := .start) star n (.inr first)
      have rest := fun later number width =>
        exists_line_listLines star ordered number width ns later
      cases n with
      | list nested cs =>
          simp only [listLines]
          rcases List.mem_append.1 mem with first | later
          · obtain ⟨l, found, inside⟩ := exists_line_listLines star nested 1 2 cs first
            obtain ⟨m, line, inside⟩ :=
              Text.exists_line_of_infix star (@Text.infix_intercalate x ['\n'] _ _ found inside)
            refine ⟨indentLine width m, ?_, infix_indentLine width inside⟩
            exact List.mem_append_left _ (List.mem_map_of_mem line)
          · obtain ⟨l, found, inside⟩ := rest later number width
            exact ⟨l, List.mem_append_right _ found, inside⟩
      | item cs =>
          simp only [listLines]
          rcases List.mem_append.1 mem with first | later
          · have laid : (layForest language cs .start).Shows x :=
              shows_layForest star cs (.inr first)
            obtain ⟨l, found, inside⟩ := laid.itemLines star (itemMarker ordered number)
            exact ⟨l, List.mem_append_left _ found, inside⟩
          · obtain ⟨l, found, inside⟩ := rest later (number + 1) (itemMarker ordered number).length
            exact ⟨l, List.mem_append_right _ found, inside⟩
      | _ => exact exists_line_listLines_other star (by simp) (by simp) here rest mem

end

/-- The notices of a forest stand in its Markdown. -/
theorem notice_infix_render (star : Starred x) {nodes : Forest}
    (mem : x ∈ allNotices language nodes) : x <:+: render language nodes := by
  have laid : (layForest language nodes .start).Shows x := shows_layForest star nodes (.inr mem)
  exact infix_tidy star (laid.pageText star)

end

end Wikidown.Markdown
