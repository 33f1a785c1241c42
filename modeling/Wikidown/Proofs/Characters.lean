/-
# Wikidown.Proofs.Characters -- where the characters of a page come from

The writer has an alphabet of its own: spaces and line feeds, the marks of Markdown, digits
and the words of its notices (`alphabet`).  Any other character of a page stands in a string
of the forest, be it a text, an address, a name or a parameter (`mem_render`).

`Drawn q t` says that the characters of a text are of the alphabet or satisfy `q`; it is kept
by every step of the writer, and holds of each node's output if `q` holds of the strings below
the node (`Supplied`).
-/
import Wikidown.Proofs.CodeBlocks
import Wikidown.Proofs.StruckText
import Wikidown.Proofs.Tidied

namespace Wikidown

set_option autoImplicit false

namespace Document

/-! ## The strings of a forest -/

/-- The entries of a dictionary, each as its name and its text. -/
def dictionaryStrings (d : Dictionary) : List Text := d.entries.flatMap fun e => [e.1, e.2]

/-- The strings that a node holds itself. -/
def Node.strings : Node → List Text
  | .text content => [content]
  | .link href _ => [href]
  | .table source | .malformed source => [source]
  | .directive (.unsupported name) parameters _ => name :: dictionaryStrings parameters
  | .directive _ parameters _ => dictionaryStrings parameters
  | .element name attributes _ => name :: dictionaryStrings attributes
  | _ => []

/-- The strings of all nodes of a forest. -/
def Forest.strings (nodes : Forest) : List Text := (Forest.preorder nodes).flatMap Node.strings

theorem Node.strings_bare (n : Node) : n.bare.strings = n.strings := by
  cases n with
  | directive kind parameters cs => cases kind <;> rfl
  | _ => rfl

theorem Forest.strings_cons (n : Node) (ns : Forest) :
    Forest.strings (n :: ns) = n.strings ++ Forest.strings n.children ++ Forest.strings ns := by
  simp only [Forest.strings, Forest.preorder, Node.preorder_eq, List.flatMap_append,
    List.flatMap_cons, Node.strings_bare]

theorem mem_dictionaryStrings {d : Dictionary} {name value : Text} (h : d.get? name = some value) :
    value ∈ dictionaryStrings d := by
  have entry : (name, value) ∈ d.entries := by
    obtain ⟨before, after, eq, -⟩ := List.lookup_eq_some_iff.1 h
    simp [eq]
  exact List.mem_flatMap.2 ⟨_, entry, by simp⟩

/-- All characters in the strings of a forest satisfy `q`. -/
def Supplied (q : Char → Prop) (nodes : Forest) : Prop :=
  ∀ s ∈ Forest.strings nodes, ∀ c ∈ s, q c

namespace Supplied

variable {q : Char → Prop} {n : Node} {ns : Forest}

theorem first (h : Supplied q (n :: ns)) : Supplied q [n] := by
  intro s mem
  refine h s ?_
  rw [Forest.strings_cons] at mem ⊢
  exact List.mem_append_left _ (by simpa [Forest.strings, Forest.preorder] using mem)

theorem rest (h : Supplied q (n :: ns)) : Supplied q ns := by
  intro s mem
  refine h s ?_
  rw [Forest.strings_cons]
  exact List.mem_append_right _ mem

theorem children (h : Supplied q [n]) : Supplied q n.children := by
  intro s mem
  refine h s ?_
  rw [Forest.strings_cons]
  exact List.mem_append_left _ (List.mem_append_right _ mem)

theorem own (h : Supplied q [n]) {s : Text} (mem : s ∈ n.strings) : ∀ c ∈ s, q c := by
  refine h s ?_
  rw [Forest.strings_cons]
  exact List.mem_append_left _ (List.mem_append_left _ mem)

end Supplied

end Document

namespace Markdown

open Document (Node Forest Emphasis DirectiveKind Admonition Supplied)

/-! ## Characters of the writer and of its strings -/

/-- Spaces, line feeds, digits and the marks of Markdown. -/
def ownMarks : Text := " \n#()*-.0123456789:<>[\\]_\x60~"

/-- The characters that the writer writes by itself. -/
def alphabet (language : Language) : Text :=
  ownMarks ++ language.tableNotice ++ language.unsupportedNotice [] ++ language.malformedNotice []
    ++ language.admonition .info ++ language.admonition .warning

/-- Each character is of the writer's alphabet or satisfies `q`. -/
def Drawn (language : Language) (q : Char → Prop) (t : Text) : Prop :=
  ∀ c ∈ t, c ∈ alphabet language ∨ q c

section

variable {language : Language} {q : Char → Prop} {s t : Text} {out : Draft}

theorem Drawn.of_subset (h : Drawn language q t) (sub : s ⊆ t) : Drawn language q s :=
  fun c mem => h c (sub mem)

theorem Drawn.append (hs : Drawn language q s) (ht : Drawn language q t) :
    Drawn language q (s ++ t) := by
  intro c mem
  exact (List.mem_append.1 mem).elim (hs c) (ht c)

theorem Drawn.reverse (h : Drawn language q t) : Drawn language q t.reverse :=
  h.of_subset fun _ mem => List.mem_reverse.1 mem

theorem drawn_marks (own : t.all ownMarks.contains = true) : Drawn language q t := by
  intro c mem
  left
  have here : c ∈ ownMarks := List.contains_iff_mem.1 (List.all_eq_true.1 own c mem)
  simp [alphabet, here]

theorem drawn_of_alphabet (own : t ⊆ alphabet language) : Drawn language q t :=
  fun _ mem => .inl (own mem)

theorem drawn_nil : Drawn language q [] := fun _ mem => absurd mem List.not_mem_nil

theorem drawn_replicate (n : Nat) {c : Char} (own : ownMarks.contains c = true) :
    Drawn language q (List.replicate n c) := by
  apply drawn_marks
  rw [List.all_eq_true]
  intro d mem
  exact List.eq_of_mem_replicate mem ▸ own

theorem drawn_intercalate {sep : Text} {ts : List Text} (hsep : Drawn language q sep)
    (h : ∀ t ∈ ts, Drawn language q t) : Drawn language q (List.intercalate sep ts) := by
  intro c mem
  rcases Text.mem_intercalate mem with inSep | ⟨t, here, inText⟩
  · exact hsep c inSep
  · exact h t here c inText

theorem drawn_joinLines {ls : List Text} (h : ∀ l ∈ ls, Drawn language q l) :
    Drawn language q (Text.joinLines ls) :=
  drawn_intercalate (drawn_marks (by decide)) h

/-! ## Lines and drafts -/

theorem Drawn.segment (h : Drawn language q t) {l : Text} (mem : l ∈ Text.segments t) :
    Drawn language q l :=
  fun c inLine => h c (Text.mem_of_mem_segments mem c inLine).1

theorem Drawn.line (h : Drawn language q t) {l : Text} (mem : l ∈ Text.lines t) :
    Drawn language q l :=
  fun c inLine => h c (Text.mem_of_mem_lines mem inLine)

theorem Drawn.trim (h : Drawn language q t) : Drawn language q (Text.trim t) :=
  h.of_subset (Text.isInfix_trim t).subset

theorem Drawn.collapse (h : Drawn language q t) : Drawn language q (Text.collapse t) := by
  have space : Drawn language q [' '] := drawn_marks (by decide)
  intro c mem
  rcases Text.mem_of_mem_collapseFrom mem with rfl | inText
  · exact space ' ' (by simp)
  · exact h c inText

theorem Drawn.join (hout : Drawn language q out) (h : Drawn language q t) :
    Drawn language q (out.join t) := by
  have kept : Drawn language q (t.dropWhile (· == ' ')) :=
    h.of_subset (List.dropWhile_suffix _).subset
  unfold Draft.join
  split <;> exact Drawn.append (Drawn.reverse ‹_›) hout

theorem Drawn.breakLine (h : Drawn language q out) : Drawn language q out.breakLine := by
  have feed : Drawn language q ['\n', ' ', ' '] := drawn_marks (by decide)
  exact feed.append (h.of_subset (List.dropWhile_suffix _).subset)

theorem Drawn.wrap {opening closing : Text} (hopening : Drawn language q opening)
    (hclosing : Drawn language q closing) (h : Drawn language q t) :
    Drawn language q (wrap opening closing t) := by
  rw [wrap_eq_wrapLines]
  refine drawn_joinLines fun l mem => ?_
  obtain ⟨line, segment, rfl⟩ := List.mem_map.1 mem
  intro c inside
  rcases mem_wrapLine inside with inLine | inOpening | inClosing
  · exact h.segment segment c inLine
  · exact hopening c inOpening
  · exact hclosing c inClosing

theorem drawn_emphasisMarks (kind : Emphasis) (out : Draft) :
    Drawn language q (marks kind out) := by
  unfold marks
  split <;> exact drawn_marks (by decide)

theorem Drawn.emphasize (hout : Drawn language q out) (kind : Emphasis) (h : Drawn language q t) :
    Drawn language q (out.emphasize kind t) := by
  have stressed : Drawn language q (Markdown.wrap (marks kind out) (marks kind out) t) :=
    .wrap (drawn_emphasisMarks kind out) (drawn_emphasisMarks kind out) h
  unfold Draft.emphasize
  split
  · next before =>
    split
    · have tildes : Drawn language q "~~" := drawn_marks (by decide)
      have earlier : Drawn language q before := by
        refine hout.of_subset fun c mem => ?_
        simp [mem]
      exact (Drawn.wrap drawn_nil tildes h).reverse.append earlier
    · exact hout.join stressed
  · exact hout.join stressed

/-! ## Links, code and notices -/

theorem mem_escapeWhere {p : Char → Bool} {t : Text} {c : Char} (h : c ∈ escapeWhere p t) :
    c = '\\' ∨ c ∈ t := by
  obtain ⟨d, inText, written⟩ := List.mem_flatMap.1 h
  split at written
  · rcases List.mem_cons.1 written with rfl | same
    · exact .inl rfl
    · exact .inr (List.mem_singleton.1 same ▸ inText)
  · exact .inr (List.mem_singleton.1 written ▸ inText)

theorem Drawn.escapeWhere (p : Char → Bool) (h : Drawn language q t) :
    Drawn language q (escapeWhere p t) := by
  have slash : Drawn language q ['\\'] := drawn_marks (by decide)
  intro c mem
  rcases mem_escapeWhere mem with rfl | inText
  · exact slash '\\' (by simp)
  · exact h c inText

/-- A destination stands in one line, and has nothing but marks and spaces beside the
characters of its address. -/
theorem mem_linkDestination {t : Text} {c : Char} (h : c ∈ linkDestination t) :
    c ∈ ("<>\\ " : Text) ∨ c ∈ t ∧ c ≠ '\n' := by
  unfold linkDestination at h
  split at h
  · rw [List.mem_cons, List.mem_append, List.mem_singleton] at h
    rcases h with rfl | inside | rfl
    · exact .inl (by decide)
    · rcases mem_escapeWhere inside with rfl | inLine
      · exact .inl (by decide)
      · obtain ⟨d, inText, rfl⟩ := List.mem_map.1 inLine
        unfold spaceForLineEnd
        split
        · exact .inl (by decide)
        · next other => exact .inr ⟨inText, fun feed => other (.inl feed)⟩
    · exact .inl (by decide)
  · next unspaced =>
    rcases mem_escapeWhere h with rfl | inText
    · exact .inl (by decide)
    · refine .inr ⟨inText, ?_⟩
      rintro rfl
      exact unspaced (List.any_eq_true.2 ⟨_, inText, by decide⟩)

theorem Drawn.linkDestination (h : Drawn language q t) : Drawn language q (linkDestination t) := by
  have marks : Drawn language q "<>\\ " := drawn_marks (by decide)
  intro c mem
  rcases mem_linkDestination mem with mark | ⟨inText, -⟩
  · exact marks c mark
  · exact h c inText

theorem Drawn.link {href : Text} (h : Drawn language q t) (hhref : Drawn language q href) :
    Drawn language q (link t href) := by
  have opening : Drawn language q "[" := drawn_marks (by decide)
  have middle : Drawn language q "](" := drawn_marks (by decide)
  have closing : Drawn language q ")" := drawn_marks (by decide)
  exact (((opening.append (h.escapeWhere _)).append middle).append hhref.linkDestination).append
    closing

theorem Drawn.linkTo {href : Text} (hhref : Drawn language q href) (h : Drawn language q t) :
    Drawn language q (linkTo href t) := by
  unfold Markdown.linkTo
  split
  · exact h
  · split
    · exact hhref.link hhref
    · exact h.link hhref

theorem drawn_ticks (n : Nat) : Drawn language q (ticks n) := drawn_replicate n (by decide)

theorem Drawn.codeSpan (h : Drawn language q t) : Drawn language q (codeSpan t) := by
  have space : Drawn language q [' '] := drawn_marks (by decide)
  unfold Markdown.codeSpan
  split
  · exact ((drawn_ticks _).append (space.append h)).append (space.append (drawn_ticks _))
  · exact ((drawn_ticks _).append h).append (drawn_ticks _)

theorem drawn_tableNotice : Drawn language q language.tableNotice := by
  apply drawn_of_alphabet
  intro c mem
  simp [alphabet, mem]

theorem drawn_admonition (kind : Admonition) : Drawn language q (language.admonition kind) := by
  apply drawn_of_alphabet
  intro c mem
  cases kind <;> simp [alphabet, mem]

/-- A notice has its words in front of what it names and behind it. -/
theorem exists_notice_words (language : Language) :
    (∃ opening closing, ∀ name, language.unsupportedNotice name = opening ++ name ++ closing) ∧
      ∃ opening closing, ∀ source,
        language.malformedNotice source = opening ++ codeSpan source ++ closing := by
  cases language <;> exact ⟨⟨_, _, fun _ => rfl⟩, _, _, fun _ => rfl⟩

theorem Drawn.unsupportedNotice (h : Drawn language q t) :
    Drawn language q (language.unsupportedNotice t) := by
  obtain ⟨⟨opening, closing, eq⟩, -⟩ := exists_notice_words language
  have words : Drawn language q (language.unsupportedNotice []) := by
    apply drawn_of_alphabet
    intro c mem
    simp [alphabet, mem]
  rw [eq] at words ⊢
  have before : Drawn language q opening := words.of_subset (by simp)
  have behind : Drawn language q closing := words.of_subset (by simp)
  exact (before.append h).append behind

theorem Drawn.malformedNotice (h : Drawn language q t) :
    Drawn language q (language.malformedNotice t) := by
  obtain ⟨-, opening, closing, eq⟩ := exists_notice_words language
  have words : Drawn language q (language.malformedNotice []) := by
    apply drawn_of_alphabet
    intro c mem
    simp [alphabet, mem]
  rw [eq] at words ⊢
  have before : Drawn language q opening := words.of_subset (by simp)
  have behind : Drawn language q closing := words.of_subset (by simp)
  exact (before.append h.codeSpan).append behind

theorem drawn_supplied (h : ∀ c ∈ t, q c) : Drawn language q t := fun c mem => .inr (h c mem)

/-! ## Nodes in a line -/

mutual

theorem drawn_textContent : (n : Node) → Supplied q [n] → Drawn language q n.textContent
  | .text _, h => drawn_supplied (h.own List.mem_cons_self)
  | .lineBreak, _ => drawn_marks (by decide)
  | .heading _ cs, h | .paragraph cs, h | .list _ cs, h | .item cs, h | .quote cs, h
  | .emphasis _ cs, h | .codeSpan cs, h | .link _ cs, h | .directive _ _ cs, h
  | .element _ _ cs, h => drawn_textContents cs h.children
  | .rule, _ | .table _, _ | .malformed _, _ => drawn_nil

theorem drawn_textContents : (ns : List Node) → Supplied q ns →
    Drawn language q (Forest.textContents ns)
  | [], _ => drawn_nil
  | n :: ns, h => (drawn_textContent n h.first).append (drawn_textContents ns h.rest)

end

mutual

theorem drawn_writeNode {out : Draft} (hout : Drawn language q out) :
    (n : Node) → Supplied q [n] → Drawn language q (writeNode language n out)
  | .text content, h => hout.join (drawn_supplied (h.own List.mem_cons_self)).collapse
  | .emphasis kind cs, h => hout.emphasize kind (drawn_writeForest drawn_nil cs h.children).reverse
  | .codeSpan cs, h => by
      have code : Drawn language q (Text.collapse (Forest.textContents cs)) :=
        (drawn_textContents cs h.children).collapse
      simp only [writeNode]
      split
      · exact hout
      · exact hout.join code.codeSpan
  | .link href cs, h => by
      have shown := (drawn_writeForest drawn_nil cs h.children).reverse.trim
      exact hout.join (.linkTo (drawn_supplied (h.own List.mem_cons_self)) shown)
  | .lineBreak, _ => hout.breakLine
  | .element _ _ cs, h => drawn_writeForest hout cs h.children
  | .malformed source, h => by
      have written : Drawn language q source := drawn_supplied (h.own List.mem_cons_self)
      exact hout.join written.trim.malformedNotice
  | .table _, _ => hout.join drawn_tableNotice
  | .directive .code _ cs, h =>
      hout.join (drawn_textContents cs h.children).trim.collapse.codeSpan
  | .directive (.unsupported name) _ _, h =>
      hout.join (drawn_supplied (h.own List.mem_cons_self)).unsupportedNotice
  | .directive (.admonition _) _ cs, h => drawn_writeForest hout cs h.children
  | .rule, _ => hout.join (drawn_marks (by decide))
  | .heading _ cs, h | .paragraph cs, h | .list _ cs, h | .item cs, h | .quote cs, h =>
      (drawn_writeForest hout cs h.children).join (drawn_marks (by decide))

theorem drawn_writeForest {out : Draft} (hout : Drawn language q out) :
    (ns : List Node) → Supplied q ns → Drawn language q (writeForest language ns out)
  | [], _ => hout
  | n :: ns, h => drawn_writeForest (drawn_writeNode hout n h.first) ns h.rest

end

theorem drawn_inlineText {cs : Forest} (h : Supplied q cs) :
    Drawn language q (inlineText language cs) :=
  (drawn_writeForest drawn_nil cs h).reverse

/-! ## Blocks -/

theorem drawn_headingText (level : Nat) (h : Drawn language q t) :
    Drawn language q (headingText level t) := by
  have space : Drawn language q [' '] := drawn_marks (by decide)
  simp only [headingText]
  split
  · exact drawn_nil
  · refine (drawn_replicate _ (by decide)).append (space.append (drawn_intercalate space ?_))
    intro piece mem
    obtain ⟨line, segment, rfl⟩ := List.mem_map.1 (List.mem_filter.1 mem).1
    exact (h.segment segment).trim

theorem drawn_codeBlock {info : Text} (hinfo : Drawn language q info) (h : Drawn language q t) :
    Drawn language q (codeBlock info t) := by
  have feed : Drawn language q ['\n'] := drawn_marks (by decide)
  have code := h.of_subset (Text.isPrefix_dropEndWhile (fun c => c == '\n' || c == '\r') t).subset
  exact (((drawn_ticks _).append hinfo).append (feed.append code)).append
    (feed.append (drawn_ticks _))

theorem drawn_quoteText (h : Drawn language q t) : Drawn language q (quoteText t) := by
  refine drawn_joinLines fun l mem => ?_
  obtain ⟨line, inText, rfl⟩ := List.mem_map.1 mem
  unfold quoteLine
  split
  · exact drawn_marks (by decide)
  · have mark : Drawn language q ['>', ' '] := drawn_marks (by decide)
    exact mark.append (h.line inText)

theorem drawn_boxText {opening title : Text} (hopening : Drawn language q opening)
    (htitle : Drawn language q title) (h : Drawn language q t) :
    Drawn language q (boxText opening title t) := by
  have space : Drawn language q [' '] := drawn_marks (by decide)
  have before : Drawn language q " **" := drawn_marks (by decide)
  have behind : Drawn language q "**" := drawn_marks (by decide)
  simp only [boxText]
  apply drawn_quoteText
  refine (hopening.append ?_).append ?_
  · split
    · exact drawn_nil
    · exact (before.append htitle).append behind
  · split
    · exact drawn_nil
    · exact space.append h.trim

theorem contains_ownMarks_of_isDigit {c : Char} (h : c.isDigit = true) :
    ownMarks.contains c = true := by
  obtain ⟨low, high⟩ := Char.isDigit_iff_toNat.1 h
  have code : c.toNat ∈ List.range' '0'.toNat 10 := by
    have last : '9'.toNat = '0'.toNat + 9 := by decide
    simp only [List.mem_range'_1]
    omega
  have each : ∀ n ∈ List.range' '0'.toNat 10, ownMarks.contains (Char.ofNat n) = true := by decide
  exact Char.ofNat_toNat c ▸ each _ code

theorem drawn_itemMarker (ordered : Bool) (number : Nat) :
    Drawn language q (itemMarker ordered number) := by
  have digits : Drawn language q (Nat.toDigits 10 number) := by
    apply drawn_marks
    rw [List.all_eq_true]
    intro c mem
    exact contains_ownMarks_of_isDigit (Nat.isDigit_of_mem_toDigits (by decide) (by decide) mem)
  unfold itemMarker
  split
  · exact digits.append (drawn_marks (by decide))
  · exact drawn_marks (by decide)

theorem drawn_indentLine (width : Nat) (h : Drawn language q t) :
    Drawn language q (indentLine width t) := by
  unfold indentLine
  split
  · exact drawn_nil
  · exact (drawn_replicate width (by decide)).append h

theorem drawn_markLines {marker : Text} (hmarker : Drawn language q marker) {ls : List Text}
    (h : ∀ l ∈ ls, Drawn language q l) : ∀ l ∈ markLines marker ls, Drawn language q l := by
  intro l mem
  cases ls with
  | nil =>
      rw [markLines, List.mem_singleton] at mem
      exact mem ▸ hmarker.of_subset (Text.isPrefix_trimEnd marker).subset
  | cons first later =>
      rw [markLines, List.mem_cons, List.mem_map] at mem
      rcases mem with rfl | ⟨line, inLater, rfl⟩
      · exact hmarker.append (h first List.mem_cons_self)
      · exact drawn_indentLine _ (h line (List.mem_cons_of_mem _ inLater))

theorem drawn_tidy (h : Drawn language q t) : Drawn language q (tidy t) := by
  refine drawn_joinLines fun l mem => ?_
  rcases mem_tidyLines mem with inText | rfl
  · exact h.line inText
  · exact drawn_nil

theorem drawn_directiveText {kind : DirectiveKind} {parameters : Dictionary} {cs : Forest}
    (h : Supplied q [.directive kind parameters cs]) :
    Drawn language q (directiveText language kind parameters cs) := by
  have parameter : ∀ name : Text, Drawn language q ((parameters.get? name).getD []) := by
    intro name
    cases value : parameters.get? name with
    | none => exact drawn_nil
    | some t =>
        have here : t ∈ (Node.directive kind parameters cs).strings := by
          have listed := Document.mem_dictionaryStrings value
          cases kind <;> simp [Node.strings, listed]
        exact drawn_supplied (h.own here)
  cases kind with
  | code => exact drawn_codeBlock (parameter "language") (drawn_textContents cs h.children)
  | admonition kind =>
      exact drawn_boxText (drawn_admonition kind) (parameter "title") (drawn_inlineText h.children)
  | unsupported name => exact (drawn_supplied (h.own List.mem_cons_self)).unsupportedNotice

/-! ## Layouts -/

/-- The parts of a layout and its draft are drawn. -/
def Flow.Drawn (language : Language) (q : Char → Prop) (f : Flow) : Prop :=
  (∀ part ∈ f.parts, Markdown.Drawn language q part) ∧ Markdown.Drawn language q f.draft

namespace Flow.Drawn

variable {f : Flow}

theorem start : Flow.start.Drawn language q := ⟨by simp [Flow.start], drawn_nil⟩

theorem close (h : f.Drawn language q) : f.close.Drawn language q := by
  unfold Flow.close
  simp only
  split
  · exact ⟨h.1, drawn_nil⟩
  · refine ⟨List.forall_mem_cons.2 ⟨?_, h.1⟩, drawn_nil⟩
    refine drawn_joinLines fun l mem => ?_
    obtain ⟨line, segment, rfl⟩ := List.mem_map.1 mem
    intro c inside
    rcases mem_escapeFenceOpener inside with inLine | rfl
    · exact h.2.reverse.trim.segment segment c inLine
    · exact drawn_marks (t := ['\\']) (by decide) _ (by simp)

theorem add (h : f.Drawn language q) {part : Text} (hpart : Markdown.Drawn language q part) :
    (f.add part).Drawn language q := by
  unfold Flow.add
  split
  · exact h.close
  · exact ⟨List.forall_mem_cons.2 ⟨hpart, h.close.1⟩, drawn_nil⟩

theorem texts (h : f.Drawn language q) : ∀ t ∈ f.texts, Markdown.Drawn language q t :=
  fun t mem => h.close.1 t (List.mem_reverse.1 mem)

theorem pageText (h : f.Drawn language q) : Markdown.Drawn language q f.pageText :=
  drawn_intercalate (drawn_marks (by decide)) h.texts

theorem itemLines (h : f.Drawn language q) (ordered : Bool) (number : Nat) :
    ∀ l ∈ itemLines (itemMarker ordered number) f, Markdown.Drawn language q l := by
  have item : Markdown.Drawn language q f.itemText := drawn_joinLines h.texts
  exact drawn_markLines (drawn_itemMarker ordered number) fun l mem => item.line mem

end Flow.Drawn

mutual

theorem drawn_layNode {f : Flow} (hf : f.Drawn language q) :
    (n : Node) → Supplied q [n] → (layNode language n f).Drawn language q
  | .heading level cs, h => hf.add (drawn_headingText level (drawn_inlineText h.children))
  | .paragraph cs, h => (drawn_layForest hf.close cs h.children).close
  | .list ordered cs, h => hf.add (drawn_joinLines (drawn_listLines ordered 1 2 cs h.children))
  | .item cs, h => by
      have item := drawn_layForest .start cs h.children
      exact hf.add (drawn_joinLines (item.itemLines false 1))
  | .quote cs, h => by
      have page := (drawn_layForest .start cs h.children).pageText
      exact hf.add (drawn_quoteText (drawn_tidy page))
  | .rule, _ => hf.add (drawn_marks (by decide))
  | .table _, _ => hf.add drawn_tableNotice
  | .directive _ _ _, h => hf.add (drawn_directiveText h)
  | .element _ _ cs, h => drawn_layForest hf cs h.children
  | .text content, h => ⟨hf.1, drawn_writeNode hf.2 (.text content) h⟩
  | .emphasis kind cs, h => ⟨hf.1, drawn_writeNode hf.2 (.emphasis kind cs) h⟩
  | .codeSpan cs, h => ⟨hf.1, drawn_writeNode hf.2 (.codeSpan cs) h⟩
  | .link href cs, h => ⟨hf.1, drawn_writeNode hf.2 (.link href cs) h⟩
  | .lineBreak, h => ⟨hf.1, drawn_writeNode hf.2 .lineBreak h⟩
  | .malformed source, h => ⟨hf.1, drawn_writeNode hf.2 (.malformed source) h⟩

theorem drawn_layForest {f : Flow} (hf : f.Drawn language q) :
    (ns : List Node) → Supplied q ns → (layForest language ns f).Drawn language q
  | [], _ => hf
  | n :: ns, h => drawn_layForest (drawn_layNode hf n h.first) ns h.rest

theorem drawn_listLines (ordered : Bool) (number width : Nat) :
    (ns : List Node) → Supplied q ns →
      ∀ l ∈ listLines language ordered number width ns, Drawn language q l
  | [], _ => by simp [listLines]
  | n :: ns, h => by
      have here : (layNode language n .start).Drawn language q := drawn_layNode .start n h.first
      have later := fun number width => drawn_listLines ordered number width ns h.rest
      cases n with
      | list nested cs =>
          have inner := drawn_joinLines (drawn_listLines nested 1 2 cs h.first.children)
          simp only [listLines, List.forall_mem_append]
          refine ⟨fun l mem => ?_, later number width⟩
          obtain ⟨line, inside, rfl⟩ := List.mem_map.1 mem
          exact drawn_indentLine width (inner.line inside)
      | item cs =>
          have item : (layForest language cs .start).Drawn language q :=
            drawn_layForest .start cs h.first.children
          simp only [listLines, List.forall_mem_append]
          exact ⟨item.itemLines ordered number, later _ _⟩
      | _ =>
          rw [listLines_other ns (by simp) (by simp)]
          split
          · exact later number width
          · exact List.forall_mem_append.2 ⟨here.itemLines ordered number, later _ _⟩

end

/-- **Where characters come from.**  A character of a page is one that the writer writes by
itself, or it stands in a string of the forest. -/
theorem mem_render {nodes : Forest} {c : Char} (h : c ∈ render language nodes) :
    c ∈ alphabet language ∨ ∃ s ∈ Forest.strings nodes, c ∈ s := by
  have supplied : Supplied (fun c => ∃ s ∈ Forest.strings nodes, c ∈ s) nodes :=
    fun s mem c inside => ⟨s, mem, inside⟩
  exact drawn_tidy (drawn_layForest .start nodes supplied).pageText c h

end

end Markdown

end Wikidown
