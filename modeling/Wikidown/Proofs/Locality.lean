/-
# Wikidown.Proofs.Locality -- nothing reaches back into complete markup

The readers of a scan look for the ends of things in all of the markup that is left: for a quote,
for `]]>`, for the next `<`.  Still a piece whose end has been found is decided by its own
characters, and whatever stands behind it, it is read the same.  `Piece.Complete` says that a
piece shows its end itself; a text never does, since it goes on up to the next `<`, and a
malformed tag could have been finished by what follows.

`run_append` is the idea: a run of characters that has stopped does not go on when something is
added behind.  From it each reader keeps what it has read (`tagBody?_append`, `endTag?_append`,
`Text.cut?_append`), and so does each way in which a `<` is read (`Keeps`).  `scan_append` is the
step over one piece and `pieces_append` the run.  The main statement is `tokens_append`.
-/
import Wikidown.Proofs.Coverage
import Wikidown.Proofs.Spelling

namespace Wikidown

set_option autoImplicit false

namespace Text

/-! ## Runs and cuts that are over -/

/-- A run that has stopped does not go on into what is added behind. -/
theorem run_append {p : Char → Bool} {t : Text} (stops : t.dropWhile p ≠ []) (more : Text) :
    (t ++ more).takeWhile p = t.takeWhile p ∧
      (t ++ more).dropWhile p = t.dropWhile p ++ more := by
  have all : ∀ c ∈ t.takeWhile p, p c = true := List.all_eq_true.1 List.all_takeWhile
  have ends : EndsRun p (t.dropWhile p ++ more) := by
    have refused := endsRun_dropWhile p t
    cases rest : t.dropWhile p with
    | nil => exact absurd rest stops
    | cons c behind => exact endsRun_cons (refused c (by rw [rest]; rfl))
  have whole : t ++ more = t.takeWhile p ++ (t.dropWhile p ++ more) := by
    rw [← List.append_assoc, List.takeWhile_append_dropWhile]
  rw [whole]
  exact ⟨takeWhile_run all ends, dropWhile_run all ends⟩

theorem cut?_append {mark t before rest : Text} (ne : mark ≠ [])
    (h : cut? mark t = some (before, rest)) (more : Text) :
    cut? mark (t ++ more) = some (before, rest ++ more) := by
  obtain ⟨rfl, first⟩ := (cut?_eq_some_iff ne).1 h
  exact (cut?_eq_some_iff ne).2 ⟨List.append_assoc .., first⟩

/-- A text that holds a character which a mark does not starts with the mark only by itself. -/
theorem isPrefix_of_isPrefix_append {mark t more : Text} {c : Char} (here : c ∈ t) (no : c ∉ mark)
    (h : mark <+: t ++ more) : mark <+: t := by
  rcases List.prefix_or_prefix_of_prefix h (List.prefix_append t more) with starts | short
  · exact starts
  · exact absurd (short.subset here) no

end Text

namespace Markup

open Text (run_append cut?_append)

/-! ## Tags -/

/-- The same slice, with more behind its rest. -/
def Slice.followedBy {α : Type} (s : Slice α) (more : Text) : Slice α :=
  ⟨s.value, s.source, s.rest ++ more⟩

theorem attributeValue?_append {t : Text} {v : Slice Text} (h : attributeValue? t = some v)
    (stops : v.rest ≠ []) (more : Text) :
    attributeValue? (t ++ more) = some (v.followedBy more) := by
  cases t with
  | nil => simp [attributeValue?] at h
  | cons c t =>
      by_cases quoted : c = '"' ∨ c = '\''
      · simp only [attributeValue?, if_pos quoted] at h
        split at h
        · cases h
        · next quote after eq =>
          obtain rfl := Option.some.inj h
          obtain ⟨inside, behind⟩ := run_append (p := (· != c)) (t := t) (by simp [eq]) more
          simp only [List.cons_append, attributeValue?, if_pos quoted, inside, behind, eq]
          rfl
      · simp only [attributeValue?, if_neg quoted] at h
        obtain rfl := Option.some.inj h
        obtain ⟨inside, behind⟩ := run_append stops more
        simp only [List.cons_append] at inside behind
        simp only [List.cons_append, attributeValue?, if_neg quoted, inside, behind]
        rfl

/-- What stands behind white space is not read as an assigned value later. -/
theorem attribute?_append {t : Text} {a : Slice (Text × Text)} (h : attribute? t = some a)
    (stops : a.rest.dropWhile isSpace ≠ []) (more : Text) :
    attribute? (t ++ more) = some (a.followedBy more) := by
  simp only [attribute?] at h
  split at h
  · cases h
  · next named =>
    split at h
    · next assigned eq =>
      obtain ⟨v, read, rfl⟩ := Option.map_eq_some_iff.1 h
      have filled : v.rest ≠ [] := by
        rintro empty
        simp [empty] at stops
      have valued : assigned.dropWhile isSpace ≠ [] := by
        intro empty
        rw [empty] at read
        cases read
      have nameEnds : t.dropWhile isAttributeChar ≠ [] := by
        intro empty
        rw [empty] at eq
        cases eq
      obtain ⟨name, after⟩ := run_append nameEnds more
      obtain ⟨gap, behind⟩ := run_append (t := t.dropWhile isAttributeChar) (p := isSpace)
        (by simp [eq]) more
      obtain ⟨gap', value⟩ := run_append valued more
      simp only [attribute?, name, named, after, gap, behind, eq, List.cons_append, gap', value,
        attributeValue?_append read filled]
      rfl
    · next unassigned =>
      obtain rfl := Option.some.inj h
      have nameEnds : t.dropWhile isAttributeChar ≠ [] := by
        intro empty
        simp [empty] at stops
      obtain ⟨name, after⟩ := run_append nameEnds more
      have behind : (t.dropWhile isAttributeChar ++ more).dropWhile isSpace =
          (t.dropWhile isAttributeChar).dropWhile isSpace ++ more := (run_append stops more).2
      simp only [attribute?, name, if_neg named, after, behind]
      split
      · next assigned added =>
        cases eq : (t.dropWhile isAttributeChar).dropWhile isSpace with
        | nil => exact absurd eq stops
        | cons c rest =>
            rw [eq, List.cons_append] at added
            obtain rfl := (List.cons.inj added).1
            exact absurd eq (unassigned rest)
      · rfl

/-- A stray slash in a tag is passed over. -/
theorem tagBody?_of_stray {t rest : Text} (d : Dictionary)
    (h : t.dropWhile isSpace = '/' :: rest) (stray : rest.head? ≠ some '>') :
    tagBody? d t = (tagBody? d rest).map (Slice.behind (t.takeWhile isSpace ++ ['/'])) := by
  rw [tagBody?]
  split
  · next eq =>
    obtain ⟨-, rfl⟩ := List.cons.inj (h.symm.trans eq)
    exact absurd rfl stray
  · next eq => simp [h] at eq
  · next eq =>
    obtain ⟨-, rfl⟩ := List.cons.inj (h.symm.trans eq)
    rfl
  · next other => exact absurd h (other rest)

/-- White space alone does not end a tag. -/
theorem dropWhile_of_tagBody? {d : Dictionary} {t : Text} {body : Slice (Dictionary × Bool)}
    (h : tagBody? d t = some body) : t.dropWhile isSpace ≠ [] := by
  intro empty
  rw [tagBody?] at h
  split at h
  · next eq => simp [empty] at eq
  · next eq => simp [empty] at eq
  · next eq => simp [empty] at eq
  · rw [empty] at h
    cases h

/-- What is read of a tag stays, whatever is added behind it. -/
theorem tagBody?_append {d : Dictionary} {t : Text} {body : Slice (Dictionary × Bool)}
    (h : tagBody? d t = some body) (more : Text) :
    tagBody? d (t ++ more) = some (body.followedBy more) := by
  have stops := dropWhile_of_tagBody? h
  obtain ⟨gap, behind⟩ := run_append stops more
  revert body
  fun_induction tagBody? d t with
  | case1 d t after eq =>
      intro body h
      obtain rfl := Option.some.inj h
      rw [eq, List.cons_append, List.cons_append] at behind
      rw [tagBody?_of_slash d behind, gap]
      rfl
  | case2 d t after eq =>
      intro body h
      obtain rfl := Option.some.inj h
      rw [eq, List.cons_append] at behind
      rw [tagBody?_of_greater d behind, gap]
      rfl
  | case3 d t after other eq ih =>
      intro body h
      obtain ⟨inner, found, rfl⟩ := Option.map_eq_some_iff.1 h
      have inside := dropWhile_of_tagBody? found
      obtain ⟨gap', behind'⟩ := run_append inside more
      have stray : (after ++ more).head? ≠ some '>' := by
        cases after with
        | nil => exact absurd rfl inside
        | cons c after =>
            intro greater
            obtain rfl := Option.some.inj greater
            exact other after rfl
      rw [eq, List.cons_append] at behind
      rw [tagBody?_of_stray d behind stray, gap, ih inside gap' behind' found]
      rfl
  | case4 => simp
  | case5 d t a _ _ _ read ih =>
      intro body h
      obtain ⟨inner, found, rfl⟩ := Option.map_eq_some_iff.1 h
      have inside := dropWhile_of_tagBody? found
      obtain ⟨gap', behind'⟩ := run_append inside more
      have read' := attribute?_append read inside more
      rw [← behind] at read'
      have later : tagBody? (d.insert (a.followedBy more).value.1 (a.followedBy more).value.2)
          (a.followedBy more).rest = some (inner.followedBy more) := ih inside gap' behind' found
      rw [tagBody?_of_attribute d read', gap, later]
      rfl

theorem tag?_append {name t rest : Text} {token : Token} (h : tag? name t = some (token, rest))
    (more : Text) : tag? name (t ++ more) = some (token, rest ++ more) := by
  obtain ⟨⟨⟨attributes, isEmpty⟩, source, behind⟩, found, eq⟩ := Option.map_eq_some_iff.1 h
  rw [tag?, tagBody?_append found more]
  cases isEmpty with
  | true =>
      obtain ⟨rfl, rfl⟩ := Prod.mk.inj eq
      rfl
  | false =>
      obtain ⟨rfl, rfl⟩ := Prod.mk.inj eq
      rfl

/-- A name that something stands behind does not go on into what is added. -/
theorem splitName_append {t : Text} (stops : (splitName t).2 ≠ []) (more : Text) :
    splitName (t ++ more) = ((splitName t).1, (splitName t).2 ++ more) := by
  cases t with
  | nil => exact absurd rfl stops
  | cons c t =>
      by_cases start : isNameStart c = true
      · simp only [splitName, if_pos start] at stops ⊢
        obtain ⟨name, behind⟩ := run_append stops more
        rw [List.cons_append] at name behind
        simp only [List.cons_append, if_pos start, name, behind]
      · simp only [List.cons_append, splitName, if_neg start]

theorem endTag?_append {t rest : Text} {token : Token} (h : endTag? t = some (token, rest))
    (more : Text) : endTag? (t ++ more) = some (token, rest ++ more) := by
  simp only [endTag?] at h
  split at h
  · next after eq =>
    have stops : (splitName t).2 ≠ [] := by
      intro empty
      rw [empty] at eq
      cases eq
    obtain ⟨gap, behind⟩ := run_append (t := (splitName t).2) (p := isSpace) (by simp [eq]) more
    split at h
    · cases h
    · next named =>
      obtain ⟨rfl, rfl⟩ := Prod.mk.inj (Option.some.inj h)
      simp only [endTag?, splitName_append stops more, gap, behind, eq, List.cons_append, named]
      rfl
  · cases h

/-! ## What decides how markup is read -/

theorem scanBracket_section (body : Text) :
    scanBracket ("![CDATA[" ++ body) = asPiece (cdataSection body) := by
  have opened : Text.dropStart? "![CDATA[" ("![CDATA[" ++ body) = some body :=
    Text.dropStart?_eq_some_iff.2 rfl
  simp only [scanBracket, opened]

theorem scanBracket_comment (body : Text) :
    scanBracket ("!--" ++ body) = skipThrough "-->" ('<' :: ("!--" ++ body)) := by
  rfl

theorem scanBracket_declaration {c : Char} {t : Text} (start : c = '!' ∨ c = '?')
    (noSection : ¬ "![CDATA[".toList <+: c :: t) (noComment : ¬ "!--".toList <+: c :: t) :
    scanBracket (c :: t) = skipThrough ">" ('<' :: c :: t) := by
  have opened := Text.dropStart?_eq_none_iff.2 noSection
  have apart : Text.startsWith "!--" (c :: t) = false := by
    rw [Bool.eq_false_iff]
    exact fun starts => noComment (List.isPrefixOf_iff_prefix.1 starts)
  simp only [scanBracket, opened, apart]
  rcases start with rfl | rfl <;> rfl

theorem scanBracket_endTag (body : Text) :
    scanBracket ('/' :: body) = tagPiece ('/' :: body) (endTag? body) := rfl

/-- Markup that starts with none of the marks is a tag where a name starts, and text where none
does. -/
theorem scanBracket_other {c : Char} (t : Text) (slash : c ≠ '/') (mark : ¬ (c = '!' ∨ c = '?')) :
    scanBracket (c :: t) =
      if isNameStart c then
        tagPiece (c :: t) (tag? (splitName (c :: t)).1 (splitName (c :: t)).2)
      else asPiece (textRun '<' (c :: t)) := by
  have opened : Text.dropStart? "![CDATA[" (c :: t) = none := by
    rw [Text.dropStart?_eq_none_iff]
    intro starts
    exact mark (.inl (List.cons_prefix_cons.1 starts).1.symm)
  have apart : Text.startsWith "!--" (c :: t) = false := by
    rw [Bool.eq_false_iff]
    intro starts
    exact mark (.inl (List.cons_prefix_cons.1 (List.isPrefixOf_iff_prefix.1 starts)).1.symm)
  simp only [scanBracket, opened, apart, Bool.false_eq_true, if_false, if_neg mark]

/-! ## Pieces that show their end -/

/-- The piece ends with what closes a piece of its kind.  A text is closed by nothing of its own,
and what is malformed is not closed. -/
def Piece.Complete : Piece → Prop
  | .token (.startTag ..) | .token (.emptyTag ..) | .token (.endTag ..) => True
  | .token (.cdata content source) => source = cdataOpen ++ content ++ cdataClose
  | .token (.text ..) | .token (.malformed _) => False
  | .skipped source =>
      ">".toList <:+ source ∧ ("<!--".toList <+: source → "-->".toList <:+ source)

/-- The end of the piece is known from the markup that it stands in, where `rest` is what stands
behind it: it is complete, or it is a text and `rest` ends it. -/
def Piece.Settled (rest : Text) : Piece → Prop
  | .token (.text ..) => rest ≠ []
  | piece => piece.Complete

theorem Piece.Complete.settled {piece : Piece} (h : piece.Complete) (rest : Text) :
    piece.Settled rest := by
  cases piece with
  | skipped source => exact h
  | token t => cases t <;> first | exact h | exact h.elim

variable {t : Text}

theorem textRun_append {c : Char} (stops : (textRun c t).2 ≠ []) (more : Text) :
    textRun c (t ++ more) = (textRun c t).map id (· ++ more) := by
  obtain ⟨inside, behind⟩ := run_append stops more
  simp only [textRun, inside, behind]
  rfl

theorem cdataSection_append {rest : Text}
    (settled : (asPiece (cdataSection t)).1.Settled rest) (more : Text) :
    cdataSection (t ++ more) = (cdataSection t).map id (· ++ more) := by
  cases found : Text.cut? cdataClose t with
  | some read =>
      simp only [cdataSection, found, cut?_append (by decide) found more]
      rfl
  | none =>
      simp only [cdataSection, found] at settled
      have same : (cdataOpen ++ t).length = (cdataOpen ++ t ++ cdataClose).length :=
        congrArg List.length settled
      simp only [List.length_append] at same
      have closing : cdataClose.length = 3 := rfl
      omega

theorem skipThrough_append {mark : Text} (ne : mark ≠ []) (occurs : mark <:+: t) (more : Text) :
    skipThrough mark (t ++ more) = (skipThrough mark t).map id (· ++ more) := by
  cases found : Text.cut? mark t with
  | some read =>
      simp only [skipThrough, found, cut?_append ne found more]
      rfl
  | none => exact absurd occurs ((Text.cut?_eq_none_iff ne).1 found)

/-- Without the mark all of the markup is skipped. -/
theorem skipThrough_of_lacks {mark : Text} (ne : mark ≠ []) (lacks : ¬ mark <:+: t) :
    skipThrough mark t = (.skipped t, []) := by
  rw [skipThrough, (Text.cut?_eq_none_iff ne).2 lacks]

/-- A tag that was finished stays; what is malformed was not complete. -/
theorem tagPiece_append {more t' : Text} {tag tag' : Option (Token × Text)}
    (keeps : ∀ token rest, tag = some (token, rest) → tag' = some (token, rest ++ more))
    (settled : (tagPiece t tag).1.Settled (tagPiece t tag).2) :
    tagPiece t' tag' = (tagPiece t tag).map id (· ++ more) := by
  cases tag with
  | some read =>
      rw [keeps read.1 read.2 rfl]
      rfl
  | none =>
      have unfinished : ∃ source, (tagPiece t none).1 = .token (.malformed source) := by
        simp only [tagPiece, Option.getD_none, asPiece, malformed]
        split
        · exact ⟨_, rfl⟩
        · exact ⟨_, rfl⟩
      obtain ⟨source, eq⟩ := unfinished
      rw [eq] at settled
      exact settled.elim

/-! ## One piece and all of them -/

/-- Whether what is read behind a `<` is the same whatever is added behind the markup. -/
def Keeps (t : Text) : Prop :=
  (scanBracket t).1.Settled (scanBracket t).2 →
    ∀ more, scanBracket (t ++ more) = (scanBracket t).map id (· ++ more)

theorem keeps_section (body : Text) : Keeps ("![CDATA[" ++ body) := by
  intro settled more
  rw [scanBracket_section] at settled ⊢
  rw [List.append_assoc, scanBracket_section, asPiece, cdataSection_append settled]
  rfl

theorem keeps_comment (body : Text) : Keeps ("!--" ++ body) := by
  intro settled more
  rw [scanBracket_comment] at settled ⊢
  rw [List.append_assoc, scanBracket_comment]
  have occurs : "-->".toList <:+: '<' :: ("!--".toList ++ body) := by
    refine Decidable.byContradiction fun lacks => ?_
    rw [skipThrough_of_lacks (by decide) lacks] at settled
    exact lacks (settled.2 ⟨body, rfl⟩).isInfix
  exact skipThrough_append (by decide) occurs more

/-- The `>` that ends a declaration keeps it from being anything else with more behind it. -/
theorem keeps_declaration {c : Char} (start : c = '!' ∨ c = '?')
    (noSection : ¬ "![CDATA[".toList <+: c :: t) (noComment : ¬ "!--".toList <+: c :: t) :
    Keeps (c :: t) := by
  intro settled more
  rw [scanBracket_declaration start noSection noComment] at settled ⊢
  have occurs : ">".toList <:+: '<' :: c :: t := by
    refine Decidable.byContradiction fun lacks => ?_
    rw [skipThrough_of_lacks (by decide) lacks] at settled
    exact lacks settled.1.isInfix
  have here : '>' ∈ c :: t := by
    have inside := occurs.subset (List.mem_singleton_self '>')
    exact List.mem_of_ne_of_mem (by decide) inside
  rw [List.cons_append, scanBracket_declaration start]
  · exact skipThrough_append (by decide) occurs more
  · exact fun starts => noSection (Text.isPrefix_of_isPrefix_append here (by decide) starts)
  · exact fun starts => noComment (Text.isPrefix_of_isPrefix_append here (by decide) starts)

theorem keeps_endTag (body : Text) : Keeps ('/' :: body) := by
  intro settled more
  rw [List.cons_append, scanBracket_endTag, scanBracket_endTag] at *
  exact tagPiece_append (fun token rest read => endTag?_append read more) settled

theorem keeps_other {c : Char} (slash : c ≠ '/') (mark : ¬ (c = '!' ∨ c = '?')) :
    Keeps (c :: t) := by
  intro settled more
  rw [scanBracket_other t slash mark] at settled ⊢
  rw [List.cons_append, scanBracket_other (t ++ more) slash mark, ← List.cons_append]
  by_cases named : isNameStart c = true
  · simp only [if_pos named] at settled ⊢
    refine tagPiece_append (fun token rest read => ?_) settled
    have stops : (splitName (c :: t)).2 ≠ [] := by
      intro empty
      rw [empty] at read
      obtain ⟨body, found, -⟩ := Option.map_eq_some_iff.1 read
      exact dropWhile_of_tagBody? found rfl
    rw [splitName_append stops]
    exact tag?_append read more
  · simp only [if_neg named] at settled ⊢
    rw [asPiece, textRun_append settled]
    rfl

theorem keeps (t : Text) : Keeps t := by
  by_cases isSection : "![CDATA[".toList <+: t
  · obtain ⟨body, rfl⟩ := isSection
    exact keeps_section body
  by_cases isComment : "!--".toList <+: t
  · obtain ⟨body, rfl⟩ := isComment
    exact keeps_comment body
  cases t with
  | nil => exact fun settled => absurd rfl settled
  | cons c t =>
      by_cases start : c = '!' ∨ c = '?'
      · exact keeps_declaration start isSection isComment
      · by_cases slash : c = '/'
        · subst slash
          exact keeps_endTag t
        · exact keeps_other slash start

/-- The step: a piece that is settled is read the same whatever is added behind the markup. -/
theorem scan_append {c : Char} (settled : (scan c t).1.Settled (scan c t).2) (more : Text) :
    scan c (t ++ more) = (scan c t).map id (· ++ more) := by
  by_cases bracket : c = '<'
  · simp only [scan, if_pos bracket] at settled ⊢
    exact keeps t settled more
  · simp only [scan, if_neg bracket] at settled ⊢
    rw [asPiece, textRun_append settled]
    rfl

/-- A piece that has its shape and is no malformed tag is settled where something stands behind
it. -/
theorem Piece.Shaped.settled {rest : Text} {piece : Piece} (shaped : piece.Shaped rest)
    (follows : rest ≠ []) (wellFormed : ∀ source, piece ≠ .token (.malformed source)) :
    piece.Settled rest := by
  cases piece with
  | skipped source =>
      obtain ⟨-, ⟨-, ⟨closed, -⟩ | ⟨-, empty⟩⟩ | ⟨apart, -, ⟨closed, -⟩ | ⟨-, empty⟩⟩⟩ := shaped
      · exact ⟨(by decide : ">".toList <:+ "-->".toList).trans closed, fun _ => closed⟩
      · exact absurd empty follows
      · exact ⟨closed, fun starts => absurd starts apart⟩
      · exact absurd empty follows
  | token t =>
      cases t with
      | startTag | emptyTag | endTag => trivial
      | text content source => exact follows
      | cdata content source =>
          obtain ⟨-, closed | ⟨-, empty⟩⟩ := shaped
          · exact closed
          · exact absurd empty follows
      | malformed source => exact absurd rfl (wellFormed source)

/-- The run: markup whose last piece is complete is cut by itself, whatever stands behind it. -/
theorem pieces_append {a : Text} (b : Text)
    (wellFormed : ∀ source, Piece.token (.malformed source) ∉ pieces a)
    (complete : ∀ piece, (pieces a).getLast? = some piece → piece.Complete) :
    pieces (a ++ b) = pieces a ++ pieces b := by
  induction a using pieces.induct with
  | case1 =>
      rw [pieces]
      rfl
  | case2 c t ih =>
      rw [pieces] at wellFormed complete ⊢
      have settled : (scan c t).1.Settled (scan c t).2 := by
        by_cases last : (scan c t).2 = []
        · refine (complete _ ?_).settled _
          rw [last, pieces]
          rfl
        · refine (taken_scan c t).2.settled last fun source eq => ?_
          exact wellFormed source (eq ▸ List.mem_cons_self)
      have others : pieces ((scan c t).2 ++ b) = pieces (scan c t).2 ++ pieces b := by
        refine ih (fun source mem => wellFormed source (List.mem_cons_of_mem _ mem)) ?_
        intro piece last
        refine complete piece ?_
        rw [List.getLast?_cons, last]
        rfl
      rw [List.cons_append, pieces, scan_append settled]
      exact congrArg _ others

/-- A comment up to its first `-->` is one piece, whatever stands behind it. -/
theorem pieces_comment {comment : Text} (opened : "<!--".toList <+: comment)
    (closed : "-->".toList <:+ comment) (first : ¬ "-->".toList <:+: comment.dropLast) (b : Text) :
    pieces (comment ++ b) = .skipped comment :: pieces b := by
  obtain ⟨body, rfl⟩ := opened
  obtain ⟨before, eq⟩ := closed
  have found : Text.cut? "-->".toList ("<!--".toList ++ body ++ b) = some (before, b) := by
    rw [Text.cut?_eq_some_iff (by decide), eq]
    exact ⟨rfl, first⟩
  have read : scan '<' ("!--".toList ++ (body ++ b)) = (.skipped ("<!--".toList ++ body), b) := by
    rw [scan, if_pos rfl, scanBracket_comment, ← eq]
    show skipThrough "-->" ("<!--".toList ++ (body ++ b)) = _
    rw [← List.append_assoc, skipThrough, found]
  rw [List.append_assoc]
  exact pieces_cons read

/-- Markup without a malformed tag that is empty or ends exactly with a tag, a terminated CDATA
section or a terminated comment, declaration or instruction is tokenized by itself: what stands
behind it changes none of its tokens and is tokenized as if it stood alone.  So a terminated
comment between the two changes no token. -/
theorem tokens_append {a : Text} (wellFormed : ∀ source, Token.malformed source ∉ tokens a)
    (complete : ∀ piece, (pieces a).getLast? = some piece → piece.Complete) (b : Text) :
    tokens (a ++ b) = tokens a ++ tokens b ∧
      ∀ comment, "<!--".toList <+: comment → "-->".toList <:+ comment →
        ¬ "-->".toList <:+: comment.dropLast → tokens (a ++ comment ++ b) = tokens (a ++ b) := by
  have whole : ∀ source, Piece.token (.malformed source) ∉ pieces a :=
    fun source mem => wellFormed source (List.mem_filterMap.2 ⟨_, mem, rfl⟩)
  have apart : ∀ more, tokens (a ++ more) = tokens a ++ tokens more := by
    intro more
    rw [tokens, pieces_append more whole complete, List.filterMap_append]
    rfl
  refine ⟨apart b, fun comment opened closed first => ?_⟩
  have passed : tokens (comment ++ b) = tokens b := by
    rw [tokens, pieces_comment opened closed first]
    rfl
  rw [List.append_assoc, apart, passed, apart]

/-- An empty tag with a quoted `>` and a stray slash, a section, a declaration and a comment: each
shows its end, and some show the end of another kind inside. -/
def closedMarkup : Text :=
  "<Th.x b = '/>' / c=d/e f='&lt;' /><![CDATA[<p'>]]><?x --><!-- <b ]]> -->"

theorem tokens_closedMarkup :
    tokens (closedMarkup ++ "'>x</p") =
        [.emptyTag "th.x" (.ofList [("b", "/>"), ("c", "d/e"), ("f", "<")])
            "<Th.x b = '/>' / c=d/e f='&lt;' />",
          .cdata "<p'>" "<![CDATA[<p'>]]>", .text "'>x" "'>x", .malformed "</p"] ∧
      tokens (closedMarkup ++ "<!-->" ++ "'>x</p") = tokens (closedMarkup ++ "'>x</p") := by
  have before : tokens closedMarkup =
      [.emptyTag "th.x" (.ofList [("b", "/>"), ("c", "d/e"), ("f", "<")])
          "<Th.x b = '/>' / c=d/e f='&lt;' />",
        .cdata "<p'>" "<![CDATA[<p'>]]>"] := by decide +kernel
  have last : (pieces closedMarkup).getLast? = some (.skipped "<!-- <b ]]> -->") := by
    decide +kernel
  have behind : tokens "'>x</p" = [.text "'>x" "'>x", .malformed "</p"] := by decide +kernel
  obtain ⟨apart, unchanged⟩ := tokens_append (a := closedMarkup) (by simp [before])
    (by
      intro piece eq
      obtain rfl := Option.some.inj (last.symm.trans eq)
      exact ⟨by decide, fun _ => by decide⟩) "'>x</p"
  refine ⟨?_, unchanged "<!-->" (by decide) (by decide) (by decide)⟩
  rw [apart, before, behind]
  rfl

end Markup

end Wikidown
