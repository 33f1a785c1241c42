/-
# Wikidown.Proofs.Coverage -- the pieces of a markup cover it, each in the shape of its kind

Every reader takes a slice off the front of the markup and leaves the rest: nothing is
lost, repeated or made up, also where a tag cannot be finished and is read again as
malformed.  `Piece.Shaped piece rest` says what a slice of each kind looks like, where
`rest` is what stands behind it; `Cover t ps` says that `ps` are shaped pieces that make
up `t`.

`shaped_scan` is the step and `cover_pieces` the run; `pieces_cover` says it of the pieces
and the tokens of any markup.
-/
import Wikidown.Markup.Scan
import Wikidown.Proofs.Cuts

namespace Wikidown.Markup

set_option autoImplicit false

open Text (EndsRun endsRun_cons endsRun_dropWhile)

/-! ## Shapes -/

/-- A name as it is written: it starts like a name and holds nothing else, and what stands
behind it does not continue it. -/
def WrittenName (written behind : Text) : Prop :=
  (∃ c more, written = c :: more ∧ isNameStart c = true) ∧
    (∀ c ∈ written, isNameChar c = true) ∧ EndsRun isNameChar behind

/-- The shape of a token, where `rest` is what stands behind it. -/
def Token.Shaped (rest : Text) : Token → Prop
  | .startTag name _ source => ∃ written inside,
      source = '<' :: (written ++ (inside ++ ['>'])) ∧ Text.lower written = name ∧
        WrittenName written (inside ++ ['>'])
  | .emptyTag name _ source => ∃ written inside,
      source = '<' :: (written ++ (inside ++ ['/', '>'])) ∧ Text.lower written = name ∧
        WrittenName written (inside ++ ['/', '>'])
  | .endTag name source => ∃ written gap,
      source = '<' :: '/' :: (written ++ (gap ++ ['>'])) ∧ Text.lower written = name ∧
        WrittenName written (gap ++ ['>']) ∧ Text.isBlank gap = true
  | .text content source => content = decode source ∧ '<' ∉ source.tail ∧
      (∀ c more, source = '<' :: c :: more →
        isNameStart c = false ∧ c ≠ '/' ∧ c ≠ '!' ∧ c ≠ '?') ∧
      EndsRun (· != '<') rest
  | .cdata content source => ¬ cdataClose <:+: content ∧
      (source = cdataOpen ++ content ++ cdataClose ∨
        source = cdataOpen ++ content ∧ rest = [])
  | .malformed source => ∃ c more, source = '<' :: c :: more ∧
      (c = '/' ∨ isNameStart c = true) ∧ '<' ∉ c :: more ∧ '>' ∉ source.dropLast

/-- A stretch that goes through the first `mark`, or to the end where there is none. -/
def GoesThrough (mark source rest : Text) : Prop :=
  mark <:+ source ∧ ¬ mark <:+: source.dropLast ∨ ¬ mark <:+: source ∧ rest = []

/-- The shape of a piece, where `rest` is what stands behind it. -/
def Piece.Shaped (rest : Text) : Piece → Prop
  | .token t => t.Shaped rest
  | .skipped source => ¬ cdataOpen <+: source ∧
      (("<!--".toList <+: source ∧ GoesThrough "-->" source rest) ∨
        (¬ "<!--".toList <+: source ∧ ("<!".toList <+: source ∨ "<?".toList <+: source) ∧
          GoesThrough ">" source rest))

/-- Pieces that make up a markup, each with a slice of its shape that is not empty. -/
inductive Cover : Text → List Piece → Prop where
  | nil : Cover [] []
  | cons {piece : Piece} {rest : Text} {ps : List Piece} (filled : piece.source ≠ [])
      (shaped : piece.Shaped rest) (others : Cover rest ps) :
      Cover (piece.source ++ rest) (piece :: ps)

/-! ## What the readers of a tag take -/

theorem source_attributeValue? {t : Text} {v : Slice Text} (h : attributeValue? t = some v) :
    v.source ++ v.rest = t := by
  cases t with
  | nil => simp [attributeValue?] at h
  | cons c rest =>
      simp only [attributeValue?] at h
      split at h
      · have whole := List.takeWhile_append_dropWhile (p := (· != c)) (l := rest)
        split at h
        · cases h
        · next quote after eq =>
          obtain rfl := Option.some.inj h
          have closing : (quote != c) = false := by
            have ends := endsRun_dropWhile (· != c) rest
            rw [eq] at ends
            exact ends quote rfl
          obtain rfl : quote = c := by simpa using closing
          rw [eq] at whole
          simpa using whole
      · obtain rfl := Option.some.inj h
        exact List.takeWhile_append_dropWhile

theorem source_attribute? {t : Text} {a : Slice (Text × Text)} (h : attribute? t = some a) :
    a.source ++ a.rest = t := by
  have name := List.takeWhile_append_dropWhile (p := isAttributeChar) (l := t)
  simp only [attribute?] at h
  split at h
  · cases h
  · split at h
    · next assigned eq =>
      obtain ⟨v, read, rfl⟩ := Option.map_eq_some_iff.1 h
      have value := source_attributeValue? read
      have before :=
        List.takeWhile_append_dropWhile (p := isSpace) (l := t.dropWhile isAttributeChar)
      have behind := List.takeWhile_append_dropWhile (p := isSpace) (l := assigned)
      rw [eq] at before
      rw [← value] at behind
      rw [← behind] at before
      calc
        _ = t.takeWhile isAttributeChar ++ ((t.dropWhile isAttributeChar).takeWhile isSpace ++
              '=' :: (assigned.takeWhile isSpace ++ (v.source ++ v.rest))) := by simp
        _ = t := by rw [before, name]
    · obtain rfl := Option.some.inj h
      exact name

/-- The characters that end a tag. -/
def tagEnd (isEmpty : Bool) : Text := if isEmpty then ['/', '>'] else ['>']

/-- What stands behind a tag's name goes up to the end of the tag. -/
theorem source_tagBody? {attributes : Dictionary} {t : Text} {body : Slice (Dictionary × Bool)}
    (h : tagBody? attributes t = some body) : ∃ inside,
      body.source = inside ++ tagEnd body.value.2 ∧ body.source ++ body.rest = t := by
  have whole := List.takeWhile_append_dropWhile (p := isSpace) (l := t)
  revert body
  fun_induction tagBody? attributes t with
  | case1 attributes t after eq =>
      intro body h
      obtain rfl := Option.some.inj h
      rw [eq] at whole
      exact ⟨_, rfl, by simpa using whole⟩
  | case2 attributes t after eq =>
      intro body h
      obtain rfl := Option.some.inj h
      rw [eq] at whole
      exact ⟨_, rfl, by simpa using whole⟩
  | case3 attributes t after _ eq ih =>
      intro body h
      obtain ⟨inner, found, rfl⟩ := Option.map_eq_some_iff.1 h
      obtain ⟨inside, ends, rest⟩ := ih List.takeWhile_append_dropWhile found
      rw [eq, ← rest] at whole
      exact ⟨t.takeWhile isSpace ++ ['/'] ++ inside, by simp [Slice.behind, ends],
        by simpa [Slice.behind] using whole⟩
  | case4 => simp
  | case5 attributes t a _ _ _ read ih =>
      intro body h
      obtain ⟨inner, found, rfl⟩ := Option.map_eq_some_iff.1 h
      obtain ⟨inside, ends, rest⟩ := ih List.takeWhile_append_dropWhile found
      rw [← source_attribute? read, ← rest] at whole
      exact ⟨t.takeWhile isSpace ++ a.source ++ inside, by simp [Slice.behind, ends],
        by simpa [Slice.behind] using whole⟩

/-- A name that is split off is a written name, and nothing is lost. -/
theorem splitName_spec {t : Text} (named : (splitName t).1 ≠ []) :
    (splitName t).1 ++ (splitName t).2 = t ∧ WrittenName (splitName t).1 (splitName t).2 := by
  cases t with
  | nil => exact absurd rfl named
  | cons c t =>
      by_cases start : isNameStart c = true
      · simp only [splitName, if_pos start]
        refine ⟨List.takeWhile_append_dropWhile, ⟨c, t.takeWhile isNameChar, ?_, start⟩, ?_, ?_⟩
        · simp [isNameChar_of_isNameStart start]
        · intro x mem
          exact List.all_eq_true.1 List.all_takeWhile x mem
        · exact endsRun_dropWhile isNameChar (c :: t)
      · exact absurd (by simp [splitName, start]) named

/-- What ends a run ends it as well where less of it is known. -/
theorem endsRun_of_append {p : Char → Bool} {a b : Text} (h : EndsRun p (a ++ b)) :
    EndsRun p a := by
  cases a with
  | nil =>
      intro c head
      cases head
  | cons d a => exact h

/-! ## What each reader takes -/

/-- A piece and a rest that a reader makes of a markup: nothing is lost between them, and the
piece has its shape. -/
def Taken (t : Text) (read : Piece × Text) : Prop :=
  read.1.source ++ read.2 = t ∧ read.1.Shaped read.2

theorem taken_tag? {name t rest : Text} {token : Token} (written : WrittenName name t)
    (h : tag? name t = some (token, rest)) : Taken ('<' :: (name ++ t)) (.token token, rest) := by
  obtain ⟨body, found, eq⟩ := Option.map_eq_some_iff.1 h
  obtain ⟨inside, ends, whole⟩ := source_tagBody? found
  obtain ⟨⟨attributes, isEmpty⟩, source, after⟩ := body
  subst whole
  obtain ⟨start, all, behind⟩ := written
  dsimp only at ends eq behind ⊢
  subst ends
  have behind := endsRun_of_append behind
  cases isEmpty with
  | true =>
      obtain ⟨rfl, rfl⟩ := Prod.mk.inj eq
      exact ⟨by simp [Piece.source, Token.source], name, inside, rfl, rfl, start, all, behind⟩
  | false =>
      obtain ⟨rfl, rfl⟩ := Prod.mk.inj eq
      exact ⟨by simp [Piece.source, Token.source], name, inside, rfl, rfl, start, all, behind⟩

theorem taken_endTag? {t rest : Text} {token : Token} (h : endTag? t = some (token, rest)) :
    Taken ('<' :: '/' :: t) (.token token, rest) := by
  simp only [endTag?] at h
  split at h
  · next after eq =>
    split at h
    · cases h
    · next filled =>
      obtain ⟨whole, start, all, behind⟩ := splitName_spec (by simpa using filled)
      have gap := List.takeWhile_append_dropWhile (p := isSpace) (l := (splitName t).2)
      rw [eq] at gap
      obtain ⟨rfl, rfl⟩ := Prod.mk.inj (Option.some.inj h)
      rw [← gap] at whole behind
      refine ⟨?_, (splitName t).1, (splitName t).2.takeWhile isSpace, ?_, rfl,
        ⟨start, all, ?_⟩, ?_⟩
      · simpa [Piece.source, Token.source] using whole
      · simp
      · rw [← List.singleton_append, ← List.append_assoc] at behind
        exact endsRun_of_append behind
      · exact List.all_takeWhile
  · cases h

theorem taken_malformed {c : Char} {t : Text} (start : c = '/' ∨ isNameStart c = true) :
    Taken ('<' :: c :: t) (asPiece (malformed (c :: t))) := by
  have inner : (c != '<' && c != '>') = true := by
    rcases start with rfl | start
    · decide
    · have noLess : c ≠ '<' := ne_of_isNameStart start (by decide)
      have noGreater : c ≠ '>' := ne_of_isNameStart start (by decide)
      simp [noLess, noGreater]
  have whole := List.takeWhile_append_dropWhile (p := fun c => c != '<' && c != '>') (l := c :: t)
  have inside : ∀ d ∈ (c :: t).takeWhile fun c => c != '<' && c != '>', d ≠ '<' ∧ d ≠ '>' := by
    intro d mem
    have := List.all_eq_true.1 List.all_takeWhile d mem
    simpa using this
  have first : (c :: t).takeWhile (fun c => c != '<' && c != '>') =
      c :: t.takeWhile fun c => c != '<' && c != '>' := by
    rw [List.takeWhile_cons, if_pos inner]
  simp only [malformed]
  rw [first] at whole inside ⊢
  have less : '<' ∉ c :: t.takeWhile fun c => c != '<' && c != '>' :=
    fun mem => (inside _ mem).1 rfl
  have greater : '>' ∉ c :: t.takeWhile fun c => c != '<' && c != '>' :=
    fun mem => (inside _ mem).2 rfl
  split
  · next rest eq =>
    rw [eq] at whole
    refine ⟨?_, c, _, rfl, start, ?_, ?_⟩
    · simpa [asPiece, Piece.source, Token.source] using whole
    · simpa [or_assoc] using less
    · rw [← List.cons_append, List.dropLast_concat]
      simpa using greater
  · next eq =>
    refine ⟨?_, c, _, rfl, start, less, ?_⟩
    · simpa [asPiece, Piece.source, Token.source] using whole
    · intro mem
      rcases List.mem_cons.1 ((List.dropLast_prefix _).subset mem) with eq | mem
      · cases eq
      · exact greater mem

theorem taken_textRun {c : Char} {t : Text}
    (start : c = '<' → ∀ d more, t = d :: more →
      isNameStart d = false ∧ d ≠ '/' ∧ d ≠ '!' ∧ d ≠ '?') :
    Taken (c :: t) (asPiece (textRun c t)) := by
  have whole := List.takeWhile_append_dropWhile (p := (· != '<')) (l := t)
  refine ⟨by simp [asPiece, textRun, Piece.source, Token.source], rfl, ?_, ?_, ?_⟩
  · intro mem
    have := List.all_eq_true.1 List.all_takeWhile '<' mem
    simp at this
  · intro d more eq
    obtain ⟨less, eq⟩ := List.cons.inj eq
    rw [eq, List.cons_append] at whole
    exact start less d _ whole.symm
  · exact endsRun_dropWhile (· != '<') t

theorem taken_cdataSection (t : Text) : Taken (cdataOpen ++ t) (asPiece (cdataSection t)) := by
  simp only [cdataSection]
  split
  · next payload rest found =>
    obtain ⟨rfl, first⟩ := (Text.cut?_eq_some_iff (by decide)).1 found
    refine ⟨by simp [asPiece, Piece.source, Token.source], ?_, .inl rfl⟩
    rintro inside
    refine first (inside.trans ?_)
    rw [List.dropLast_append_of_ne_nil (by decide)]
    exact (List.prefix_append _ _).isInfix
  · next none =>
    refine ⟨by simp [asPiece, Piece.source, Token.source], ?_, .inr ⟨rfl, rfl⟩⟩
    exact (Text.cut?_eq_none_iff (by decide)).1 none

/-- A stretch that goes through a mark starts as the markup does, where the markup does not
start with the mark. -/
theorem opening_of_goesThrough {mark source rest opening t : Text}
    (whole : source ++ rest = opening ++ t) (through : GoesThrough mark source rest)
    (room : opening.length ≤ mark.length + 1) (ne : ¬ mark <+: opening ++ t) :
    opening <+: source := by
  rcases through with ⟨⟨before, rfl⟩, -⟩ | ⟨-, rfl⟩
  · cases before with
    | nil => exact absurd ⟨rest, by simpa using whole⟩ ne
    | cons c before =>
        refine List.prefix_of_prefix_length_le (List.prefix_append opening t)
          ⟨rest, whole⟩ ?_
        simp only [List.length_append, List.length_cons]
        omega
  · rw [List.append_nil] at whole
    exact ⟨t, whole.symm⟩

/-- What is skipped: the stretch from a `<` through the first mark. -/
theorem taken_skipThrough {mark t : Text} (ne : mark ≠ [])
    (shaped : ∀ source rest, source ++ rest = t → GoesThrough mark source rest →
      (Piece.skipped source).Shaped rest) : Taken t (skipThrough mark t) := by
  simp only [skipThrough]
  split
  · next before rest found =>
    obtain ⟨whole, first⟩ := (Text.cut?_eq_some_iff ne).1 found
    exact ⟨whole.symm, shaped _ _ whole.symm (.inl ⟨List.suffix_append _ _, first⟩)⟩
  · next none =>
    have whole := List.append_nil t
    exact ⟨whole, shaped _ _ whole (.inr ⟨(Text.cut?_eq_none_iff ne).1 none, rfl⟩)⟩

theorem taken_comment {t : Text} (noSection : ¬ "![CDATA[".toList <+: t)
    (comment : "!--".toList <+: t) : Taken ('<' :: t) (skipThrough "-->" ('<' :: t)) := by
  refine taken_skipThrough (by decide) fun source rest whole through => ⟨?_, .inl ⟨?_, through⟩⟩
  · intro opens
    have inside := opens.trans ⟨rest, whole⟩
    exact noSection (List.cons_prefix_cons.1 inside).2
  · obtain ⟨more, rfl⟩ := comment
    exact opening_of_goesThrough whole through (by decide) (by
      rintro ⟨behind, eq⟩
      cases (List.cons.inj eq).1)

theorem taken_declaration {c : Char} {t : Text} (start : c = '!' ∨ c = '?')
    (noSection : ¬ "![CDATA[".toList <+: c :: t) (noComment : ¬ "!--".toList <+: c :: t) :
    Taken ('<' :: c :: t) (skipThrough ">" ('<' :: c :: t)) := by
  refine taken_skipThrough (by decide) fun source rest whole through =>
    ⟨?_, .inr ⟨?_, ?_, through⟩⟩
  · intro opens
    have inside := opens.trans ⟨rest, whole⟩
    exact noSection (List.cons_prefix_cons.1 inside).2
  · intro opens
    have inside := opens.trans ⟨rest, whole⟩
    exact noComment (List.cons_prefix_cons.1 inside).2
  · have opens : ['<', c] <+: source :=
      opening_of_goesThrough (t := t) whole through (by simp) (by
        rintro ⟨behind, eq⟩
        cases (List.cons.inj eq).1)
    rcases start with rfl | rfl
    · exact .inl opens
    · exact .inr opens

/-- Where a tag cannot be finished, all of it is read again. -/
theorem taken_tagPiece {c : Char} {t : Text} {tag : Option (Token × Text)}
    (start : c = '/' ∨ isNameStart c = true)
    (h : ∀ token rest, tag = some (token, rest) → Taken ('<' :: c :: t) (.token token, rest)) :
    Taken ('<' :: c :: t) (tagPiece (c :: t) tag) := by
  cases tag with
  | none => exact taken_malformed start
  | some read => exact h read.1 read.2 rfl

theorem taken_scanBracket (t : Text) : Taken ('<' :: t) (scanBracket t) := by
  simp only [scanBracket]
  split
  · next body opened =>
    rw [Text.dropStart?_eq_some_iff.1 opened]
    exact taken_cdataSection body
  · next noSection =>
    rw [Text.dropStart?_eq_none_iff] at noSection
    split
    · next comment => exact taken_comment noSection (List.isPrefixOf_iff_prefix.1 comment)
    · next noComment =>
      have noComment : ¬ "!--".toList <+: t := fun starts =>
        noComment (List.isPrefixOf_iff_prefix.2 starts)
      split
      · next body _ _ => exact taken_tagPiece (.inl rfl) fun token rest read => taken_endTag? read
      · next c body noEnd _ =>
        split
        · next start => exact taken_declaration start noSection noComment
        · next noStart =>
          rw [not_or] at noStart
          split
          · next start =>
            refine taken_tagPiece (.inr start) fun token rest read => ?_
            have named : (splitName (c :: body)).1 ≠ [] := by
              simp [splitName, start, isNameChar_of_isNameStart start]
            obtain ⟨whole, written⟩ := splitName_spec named
            rw [← whole]
            exact taken_tag? written read
          · next noName =>
            refine taken_textRun fun _ d more eq => ?_
            obtain ⟨rfl, rfl⟩ := List.cons.inj eq
            exact ⟨by simpa using noName, noEnd, noStart⟩
      · exact taken_textRun fun _ d more eq => by cases eq

/-- The step: one piece is taken off the front, at least a character long. -/
theorem taken_scan (c : Char) (t : Text) : Taken (c :: t) (scan c t) := by
  by_cases bracket : c = '<'
  · subst bracket
    rw [scan, if_pos rfl]
    exact taken_scanBracket t
  · rw [scan, if_neg bracket]
    exact taken_textRun fun eq => absurd eq bracket

/-- The run: the pieces of a markup are a cover of it. -/
theorem cover_pieces (t : Text) : Cover t (pieces t) := by
  induction t using pieces.induct with
  | case1 =>
      rw [pieces]
      exact .nil
  | case2 c t ih =>
      obtain ⟨whole, shaped⟩ := taken_scan c t
      have filled : (scan c t).1.source ≠ [] := by
        intro empty
        have shorter := length_scan_lt c t
        rw [empty, List.nil_append] at whole
        rw [whole] at shorter
        exact Nat.lt_irrefl _ shorter
      rw [pieces]
      exact whole ▸ .cons filled shaped ih

/-! ## What a cover says of its pieces -/

namespace Cover

variable {t : Text} {ps : List Piece}

theorem flatMap_source (h : Cover t ps) : ps.flatMap Piece.source = t := by
  induction h with
  | nil => rfl
  | cons filled shaped others ih => rw [List.flatMap_cons, ih]

theorem source_ne_nil (h : Cover t ps) : ∀ piece ∈ ps, piece.source ≠ [] := by
  induction h with
  | nil => simp
  | cons filled shaped others ih =>
      intro piece mem
      rcases List.mem_cons.1 mem with rfl | mem
      · exact filled
      · exact ih piece mem

/-- What stands behind a piece is what the later pieces cover. -/
theorem shaped_of_eq_append (h : Cover t ps) {before behind : List Piece} {piece : Piece}
    (eq : ps = before ++ piece :: behind) : piece.Shaped (behind.flatMap Piece.source) := by
  induction h generalizing before with
  | nil => simp at eq
  | cons filled shaped others ih =>
      cases before with
      | nil =>
          obtain ⟨rfl, rfl⟩ := List.cons.inj eq
          rw [others.flatMap_source]
          exact shaped
      | cons first before => exact ih (List.cons.inj eq).2

end Cover

/-- Where every piece is a token, the slices of the tokens are the slices of the pieces. -/
theorem flatMap_source_filterMap {ps : List Piece}
    (all : ∀ piece ∈ ps, piece.token?.isSome = true) :
    (ps.filterMap Piece.token?).flatMap Token.source = ps.flatMap Piece.source := by
  induction ps with
  | nil => rfl
  | cons piece ps ih =>
      have others := ih fun p mem => all p (List.mem_cons_of_mem _ mem)
      cases piece with
      | skipped source => cases all (.skipped source) List.mem_cons_self
      | token t =>
          show t.source ++ (ps.filterMap Piece.token?).flatMap Token.source =
            t.source ++ ps.flatMap Piece.source
          rw [others]

/-- The slices of the pieces make up the markup, none is empty, and each has the shape of its
kind before what the later pieces cover.  The tokens are the pieces that are not skipped; where
nothing is skipped their slices alone make up the markup. -/
theorem pieces_cover (t : Text) :
    (pieces t).flatMap Piece.source = t ∧
      (∀ piece ∈ pieces t, piece.source ≠ []) ∧
      (∀ before piece behind, pieces t = before ++ piece :: behind →
        piece.Shaped (behind.flatMap Piece.source)) ∧
      tokens t = (pieces t).filterMap Piece.token? ∧
      ((∀ piece ∈ pieces t, piece.token?.isSome = true) →
        (tokens t).flatMap Token.source = t) := by
  have cover := cover_pieces t
  refine ⟨cover.flatMap_source, cover.source_ne_nil, ?_, rfl, ?_⟩
  · intro before piece behind eq
    exact cover.shaped_of_eq_append eq
  · intro unskipped
    rw [tokens, flatMap_source_filterMap unskipped, cover.flatMap_source]

end Wikidown.Markup
