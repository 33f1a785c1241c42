/-
# Wikidown.Markup.Scan -- cutting markup into tokens

`pieces` cuts a markup text from left to right; it never fails.  At each place the
first characters decide what is read (`scan`):

* `<![CDATA[` a CDATA section, up to `]]>` or the end of the markup;
* `<!--` a comment, up to `-->`, and `<!` or `<?` a declaration, up to `>`: skipped;
* `</` an end tag, and `<` with the start of a name a start tag or an empty tag; what
  cannot be finished as a tag is malformed, up to the next `<` or through the next `>`;
* anything else is text up to the next `<`, and a `<` that starts nothing is text too.

Each reader takes the part that it covers off the front and leaves a shorter rest, and
`tokens` are the pieces that carry content.
-/
import Wikidown.Markup.Reference
import Wikidown.Markup.Token

namespace Wikidown.Markup

set_option autoImplicit false

/-! ## Names -/

/-- A name starts with an ASCII letter or an underscore. -/
def isNameStart (c : Char) : Bool := c.isAlpha || c == '_'

/-- A name goes on with ASCII letters, digits and four marks. -/
def isNameChar (c : Char) : Bool :=
  c.isAlphanum || c == ':' || c == '-' || c == '_' || c == '.'

theorem isNameChar_of_isNameStart {c : Char} (h : isNameStart c = true) : isNameChar c = true := by
  simp only [isNameStart, Bool.or_eq_true, beq_iff_eq] at h
  rcases h with alpha | rfl
  · simp [isNameChar, Char.isAlphanum, alpha]
  · decide

theorem ne_of_isNameStart {c d : Char} (start : isNameStart c = true)
    (refused : isNameStart d = false) : c ≠ d := by
  rintro rfl
  rw [refused] at start
  cases start

/-- The name at the start of a text, empty if none starts there, and the rest. -/
def splitName (t : Text) : Text × Text :=
  match t with
  | c :: _ => if isNameStart c then (t.takeWhile isNameChar, t.dropWhile isNameChar) else ([], t)
  | [] => ([], [])

/-! ## Attributes -/

/-- An attribute's name runs up to white space, `=`, `>` or `/`. -/
def isAttributeChar (c : Char) : Bool := !(isSpace c || c == '=' || c == '>' || c == '/')

/-- A value without quotes runs up to white space or `>`. -/
def isBareChar (c : Char) : Bool := !(isSpace c || c == '>')

/-- Something read off the front of a text: its value, the slice that it covers and the
text behind that slice. -/
structure Slice (α : Type) where
  value : α
  source : Text
  rest : Text

/-- The same slice, begun further in front, with `before`. -/
def Slice.behind {α : Type} (before : Text) (s : Slice α) : Slice α :=
  ⟨s.value, before ++ s.source, s.rest⟩

/-- An attribute's value, in quotes or bare. -/
def attributeValue? (t : Text) : Option (Slice Text) :=
  match t with
  | [] => none
  | c :: rest =>
      if c = '"' ∨ c = '\'' then
        let quoted := rest.takeWhile (· != c)
        match rest.dropWhile (· != c) with
        | [] => none
        | _ :: after => some ⟨decode quoted, c :: (quoted ++ [c]), after⟩
      else
        let bare := t.takeWhile isBareChar
        some ⟨decode bare, bare, t.dropWhile isBareChar⟩

/-- An attribute: its name in lower case and its value, empty if none is assigned. -/
def attribute? (t : Text) : Option (Slice (Text × Text)) :=
  let name := t.takeWhile isAttributeChar
  let after := t.dropWhile isAttributeChar
  if name.isEmpty then none
  else
    match after.dropWhile isSpace with
    | '=' :: assigned =>
        let before := name ++ after.takeWhile isSpace ++ '=' :: assigned.takeWhile isSpace
        (attributeValue? (assigned.dropWhile isSpace)).map fun v =>
          ⟨(Text.lower name, v.value), before ++ v.source, v.rest⟩
    | _ => some ⟨(Text.lower name, []), name, after⟩

theorem length_of_attributeValue? {t : Text} {v : Slice Text} (h : attributeValue? t = some v) :
    v.rest.length ≤ t.length := by
  cases t with
  | nil => simp [attributeValue?] at h
  | cons c rest =>
      simp only [attributeValue?] at h
      split at h
      · have le := length_dropWhile_le (· != c) rest
        split at h
        · simp at h
        · next eq =>
          rw [eq] at le
          obtain rfl := Option.some.inj h
          simp only [List.length_cons] at le ⊢
          omega
      · obtain rfl := Option.some.inj h
        exact length_dropWhile_le _ _

theorem length_of_attribute? {t : Text} {a : Slice (Text × Text)} (h : attribute? t = some a) :
    a.rest.length < t.length := by
  have split : t.takeWhile isAttributeChar ++ t.dropWhile isAttributeChar = t :=
    List.takeWhile_append_dropWhile
  have total := congrArg List.length split
  rw [List.length_append] at total
  simp only [attribute?] at h
  split at h
  · simp at h
  · next named =>
    have positive : 0 < (t.takeWhile isAttributeChar).length := by
      cases eq : t.takeWhile isAttributeChar with
      | nil => simp [eq] at named
      | cons _ _ => simp
    split at h
    · next assigned eq =>
      obtain ⟨v, hv, rfl⟩ := Option.map_eq_some_iff.1 h
      have le := length_of_attributeValue? hv
      have le' := length_dropWhile_le isSpace assigned
      have le'' := length_dropWhile_le isSpace (t.dropWhile isAttributeChar)
      rw [eq, List.length_cons] at le''
      dsimp only
      omega
    · obtain rfl := Option.some.inj h
      dsimp only
      omega

/-! ## Tags -/

/-- What stands behind the name of a start tag or an empty tag: attributes and stray slashes
up to `>` or `/>`.  The value holds the attributes and says whether the tag is empty. -/
def tagBody? (attributes : Dictionary) (t : Text) : Option (Slice (Dictionary × Bool)) :=
  match _eq : t.dropWhile isSpace with
  | '/' :: '>' :: rest => some ⟨(attributes, true), t.takeWhile isSpace ++ ['/', '>'], rest⟩
  | '>' :: rest => some ⟨(attributes, false), t.takeWhile isSpace ++ ['>'], rest⟩
  | '/' :: rest => (tagBody? attributes rest).map (Slice.behind (t.takeWhile isSpace ++ ['/']))
  | body =>
      match _h : attribute? body with
      | none => none
      | some a =>
          (tagBody? (attributes.insert a.value.1 a.value.2) a.rest).map
            (Slice.behind (t.takeWhile isSpace ++ a.source))
termination_by t.length
decreasing_by
  · have le := length_dropWhile_le isSpace t
    rw [_eq, List.length_cons] at le
    omega
  · have le := length_dropWhile_le isSpace t
    have lt := length_of_attribute? _h
    rw [_eq] at le
    omega

/-- A start tag or an empty tag whose `<` and `name` are already read. -/
def tag? (name t : Text) : Option (Token × Text) :=
  (tagBody? .empty t).map fun body =>
    let source := '<' :: (name ++ body.source)
    let (attributes, isEmpty) := body.value
    if isEmpty then (.emptyTag (Text.lower name) attributes source, body.rest)
    else (.startTag (Text.lower name) attributes source, body.rest)

/-- An end tag whose `</` is already read. -/
def endTag? (t : Text) : Option (Token × Text) :=
  let (name, after) := splitName t
  match after.dropWhile isSpace with
  | '>' :: rest =>
      if name.isEmpty then none
      else
        let source := '<' :: '/' :: (name ++ after.takeWhile isSpace ++ ['>'])
        some (.endTag (Text.lower name) source, rest)
  | _ => none

/-- Up to the next `<` or through the next `>`, behind a `<` that is already read. -/
def malformed (t : Text) : Token × Text :=
  let inside := t.takeWhile fun c => c != '<' && c != '>'
  match t.dropWhile fun c => c != '<' && c != '>' with
  | '>' :: rest => (.malformed ('<' :: (inside ++ ['>'])), rest)
  | rest => (.malformed ('<' :: inside), rest)

/-! ## Content -/

/-- Text from its first character `c` up to the next `<`. -/
def textRun (c : Char) (t : Text) : Token × Text :=
  let source := c :: t.takeWhile (· != '<')
  (.text (decode source) source, t.dropWhile (· != '<'))

/-- What opens a CDATA section. -/
def cdataOpen : Text := "<![CDATA["

/-- What closes a CDATA section. -/
def cdataClose : Text := "]]>"

/-- A CDATA section whose opening is already read. -/
def cdataSection (t : Text) : Token × Text :=
  match Text.cut? cdataClose t with
  | some (payload, rest) => (.cdata payload (cdataOpen ++ payload ++ cdataClose), rest)
  | none => (.cdata t (cdataOpen ++ t), [])

/-- A stretch without content, through the first `mark` or to the end of the markup. -/
def skipThrough (mark t : Text) : Piece × Text :=
  match Text.cut? mark t with
  | some (before, rest) => (.skipped (before ++ mark), rest)
  | none => (.skipped t, [])

/-! ## The scan -/

/-- The token that a reader gives, as a piece. -/
def asPiece (read : Token × Text) : Piece × Text := (.token read.1, read.2)

/-- A tag or, where none can be finished, malformed markup. -/
def tagPiece (t : Text) (tag : Option (Token × Text)) : Piece × Text :=
  asPiece (tag.getD (malformed t))

/-- The first piece of a markup whose `<` is already read, and the rest. -/
def scanBracket (t : Text) : Piece × Text :=
  match Text.dropStart? "![CDATA[" t with
  | some body => asPiece (cdataSection body)
  | none =>
      if Text.startsWith "!--" t then skipThrough "-->" ('<' :: t)
      else
        match t with
        | '/' :: body => tagPiece t (endTag? body)
        | c :: _ =>
            if c = '!' ∨ c = '?' then skipThrough ">" ('<' :: t)
            else if isNameStart c then
              let (name, body) := splitName t
              tagPiece t (tag? name body)
            else asPiece (textRun '<' t)
        | [] => asPiece (textRun '<' [])

/-- The first piece of `c :: t`, and the rest. -/
def scan (c : Char) (t : Text) : Piece × Text :=
  if c = '<' then scanBracket t else asPiece (textRun c t)

/-! ## Every reader leaves a shorter rest -/

theorem length_of_dropStart? {start t rest : Text} (h : Text.dropStart? start t = some rest) :
    rest.length + start.length = t.length := by
  induction start generalizing t with
  | nil => simp only [Text.dropStart?, Option.some.injEq] at h; simp [h]
  | cons s start ih =>
      cases t with
      | nil => simp [Text.dropStart?] at h
      | cons c t =>
          simp only [Text.dropStart?] at h
          split at h
          · have := ih h
            simp only [List.length_cons]
            omega
          · simp at h

theorem length_of_cut? {mark t before rest : Text} (h : Text.cut? mark t = some (before, rest)) :
    before.length + mark.length + rest.length = t.length := by
  induction t generalizing before with
  | nil =>
      simp only [Text.cut?] at h
      split at h
      · next empty => simp_all
      · simp at h
  | cons c t ih =>
      simp only [Text.cut?] at h
      split at h
      · next after found =>
        have := length_of_dropStart? found
        simp only [Option.some.injEq, Prod.mk.injEq] at h
        obtain ⟨rfl, rfl⟩ := h
        simp only [List.length_nil, List.length_cons] at this ⊢
        omega
      · obtain ⟨⟨b, r⟩, inner, eq⟩ := Option.map_eq_some_iff.1 h
        simp only [Prod.mk.injEq] at eq
        obtain ⟨rfl, rfl⟩ := eq
        have := ih inner
        simp only [List.length_cons]
        omega

theorem length_splitName_le (t : Text) : (splitName t).2.length ≤ t.length := by
  simp only [splitName]
  split
  · split
    · exact length_dropWhile_le _ _
    · exact Nat.le_refl _
  · exact Nat.le_refl _

theorem length_of_tagBody? {attributes : Dictionary} {t : Text} {body : Slice (Dictionary × Bool)}
    (h : tagBody? attributes t = some body) : body.rest.length < t.length := by
  revert body
  fun_induction tagBody? attributes t with
  | case1 attributes t after eq =>
      intro body h
      have := length_dropWhile_le isSpace t
      rw [eq] at this
      obtain rfl := Option.some.inj h
      simp only [List.length_cons] at this ⊢
      omega
  | case2 attributes t after eq =>
      intro body h
      have := length_dropWhile_le isSpace t
      rw [eq] at this
      obtain rfl := Option.some.inj h
      simp only [List.length_cons] at this ⊢
      omega
  | case3 attributes t after _ eq ih =>
      intro body h
      have le := length_dropWhile_le isSpace t
      obtain ⟨inner, found, rfl⟩ := Option.map_eq_some_iff.1 h
      have := ih found
      rw [eq, List.length_cons] at le
      simp only [Slice.behind]
      omega
  | case4 => simp
  | case5 attributes t a _ _ _ read ih =>
      intro body h
      have := length_dropWhile_le isSpace t
      have := length_of_attribute? read
      obtain ⟨inner, found, rfl⟩ := Option.map_eq_some_iff.1 h
      have := ih found
      simp only [Slice.behind]
      omega

theorem length_of_tag? {name t rest : Text} {token : Token}
    (h : tag? name t = some (token, rest)) : rest.length < t.length := by
  obtain ⟨body, found, eq⟩ := Option.map_eq_some_iff.1 h
  have := length_of_tagBody? found
  dsimp only at eq
  split at eq <;> simp_all

theorem length_of_endTag? {t rest : Text} {token : Token} (h : endTag? t = some (token, rest)) :
    rest.length < t.length := by
  simp only [endTag?] at h
  split at h
  · next after eq =>
    have le := length_splitName_le t
    have le' := length_dropWhile_le isSpace (splitName t).2
    rw [eq, List.length_cons] at le'
    split at h
    · simp at h
    · simp only [Option.some.injEq, Prod.mk.injEq] at h
      obtain ⟨_, rfl⟩ := h
      omega
  · simp at h

theorem length_malformed_le (t : Text) : (malformed t).2.length ≤ t.length := by
  have := length_dropWhile_le (fun c => c != '<' && c != '>') t
  simp only [malformed]
  split
  · next eq =>
    rw [eq, List.length_cons] at this
    simp only
    omega
  · exact this

theorem length_cdataSection_le (t : Text) : (cdataSection t).2.length ≤ t.length := by
  simp only [cdataSection]
  split
  · next found => have := length_of_cut? found; simp only; omega
  · simp

theorem length_skipThrough_lt {mark t : Text} (nonempty : mark ≠ []) (h : t ≠ []) :
    (skipThrough mark t).2.length < t.length := by
  simp only [skipThrough]
  split
  · next found =>
    have := length_of_cut? found
    have := List.length_pos_iff.2 nonempty
    simp only
    omega
  · exact List.length_pos_iff.2 h

theorem length_tagPiece_le {t : Text} {tag : Option (Token × Text)}
    (h : ∀ token rest, tag = some (token, rest) → rest.length ≤ t.length) :
    (tagPiece t tag).2.length ≤ t.length := by
  cases tag with
  | none => exact length_malformed_le t
  | some read => exact h read.1 read.2 rfl

theorem length_scanBracket_le (t : Text) : (scanBracket t).2.length ≤ t.length := by
  simp only [scanBracket]
  split
  · next body found =>
    have := length_of_dropStart? found
    have := length_cdataSection_le body
    dsimp only [asPiece]
    omega
  · split
    · exact Nat.le_of_lt_succ (length_skipThrough_lt (by simp) (by simp))
    · split
      · next body _ =>
        refine length_tagPiece_le fun token rest h => ?_
        have := length_of_endTag? h
        simp only [List.length_cons]
        omega
      · next c body _ _ _ =>
        split
        · exact Nat.le_of_lt_succ (length_skipThrough_lt (by simp) (by simp))
        · split
          · refine length_tagPiece_le fun token rest h => ?_
            have := length_of_tag? h
            have := length_splitName_le (c :: body)
            omega
          · exact length_dropWhile_le _ _
      · exact Nat.le_refl _

/-- The scan takes at least one character. -/
theorem length_scan_lt (c : Char) (t : Text) : (scan c t).2.length < (c :: t).length := by
  refine Nat.lt_succ_of_le ?_
  simp only [scan]
  split
  · exact length_scanBracket_le t
  · exact length_dropWhile_le _ _

/-- The pieces of a markup text, in order. -/
def pieces : Text → List Piece
  | [] => []
  | c :: t => (scan c t).1 :: pieces (scan c t).2
termination_by t => t.length
decreasing_by exact length_scan_lt c t

/-- The tokens of a markup text, in order. -/
def tokens (t : Text) : List Token := (pieces t).filterMap Piece.token?

end Wikidown.Markup
