/-
# Wikidown.Proofs.Spelling -- markup that spells given tokens is read back as those tokens

A token has many spellings: names in any letter case, white space inside its tag, either
quote around a value, and every character as itself or as a reference.  `Spelled token`
says that the slice which the token covers is one of them.  Markup made of spelled
tokens, no text next to a text, has exactly these tokens (`tokens_of_spelled`).

`pieces_append_of_spelled` is the step, one lemma per kind of token: what stands behind a
token makes no difference to how it is read, except that a text goes on up to the next
tag.
-/
import Wikidown.Markup.Scan
import Wikidown.Proofs.Cuts
import Wikidown.Proofs.References

namespace Wikidown.Markup

set_option autoImplicit false

open Text (EndsRun takeWhile_run dropWhile_run endsRun_cons endsRun_blank isSpace_of_mem)

/-! ## Spellings -/

/-- A tag's name: a small letter or `_`, then small letters, digits and four marks. -/
def IsTagName (name : Text) : Prop :=
  ∃ c rest, name = c :: rest ∧ (c.isLower = true ∨ c = '_') ∧
    ∀ x ∈ rest, x.isLower = true ∨ x.isDigit = true ∨ x = ':' ∨ x = '.' ∨ x = '_' ∨ x = '-'

/-- Whether a text is a tag's name is found by looking at each character. -/
instance : (name : Text) → Decidable (IsTagName name)
  | [] => isFalse (by
      rintro ⟨c, rest, eq, -⟩
      cases eq)
  | c :: rest =>
      decidable_of_iff ((c.isLower || c == '_') && rest.all (fun x =>
          x.isLower || x.isDigit || x == ':' || x == '.' || x == '_' || x == '-')) (by
        simp only [IsTagName, Bool.and_eq_true, Bool.or_eq_true, List.all_eq_true, beq_iff_eq,
          or_assoc]
        constructor
        · intro h
          exact ⟨c, rest, rfl, h⟩
        · rintro ⟨d, more, eq, h⟩
          obtain ⟨rfl, rfl⟩ := List.cons.inj eq
          exact h)

/-- An attribute's name: ASCII letters are small, and nothing in it ends a name. -/
def IsAttributeName (name : Text) : Prop :=
  name ≠ [] ∧ Text.lower name = name ∧
    ∀ c ∈ name, isSpace c = false ∧ c ≠ '=' ∧ c ≠ '>' ∧ c ≠ '/'

/-- An attribute as it may be written: its name in any letter case, `=` with any white space
around it, and the value between two quotes of one kind. -/
inductive SpellsAttribute : Text × Text → Text → Prop where
  | mk {name value written before behind escaped : Text} {quote : Char}
      (named : IsAttributeName name) (letters : Text.lower written = name)
      (blank : Text.isBlank before = true) (blank' : Text.isBlank behind = true)
      (quoted : quote = '"' ∨ quote = '\'') (spelled : Escaped quote value escaped) :
      SpellsAttribute (name, value)
        (written ++ before ++ '=' :: (behind ++ quote :: (escaped ++ [quote])))

/-- Attributes as they may be written one after the other, each behind white space. -/
inductive SpellsAttributes : List (Text × Text) → Text → Prop where
  | nil : SpellsAttributes [] []
  | cons {entry : Text × Text} {entries : List (Text × Text)} {gap written more : Text}
      (apart : gap ≠ []) (blank : Text.isBlank gap = true)
      (first : SpellsAttribute entry written) (others : SpellsAttributes entries more) :
      SpellsAttributes (entry :: entries) (gap ++ (written ++ more))

/-- The slice that the token covers is a spelling of the token.  The attributes of a tag may
stand in any order. -/
inductive Spelled : Token → Prop where
  | startTag {name written inside gap : Text} {attributes : Dictionary}
      {listed : List (Text × Text)} (named : IsTagName name) (letters : Text.lower written = name)
      (all : listed.Perm attributes.entries) (spelled : SpellsAttributes listed inside)
      (blank : Text.isBlank gap = true) :
      Spelled (.startTag name attributes ('<' :: (written ++ (inside ++ gap ++ ['>']))))
  | emptyTag {name written inside gap : Text} {attributes : Dictionary}
      {listed : List (Text × Text)} (named : IsTagName name) (letters : Text.lower written = name)
      (all : listed.Perm attributes.entries) (spelled : SpellsAttributes listed inside)
      (blank : Text.isBlank gap = true) :
      Spelled (.emptyTag name attributes ('<' :: (written ++ (inside ++ gap ++ ['/', '>']))))
  | endTag {name written gap : Text} (named : IsTagName name) (letters : Text.lower written = name)
      (blank : Text.isBlank gap = true) :
      Spelled (.endTag name ('<' :: '/' :: (written ++ gap ++ ['>'])))
  | text {content written : Text} (filled : content ≠ []) (spelled : Escaped '<' content written) :
      Spelled (.text content written)
  | cdata {content : Text} (closed : ¬ cdataClose <:+: content) :
      Spelled (.cdata content (cdataOpen ++ content ++ cdataClose))

/-- Whether a token is text between tags. -/
def Token.isText : Token → Bool
  | .text _ _ => true
  | _ => false

/-! ## Letter case -/

theorem isUpper_iff {c : Char} : c.isUpper = true ↔ 65 ≤ c.toNat ∧ c.toNat ≤ 90 :=
  decide_eq_true_iff

theorem isLower_iff {c : Char} : c.isLower = true ↔ 97 ≤ c.toNat ∧ c.toNat ≤ 122 := by
  show (decide (97 ≤ c.toNat) && decide (c.toNat ≤ 122)) = true ↔ _
  rw [Bool.and_eq_true, decide_eq_true_iff, decide_eq_true_iff]

theorem isAlpha_iff {c : Char} : c.isAlpha = true ↔ c.isUpper = true ∨ c.isLower = true := by
  show (c.isUpper || c.isLower) = true ↔ _
  rw [Bool.or_eq_true]

theorem isAlpha_of_capital {c : Char} (capital : 'A' ≤ c ∧ c ≤ 'Z') : c.isAlpha = true :=
  isAlpha_iff.2 (.inl (isUpper_iff.2 capital))

theorem isAlpha_of_isLower {c : Char} (small : c.isLower = true) : c.isAlpha = true :=
  isAlpha_iff.2 (.inr small)

/-- A capital is no white space and ends no attribute's name. -/
theorem isAttributeChar_of_capital {c : Char} (capital : 'A' ≤ c ∧ c ≤ 'Z') :
    isAttributeChar c = true := by
  have low : 65 ≤ c.toNat := capital.1
  have high : c.toNat ≤ 90 := capital.2
  have other : ∀ d : Char, d.toNat < 65 → c ≠ d := by
    rintro d small rfl
    omega
  have space : isSpace c = false := by
    simp only [isSpace, Bool.or_eq_false_iff, Bool.and_eq_false_iff, decide_eq_false_iff_not,
      beq_eq_false_iff_ne]
    omega
  simp [isAttributeChar, space, other '=' (by decide), other '>' (by decide),
    other '/' (by decide)]

theorem isNameStart_of_lowerChar {c : Char}
    (h : (lowerChar c).isLower = true ∨ lowerChar c = '_') : isNameStart c = true := by
  rcases lowerChar_eq_or c with same | capital
  · rw [same] at h
    rcases h with small | rfl
    · simp [isNameStart, isAlpha_of_isLower small]
    · decide
  · simp [isNameStart, isAlpha_of_capital capital]

theorem isNameChar_of_lowerChar {c : Char}
    (h : (lowerChar c).isLower = true ∨ (lowerChar c).isDigit = true ∨ lowerChar c = ':' ∨
      lowerChar c = '.' ∨ lowerChar c = '_' ∨ lowerChar c = '-') : isNameChar c = true := by
  rcases lowerChar_eq_or c with same | capital
  · rw [same] at h
    rcases h with small | digit | rfl | rfl | rfl | rfl
    · simp [isNameChar, Char.isAlphanum, isAlpha_of_isLower small]
    · simp [isNameChar, Char.isAlphanum, digit]
    · decide
    · decide
    · decide
    · decide
  · simp [isNameChar, Char.isAlphanum, isAlpha_of_capital capital]

theorem lowerChar_of_small {c : Char}
    (small : c.isLower = true ∨ c.isDigit = true ∨ c = ':' ∨ c = '.' ∨ c = '_' ∨ c = '-') :
    lowerChar c = c := by
  rcases lowerChar_eq_or c with same | ⟨low, high⟩
  · exact same
  · have low : 65 ≤ c.toNat := low
    have high : c.toNat ≤ 90 := high
    rcases small with lower | digit | rfl | rfl | rfl | rfl
    · have := (isLower_iff.1 lower).1
      omega
    · have := (Char.isDigit_iff_toNat.1 digit).2
      have nine : '9'.toNat = 57 := rfl
      omega
    all_goals rfl

/-- A tag's name is written in small letters. -/
theorem lower_of_isTagName {name : Text} (named : IsTagName name) : Text.lower name = name := by
  obtain ⟨c, rest, rfl, start, others⟩ := named
  have first : lowerChar c = c := by
    apply lowerChar_of_small
    rcases start with lower | rfl
    · exact .inl lower
    · exact .inr (.inr (.inr (.inr (.inl rfl))))
  have later : rest.map lowerChar = rest :=
    (List.map_congr_left fun x mem => lowerChar_of_small (others x mem)).trans (List.map_id rest)
  show lowerChar c :: rest.map lowerChar = c :: rest
  rw [first, later]

/-- White space is in no name. -/
theorem isNameChar_of_isSpace (c : Char) (space : isSpace c = true) : isNameChar c = false := by
  rw [Bool.eq_false_iff]
  intro named
  simp only [isNameChar, Char.isAlphanum, Bool.or_eq_true, isAlpha_iff, isUpper_iff, isLower_iff,
    Char.isDigit_iff_toNat, beq_iff_eq] at named
  simp only [isSpace, Bool.or_eq_true, Bool.and_eq_true, decide_eq_true_eq, beq_iff_eq] at space
  rcases named with (((alphanum | rfl) | rfl) | rfl) | rfl
  · have : '0'.toNat = 48 := rfl
    have : '9'.toNat = 57 := rfl
    omega
  all_goals revert space; decide

theorem isAttributeChar_of_isSpace (c : Char) (space : isSpace c = true) :
    isAttributeChar c = false := by
  simp [isAttributeChar, space]

/-- Letters of a name in any case: what the small ones satisfy, the written ones do. -/
theorem all_of_lower {p q : Char → Prop} (imp : ∀ c, p (lowerChar c) → q c) {written name : Text}
    (letters : Text.lower written = name) (all : ∀ c ∈ name, p c) : ∀ c ∈ written, q c := by
  intro c mem
  subst letters
  exact imp c (all _ (List.mem_map_of_mem mem))

/-- A tag's name is split off where a character stands that is in no name. -/
theorem splitName_written {name written rest : Text} (named : IsTagName name)
    (letters : Text.lower written = name) (ends : EndsRun isNameChar rest) :
    splitName (written ++ rest) = (written, rest) := by
  obtain ⟨d, small, rfl, start, others⟩ := named
  cases written with
  | nil => cases letters
  | cons c more =>
      obtain ⟨rfl, rfl⟩ := List.cons.inj letters
      have first : isNameStart c = true := isNameStart_of_lowerChar start
      have all : ∀ x ∈ c :: more, isNameChar x = true := by
        intro x mem
        rcases List.mem_cons.1 mem with rfl | mem
        · exact isNameChar_of_isNameStart first
        · exact all_of_lower (fun y => isNameChar_of_lowerChar) rfl others x mem
      have cut := takeWhile_run all ends
      have left := dropWhile_run all ends
      rw [List.cons_append] at cut left ⊢
      simp only [splitName, first, if_pos, cut, left]

/-- A tag's name starts with a character that starts a name. -/
theorem exists_first {name written : Text} (named : IsTagName name)
    (letters : Text.lower written = name) :
    ∃ c more, written = c :: more ∧ isNameStart c = true := by
  obtain ⟨d, small, rfl, start, others⟩ := named
  cases written with
  | nil => cases letters
  | cons c more =>
      obtain ⟨rfl, -⟩ := List.cons.inj letters
      exact ⟨c, more, rfl, isNameStart_of_lowerChar start⟩

/-! ## Attributes -/

theorem attributeValue?_quoted {quote : Char} {value escaped : Text}
    (quoted : quote = '"' ∨ quote = '\'') (spelled : Escaped quote value escaped) (rest : Text) :
    attributeValue? (quote :: (escaped ++ quote :: rest)) =
      some ⟨value, quote :: (escaped ++ [quote]), rest⟩ := by
  have unmarked : quote ∉ escaped := by
    rcases quoted with rfl | rfl
    · exact mark_notMem_of_escaped (by decide) (by decide) (by decide) spelled
    · exact mark_notMem_of_escaped (by decide) (by decide) (by decide) spelled
  have all : ∀ c ∈ escaped, (c != quote) = true := by
    intro c mem
    rw [bne_iff_ne]
    rintro rfl
    exact unmarked mem
  have ends : EndsRun (· != quote) (quote :: rest) := endsRun_cons (by simp)
  simp only [attributeValue?, if_pos quoted, takeWhile_run all ends, dropWhile_run all ends,
    decode_of_escaped spelled]

theorem attribute?_spelled {entry : Text × Text} {written : Text}
    (h : SpellsAttribute entry written) (rest : Text) :
    attribute? (written ++ rest) = some ⟨entry, written, rest⟩ := by
  cases h with
  | @mk name value written before behind escaped quote named letters blank blank' quoted spelled =>
      obtain ⟨ne, -, inside⟩ := named
      have all : ∀ c ∈ written, isAttributeChar c = true := by
        refine all_of_lower (fun c small => ?_) letters inside
        rcases lowerChar_eq_or c with same | capital
        · rw [same] at small
          obtain ⟨space, equals, greater, slash⟩ := small
          simp [isAttributeChar, space, equals, greater, slash]
        · exact isAttributeChar_of_capital capital
      have filled : written.isEmpty = false := by
        cases written with
        | nil => exact absurd letters.symm ne
        | cons c more => rfl
      -- the value starts with its quote, so the white space before it ends there
      have unspaced : isSpace quote = false := by
        rcases quoted with rfl | rfl <;> decide
      have endsName : EndsRun isAttributeChar
          (before ++ '=' :: (behind ++ quote :: (escaped ++ quote :: rest))) :=
        endsRun_blank isAttributeChar_of_isSpace blank (endsRun_cons (by decide))
      have endsBefore : EndsRun isSpace
          ('=' :: (behind ++ quote :: (escaped ++ quote :: rest))) := endsRun_cons (by decide)
      have endsBehind : EndsRun isSpace (quote :: (escaped ++ quote :: rest)) :=
        endsRun_cons unspaced
      have shape : written ++ before ++ '=' :: (behind ++ quote :: (escaped ++ [quote])) ++ rest =
          written ++ (before ++ '=' :: (behind ++ quote :: (escaped ++ quote :: rest))) := by simp
      rw [shape]
      simp only [attribute?, takeWhile_run all endsName, dropWhile_run all endsName, filled,
        takeWhile_run (isSpace_of_mem blank) endsBefore,
        dropWhile_run (isSpace_of_mem blank) endsBefore,
        takeWhile_run (isSpace_of_mem blank') endsBehind,
        dropWhile_run (isSpace_of_mem blank') endsBehind,
        attributeValue?_quoted quoted spelled, letters, Option.map_some]
      simp

theorem tagBody?_of_greater {t rest : Text} (d : Dictionary)
    (h : t.dropWhile isSpace = '>' :: rest) :
    tagBody? d t = some ⟨(d, false), t.takeWhile isSpace ++ ['>'], rest⟩ := by
  rw [tagBody?]
  split
  · next eq => simp [h] at eq
  · next eq =>
    obtain ⟨-, rfl⟩ := List.cons.inj (h.symm.trans eq)
    rfl
  · next eq => simp [h] at eq
  · next other _ => exact absurd h (other rest)

theorem tagBody?_of_slash {t rest : Text} (d : Dictionary)
    (h : t.dropWhile isSpace = '/' :: '>' :: rest) :
    tagBody? d t = some ⟨(d, true), t.takeWhile isSpace ++ ['/', '>'], rest⟩ := by
  rw [tagBody?]
  split
  · next eq =>
    obtain ⟨-, eq⟩ := List.cons.inj (h.symm.trans eq)
    obtain ⟨-, rfl⟩ := List.cons.inj eq
    rfl
  · next eq => simp [h] at eq
  · next other eq => exact absurd (List.cons.inj (h.symm.trans eq)).2.symm (other rest)
  · next other _ _ => exact absurd h (other rest)

theorem tagBody?_of_attribute {t : Text} {a : Slice (Text × Text)} (d : Dictionary)
    (h : attribute? (t.dropWhile isSpace) = some a) :
    tagBody? d t = (tagBody? (d.insert a.value.1 a.value.2) a.rest).map
      (Slice.behind (t.takeWhile isSpace ++ a.source)) := by
  have named : ∀ c rest, isAttributeChar c = false → t.dropWhile isSpace ≠ c :: rest := by
    intro c rest ends eq
    simp [eq, attribute?, ends] at h
  rw [tagBody?]
  split
  · next eq => exact absurd eq (named _ _ (by decide))
  · next eq => exact absurd eq (named _ _ (by decide))
  · next eq => exact absurd eq (named _ _ (by decide))
  · split
    · next none => rw [h] at none; cases none
    · next read =>
      obtain rfl := Option.some.inj (h.symm.trans read)
      rfl

/-- No white space stands where an attribute starts. -/
theorem endsRun_of_attribute? {t : Text} {a : Slice (Text × Text)} (h : attribute? t = some a) :
    EndsRun isSpace t := by
  intro c head
  rw [Bool.eq_false_iff]
  intro space
  cases t with
  | nil => cases head
  | cons d rest =>
      obtain rfl := Option.some.inj head
      simp [attribute?, isAttributeChar_of_isSpace d space] at h

/-- Attributes in front of the end of a tag are put into the dictionary one by one. -/
theorem tagBody?_spelled {listed : List (Text × Text)} {inside ending source rest : Text}
    {isEmpty : Bool} (h : SpellsAttributes listed inside)
    (closes : ∀ d, tagBody? d ending = some ⟨(d, isEmpty), source, rest⟩) (d : Dictionary) :
    tagBody? d (inside ++ ending) =
      some ⟨(listed.foldl (fun d e => d.insert e.1 e.2) d, isEmpty), inside ++ source, rest⟩ := by
  induction h generalizing d with
  | nil => exact closes d
  | @cons entry entries gap written more apart blank first others ih =>
      have read := attribute?_spelled first (more ++ ending)
      have ends := endsRun_of_attribute? read
      have shape : gap ++ (written ++ more) ++ ending = gap ++ (written ++ (more ++ ending)) := by
        simp
      rw [shape, tagBody?_of_attribute d
        ((congrArg attribute? (dropWhile_run (isSpace_of_mem blank) ends)).trans read),
        takeWhile_run (isSpace_of_mem blank) ends, ih]
      simp [Slice.behind]

/-! ## One token -/

variable {name written inside gap rest : Text} {attributes : Dictionary}
  {listed : List (Text × Text)}

/-- White space and the end of a tag stand behind a name, or attributes do. -/
theorem endsRun_inside (spelled : SpellsAttributes listed inside) (blank : Text.isBlank gap = true)
    (ends : EndsRun isNameChar rest) : EndsRun isNameChar (inside ++ (gap ++ rest)) := by
  cases spelled with
  | nil =>
      rw [List.nil_append]
      exact endsRun_blank isNameChar_of_isSpace blank ends
  | @cons entry entries gap' written more apart blank' first others =>
      cases gap' with
      | nil => exact absurd rfl apart
      | cons c gap' =>
          exact endsRun_cons (isNameChar_of_isSpace c (isSpace_of_mem blank' c List.mem_cons_self))

/-- What starts with a name behind `<` is read as a tag. -/
theorem scan_of_name {body : Text} {token : Token} (named : IsTagName name)
    (letters : Text.lower written = name) (ends : EndsRun isNameChar body)
    (h : tag? written body = some (token, rest)) :
    scan '<' (written ++ body) = (.token token, rest) := by
  have cut := splitName_written named letters ends
  obtain ⟨c, more, rfl, start⟩ := exists_first named letters
  have other : ∀ d, isNameStart d = false → c ≠ d := fun d => ne_of_isNameStart start
  have noSection : Text.dropStart? "![CDATA[" (c :: more ++ body) = none := by
    rw [Text.dropStart?_eq_none_iff]
    rintro ⟨behind, eq⟩
    exact other '!' (by decide) (List.cons.inj eq).1.symm
  have noComment : Text.startsWith "!--" (c :: more ++ body) = false := by
    rw [Bool.eq_false_iff]
    intro starts
    obtain ⟨behind, eq⟩ := List.isPrefixOf_iff_prefix.1 starts
    exact other '!' (by decide) (List.cons.inj eq).1.symm
  rw [List.cons_append] at cut noSection noComment ⊢
  simp only [scan, if_pos, scanBracket, noSection, noComment, Bool.false_eq_true, if_false]
  split
  · next eq => exact absurd (List.cons.inj eq).1 (other '/' (by decide))
  · next d tail _ eq =>
    obtain ⟨rfl, rfl⟩ := List.cons.inj eq
    have mark : ¬ (c = '!' ∨ c = '?') := by
      rintro (eq | eq)
      · exact other '!' (by decide) eq
      · exact other '?' (by decide) eq
    simp only [if_neg mark, start, if_pos, cut, h]
    rfl
  · next eq => cases eq

theorem tagBody?_greater (blank : Text.isBlank gap = true) (rest : Text) (d : Dictionary) :
    tagBody? d (gap ++ (['>'] ++ rest)) = some ⟨(d, false), gap ++ ['>'], rest⟩ := by
  have ends : EndsRun isSpace ('>' :: rest) := endsRun_cons (by decide)
  have spaces := isSpace_of_mem blank
  rw [List.singleton_append, tagBody?_of_greater d (dropWhile_run spaces ends),
    takeWhile_run spaces ends]

theorem tagBody?_slash (blank : Text.isBlank gap = true) (rest : Text) (d : Dictionary) :
    tagBody? d (gap ++ (['/', '>'] ++ rest)) = some ⟨(d, true), gap ++ ['/', '>'], rest⟩ := by
  have ends : EndsRun isSpace ('/' :: '>' :: rest) := endsRun_cons (by decide)
  have spaces := isSpace_of_mem blank
  rw [List.cons_append, List.singleton_append, tagBody?_of_slash d (dropWhile_run spaces ends),
    takeWhile_run spaces ends]

/-- A spelled tag is read up to its `ending`, which says whether the tag is empty. -/
theorem scan_tag {ending : Text} {isEmpty : Bool} (named : IsTagName name)
    (letters : Text.lower written = name) (all : listed.Perm attributes.entries)
    (spelled : SpellsAttributes listed inside) (blank : Text.isBlank gap = true)
    (closes : ∀ d, tagBody? d (gap ++ (ending ++ rest)) = some ⟨(d, isEmpty), gap ++ ending, rest⟩)
    (ends : EndsRun isNameChar (ending ++ rest)) :
    scan '<' (written ++ (inside ++ gap ++ ending) ++ rest) =
      (.token (if isEmpty
        then .emptyTag name attributes ('<' :: (written ++ (inside ++ gap ++ ending)))
        else .startTag name attributes ('<' :: (written ++ (inside ++ gap ++ ending)))), rest) := by
  have shape : written ++ (inside ++ gap ++ ending) ++ rest =
      written ++ (inside ++ (gap ++ (ending ++ rest))) := by simp
  rw [shape]
  refine scan_of_name named letters (endsRun_inside spelled blank ends) ?_
  rw [tag?, tagBody?_spelled spelled closes, ← letters, ← Dictionary.ofList_of_perm all]
  cases isEmpty <;> simp [Dictionary.ofList]

theorem scan_endTag (named : IsTagName name) (letters : Text.lower written = name)
    (blank : Text.isBlank gap = true) (rest : Text) :
    scan '<' ('/' :: (written ++ gap ++ ['>']) ++ rest) =
      (.token (.endTag name ('<' :: '/' :: (written ++ gap ++ ['>']))), rest) := by
  have ends : EndsRun isNameChar (gap ++ '>' :: rest) :=
    endsRun_blank isNameChar_of_isSpace blank (endsRun_cons (by decide))
  have cut := splitName_written named letters ends
  have filled : written.isEmpty = false := by
    obtain ⟨c, more, rfl, -⟩ := exists_first named letters
    rfl
  have greater : EndsRun isSpace ('>' :: rest) := endsRun_cons (by decide)
  have shape : '/' :: (written ++ gap ++ ['>']) ++ rest =
      '/' :: (written ++ (gap ++ '>' :: rest)) := by simp
  have noSection :
      Text.dropStart? "![CDATA[" ('/' :: (written ++ (gap ++ '>' :: rest))) = none := rfl
  have noComment : Text.startsWith "!--" ('/' :: (written ++ (gap ++ '>' :: rest))) = false := rfl
  have read : endTag? (written ++ (gap ++ '>' :: rest)) =
      some (.endTag name ('<' :: '/' :: (written ++ gap ++ ['>'])), rest) := by
    simp [endTag?, cut, dropWhile_run (isSpace_of_mem blank) greater,
      takeWhile_run (isSpace_of_mem blank) greater, filled, letters]
  rw [shape]
  simp only [scan, if_pos, scanBracket, noSection, noComment, Bool.false_eq_true, if_false, read]
  rfl

theorem scan_cdata {content : Text} (closed : ¬ cdataClose <:+: content) (rest : Text) :
    scan '<' ("![CDATA[" ++ content ++ cdataClose ++ rest) =
      (.token (.cdata content (cdataOpen ++ content ++ cdataClose)), rest) := by
  have first : ¬ cdataClose <:+: (content ++ cdataClose).dropLast := by
    have mark : cdataClose = [']', ']'] ++ ['>'] := rfl
    have shape : (content ++ cdataClose).dropLast = content ++ [']', ']'] := by
      rw [List.dropLast_append_of_ne_nil (by decide)]
      rfl
    rw [shape]
    intro inside
    rw [mark] at inside closed
    exact closed (Text.infix_of_infix_append (by decide) inside)
  have cut : Text.cut? cdataClose (content ++ cdataClose ++ rest) = some (content, rest) :=
    (Text.cut?_eq_some_iff (by decide)).2 ⟨rfl, first⟩
  have opened : Text.dropStart? "![CDATA[" ("![CDATA[" ++ content ++ cdataClose ++ rest) =
      some (content ++ cdataClose ++ rest) :=
    Text.dropStart?_eq_some_iff.2 (by simp)
  simp only [scan, if_pos, scanBracket, opened, cdataSection, cut]
  rfl

theorem scan_text {c : Char} {content written : Text} (spelled : Escaped '<' content (c :: written))
    (ends : EndsRun (· != '<') rest) :
    scan c (written ++ rest) = (.token (.text content (c :: written)), rest) := by
  have unmarked : '<' ∉ c :: written :=
    mark_notMem_of_escaped (by decide) (by decide) (by decide) spelled
  have all : ∀ x ∈ written, (x != '<') = true := by
    intro x mem
    rw [bne_iff_ne]
    rintro rfl
    exact unmarked (List.mem_cons_of_mem _ mem)
  have other : c ≠ '<' := by
    rintro rfl
    exact unmarked List.mem_cons_self
  simp only [scan, if_neg other, textRun, takeWhile_run all ends, dropWhile_run all ends,
    decode_of_escaped spelled]
  rfl

/-- A spelling starts with a character, which is `<` unless the token is text. -/
theorem exists_source {token : Token} (spelled : Spelled token) :
    ∃ c more, token.source = c :: more ∧ (token.isText = false → c = '<') := by
  cases spelled with
  | text filled escaped =>
      cases escaped with
      | nil => exact absurd rfl filled
      | literal => exact ⟨_, _, rfl, fun markup => by cases markup⟩
      | reference => exact ⟨_, _, rfl, fun markup => by cases markup⟩
  | _ => exact ⟨'<', _, rfl, fun _ => rfl⟩

theorem pieces_cons {c : Char} {t rest : Text} {piece : Piece} (h : scan c t = (piece, rest)) :
    pieces (c :: t) = piece :: pieces rest := by
  rw [pieces, h]

/-- The step: a spelled token is read as itself, whatever stands behind it; behind a text it
has to be markup or the end. -/
theorem pieces_append_of_spelled {token : Token} (spelled : Spelled token) {rest : Text}
    (ends : token.isText = true → EndsRun (· != '<') rest) :
    pieces (token.source ++ rest) = .token token :: pieces rest := by
  cases spelled with
  | startTag named letters all inside blank =>
      exact pieces_cons (scan_tag named letters all inside blank (tagBody?_greater blank rest)
        (endsRun_cons (by decide)))
  | emptyTag named letters all inside blank =>
      exact pieces_cons (scan_tag named letters all inside blank (tagBody?_slash blank rest)
        (endsRun_cons (by decide)))
  | endTag named letters blank => exact pieces_cons (scan_endTag named letters blank rest)
  | cdata closed => exact pieces_cons (scan_cdata closed rest)
  | @text content written filled escaped =>
      cases written with
      | nil =>
          cases escaped
          exact absurd rfl filled
      | cons c written => exact pieces_cons (scan_text escaped (ends rfl))

/-! ## Many tokens -/

/-- No text stands next to a text. -/
def TextsApart : List Token → Prop
  | a :: b :: ts => (a.isText = false ∨ b.isText = false) ∧ TextsApart (b :: ts)
  | _ => True

theorem TextsApart.tail {t : Token} {ts : List Token} (h : TextsApart (t :: ts)) :
    TextsApart ts := by
  cases ts with
  | nil => trivial
  | cons u us => exact h.2

theorem TextsApart.append {ts us : List Token} (first : TextsApart ts) (second : TextsApart us)
    (markup : ∀ u, us.head? = some u → u.isText = false) : TextsApart (ts ++ us) := by
  induction ts with
  | nil => exact second
  | cons t ts ih =>
      cases ts with
      | nil =>
          cases us with
          | nil => trivial
          | cons u us => exact ⟨.inr (markup u rfl), second⟩
      | cons t' ts => exact ⟨first.1, ih first.2⟩

/-- The run: markup made of spelled tokens falls into these tokens and nothing else. -/
theorem pieces_flatMap_source {ts : List Token} (spelled : ∀ t ∈ ts, Spelled t)
    (apart : TextsApart ts) : pieces (ts.flatMap Token.source) = ts.map .token := by
  induction ts with
  | nil =>
      show pieces [] = []
      rw [pieces]
  | cons t ts ih =>
      have ends : t.isText = true → EndsRun (· != '<') (ts.flatMap Token.source) := by
        intro isText
        cases ts with
        | nil =>
            intro c head
            cases head
        | cons u us =>
            obtain ⟨c, more, source, markup⟩ := exists_source (spelled u (by simp))
            rcases apart.1 with noText | noText
            · rw [isText] at noText
              cases noText
            · rw [List.flatMap_cons, source, markup noText]
              exact endsRun_cons (by decide)
      have others := ih (fun u mem => spelled u (List.mem_cons_of_mem _ mem)) apart.tail
      rw [List.flatMap_cons, pieces_append_of_spelled (spelled t List.mem_cons_self) ends, others,
        List.map_cons]

/-- Markup that spells tokens, no text next to a text, has exactly these tokens. -/
theorem tokens_of_spelled {ts : List Token} (spelled : ∀ t ∈ ts, Spelled t)
    (apart : TextsApart ts) : tokens (ts.flatMap Token.source) = ts := by
  rw [tokens, pieces_flatMap_source spelled apart, List.filterMap_map]
  exact List.filterMap_some

/-- A link in markup: attributes out of order, capitals, white space, both quotes and three kinds
of references; and behind it a section that ends as its end mark starts. -/
def linkTokens : List Token :=
  [.startTag "ac:link" (.ofList [("id", ""), ("href", "x&'")])
      "<Ac:LINK\tID = \"\" hRef='x&amp;&#39;' >",
    .text "<a" "&#x3C;a", .cdata "]]" "<![CDATA[]]]]>", .emptyTag "br" .empty "<br />",
    .endTag "ac:link" "</AC:link\n>"]

/-- What holds of every character of a given text is found by looking at each. -/
theorem forall_mem_of_all {p : Char → Prop} [DecidablePred p] {t : Text}
    (all : t.all (fun c => decide (p c)) = true) : ∀ c ∈ t, p c := by
  intro c mem
  exact of_decide_eq_true (List.all_eq_true.1 all c mem)

theorem spelled_linkTokens : ∀ t ∈ linkTokens, Spelled t := by
  have ampersand : IsReference "amp" '&' := ⟨.named (by decide), by decide⟩
  have apostrophe : IsReference "#39" '\'' :=
    ⟨.decimal (.plain (.append (t := ['3']) (n := 3) (d := 9)
      (.digit (by decide) (by decide)) (by decide) (by decide))), by decide⟩
  have less : IsReference "#x3C" '<' :=
    ⟨.hexadecimal (.inl rfl) (.plain (.append (t := ['3']) (n := 3) (d := 12)
      (.digit (by decide) (by decide)) (by decide) (by decide))), by decide⟩
  have short : IsAttributeName "id" := ⟨by decide, by decide, forall_mem_of_all (by decide)⟩
  have long : IsAttributeName "href" := ⟨by decide, by decide, forall_mem_of_all (by decide)⟩
  have identifier : SpellsAttribute ("id", "") ("ID".toList ++ " ".toList ++
      '=' :: (" ".toList ++ '"' :: ([] ++ ['"']))) :=
    .mk short (by decide) (by decide) (by decide) (.inl rfl) .nil
  have reference : SpellsAttribute ("href", "x&'") ("hRef".toList ++ [] ++
      '=' :: ([] ++ '\'' :: ("x&amp;&#39;".toList ++ ['\'']))) :=
    .mk long (by decide) (by decide) (by decide) (.inr rfl)
      (.literal (by decide) (by decide) (.reference ampersand (.reference apostrophe .nil)))
  have listed : SpellsAttributes [("id", ""), ("href", "x&'")]
      ("\t".toList ++ (_ ++ (" ".toList ++ (_ ++ [])))) :=
    .cons (by decide) (by decide) identifier (.cons (by decide) (by decide) reference .nil)
  have named : IsTagName "ac:link" := by decide
  have start : Spelled (.startTag "ac:link" (.ofList [("id", ""), ("href", "x&'")])
      ('<' :: ("Ac:LINK".toList ++ (_ ++ " ".toList ++ ['>'])))) :=
    .startTag named (by decide) (by decide) listed (by decide)
  have text : Spelled (.text "<a" "&#x3C;a") :=
    .text (by decide) (.reference less (.literal (by decide) (by decide) .nil))
  have data : Spelled (.cdata "]]" (cdataOpen ++ "]]".toList ++ cdataClose)) := .cdata (by decide)
  have lineBreak : Spelled (.emptyTag "br" .empty
      ('<' :: ("br".toList ++ ([] ++ " ".toList ++ ['/', '>'])))) :=
    .emptyTag (by decide) (by decide) (.refl _) .nil (by decide)
  have close : Spelled (.endTag "ac:link"
      ('<' :: '/' :: ("AC:link".toList ++ "\n".toList ++ ['>']))) :=
    .endTag named (by decide) (by decide)
  intro t mem
  simp only [linkTokens, List.mem_cons, List.not_mem_nil, or_false] at mem
  rcases mem with rfl | rfl | rfl | rfl | rfl
  · exact start
  · exact text
  · exact data
  · exact lineBreak
  · exact close

theorem tokens_linkTokens : (∀ t ∈ linkTokens, Spelled t) ∧ TextsApart linkTokens ∧
    tokens "<Ac:LINK\tID = \"\" hRef='x&amp;&#39;' >&#x3C;a<![CDATA[]]]]><br /></AC:link\n>" =
      linkTokens := by
  have apart : TextsApart linkTokens := ⟨.inl rfl, .inr rfl, .inl rfl, .inl rfl, trivial⟩
  exact ⟨spelled_linkTokens, apart, tokens_of_spelled spelled_linkTokens apart⟩

end Wikidown.Markup
