/-
# Wikidown.Proofs.JsonGrammar -- what JSON texts say

The grammar of JSON, apart from any reader or writer.  A character of a string may stand for
itself or as an escape (`CharText`), a number is its numeral (`NumberText`, `numberValue`),
and between two words there may be white space (`Gap`).  Lists and records are texts between
brackets with commas between them (`Enclosed`).

`Spells Str d t` says that the text `t` is well-formed and says `d`; what a string is, is a
parameter of it.  With `StringText` strings are texts; with `LooseText` they are looked at
for their form only, and may hold one half of a surrogate pair.  A `JsonText` is such a text
with white space around it, and a text that says something is `WellFormed`
(`WellFormed.of_spells`).
-/
import Wikidown.Json.Lexeme
import Wikidown.Json.Number
import Wikidown.Proofs.References

namespace Wikidown.Json

set_option autoImplicit false

/-! ## Words -/

/-- White space between two words. -/
def Gap (g : Text) : Prop := ∀ c ∈ g, isGap c = true

/-- What can stand behind a value: white space, a comma, a closing bracket or nothing. -/
def Delimited (rest : Text) : Prop :=
  ∀ c, rest.head? = some c → isGap c = true ∨ c = ',' ∨ c = ']' ∨ c = '}'

/-- A word starts with a character that is neither white space nor a delimiter. -/
def Opens (t : Text) : Prop :=
  ∃ c rest, t = c :: rest ∧ isGap c = false ∧ c ≠ ',' ∧ c ≠ ']' ∧ c ≠ '}'

/-! ## Strings -/

/-- The letters behind a backslash and the characters that they stand for. -/
def shortEscapes : List (Char × Char) :=
  [('"', '"'), ('\\', '\\'), ('/', '/'), ('b', '\x08'), ('f', '\x0c'), ('n', '\n'), ('r', '\r'),
    ('t', '\t')]

/-- A unit of UTF-16 in four hexadecimal digits. -/
def HexText (unit : Nat) (t : Text) : Prop := Markup.Numeral 16 t unit ∧ t.length = 4

/-- A character that may stand for itself: no quote, no backslash and no control. -/
def IsRaw (c : Char) : Prop := c ≠ '"' ∧ c ≠ '\\' ∧ 0x20 ≤ c.toNat

/-- A character in a string: for itself or as one of its escapes.  One beyond the first
65536 is escaped by the two halves of its surrogate pair. -/
inductive CharText : Char → Text → Prop
  | raw {c : Char} (plain : IsRaw c) : CharText c [c]
  | short {letter c : Char} (known : (letter, c) ∈ shortEscapes) : CharText c ['\\', letter]
  | unit {c : Char} {t : Text} (digits : HexText c.toNat t) : CharText c ('\\' :: 'u' :: t)
  | pair {c : Char} {high low : Nat} {t u : Text} (first : HexText high t) (second : HexText low u)
      (isHigh : 0xD800 ≤ high ∧ high ≤ 0xDBFF) (isLow : 0xDC00 ≤ low ∧ low ≤ 0xDFFF)
      (value : c.toNat = 0x10000 + (high - 0xD800) * 0x400 + (low - 0xDC00)) :
      CharText c ('\\' :: 'u' :: t ++ '\\' :: 'u' :: u)

/-- The characters of a string, one after the other. -/
inductive CharsText : Text → Text → Prop
  | nil : CharsText [] []
  | cons {c : Char} {s t u : Text} (first : CharText c t) (others : CharsText s u) :
      CharsText (c :: s) (t ++ u)

/-- A string in quotes. -/
def StringText (s t : Text) : Prop := ∃ body, CharsText s body ∧ t = '"' :: (body ++ ['"'])

/-- The inside of a string whose characters are not looked at: any unit of UTF-16 may be
escaped. -/
inductive LooseChars : Text → Prop
  | nil : LooseChars []
  | raw {c : Char} {u : Text} (plain : IsRaw c) (others : LooseChars u) : LooseChars (c :: u)
  | short {letter c : Char} {u : Text} (known : (letter, c) ∈ shortEscapes)
      (others : LooseChars u) : LooseChars ('\\' :: letter :: u)
  | unit {code : Nat} {t u : Text} (digits : HexText code t) (others : LooseChars u) :
      LooseChars ('\\' :: 'u' :: (t ++ u))

/-- A string in quotes of which nothing but its form counts. -/
def LooseText (_ : Unit) (t : Text) : Prop := ∃ body, LooseChars body ∧ t = '"' :: (body ++ ['"'])

/-! ## Numbers -/

/-- One digit or more. -/
def Digits (t : Text) : Prop := t ≠ [] ∧ ∀ c ∈ t, c.isDigit = true

/-- The integer part of a number, which starts with a zero only if that is all of it. -/
def WholeText (t : Text) : Prop := Digits t ∧ (t.head? = some '0' → t = ['0'])

/-- The fraction of a number, if it has one. -/
def FractionText (t : Text) : Prop := t = [] ∨ ∃ ds, Digits ds ∧ t = '.' :: ds

/-- The exponent of a number, if it has one. -/
def ExponentText (t : Text) : Prop :=
  t = [] ∨ ∃ e sign ds, (e = 'e' ∨ e = 'E') ∧ (sign = [] ∨ sign = ['+'] ∨ sign = ['-']) ∧
    Digits ds ∧ t = e :: (sign ++ ds)

/-- A number. -/
def NumberText (t : Text) : Prop :=
  ∃ sign whole fraction exponent, (sign = [] ∨ sign = ['-']) ∧ WholeText whole ∧
    FractionText fraction ∧ ExponentText exponent ∧ t = sign ++ whole ++ fraction ++ exponent

/-- The value of some digits. -/
def digitsValue (ds : Text) : Nat := Nat.ofDigitChars 10 ds 0

/-- A whole number times a power of ten. -/
def scaled (n : Int) (power : Int) : Rat :=
  if 0 ≤ power then ((n * (Nat.pow 10 power.toNat : Nat) : Int) : Rat)
  else mkRat n (Nat.pow 10 power.natAbs)

/-- The value of a number: its digits on both sides of the point, scaled. -/
def numberValue (t : Text) : Rat :=
  let (isNegative, t) := splitMinus t
  let (whole, t) := splitDigits t
  let (fraction, t) := match t with
    | '.' :: t => splitDigits t
    | _ => ([], t)
  let power : Int := match t with
    | _ :: t => (splitSign t).1 * digitsValue (splitDigits (splitSign t).2).1
    | [] => 0
  let size : Int := digitsValue (whole ++ fraction)
  scaled (if isNegative then -size else size) (power - fraction.length)

example : numberValue "-1.50e2" = -150 := by decide

/-! ## Lists and records -/

/-- Texts with a comma between each two and white space around each. -/
inductive Separated : List Text → Text → Prop
  | one {t a b : Text} (before : Gap a) (after : Gap b) : Separated [t] (a ++ t ++ b)
  | more {t a b u : Text} {ts : List Text} (before : Gap a) (after : Gap b)
      (others : Separated ts u) : Separated (t :: ts) (a ++ t ++ b ++ ',' :: u)

/-- Texts between two brackets. -/
inductive Enclosed (opening closing : Char) : List Text → Text → Prop
  | empty {g : Text} (gap : Gap g) : Enclosed opening closing [] (opening :: (g ++ [closing]))
  | filled {ts : List Text} {u : Text} (inside : Separated ts u) :
      Enclosed opening closing ts (opening :: (u ++ [closing]))

/-- A key and its value, with white space around the colon. -/
def memberText (key before after value : Text) : Text := key ++ before ++ ':' :: (after ++ value)

/-! ## Values -/

/-- What a JSON text says, with strings of any kind.  Members keep their order, and a key may
stand more than once. -/
inductive Datum (σ : Type) where
  | null
  | boolean (value : Bool)
  | number (value : Rat)
  | string (value : σ)
  | list (elements : List (Datum σ))
  | record (members : List (σ × Datum σ))

/-- A member of a record with all that it is written with. -/
structure Entry (σ : Type) where
  key : σ
  keyText : Text
  before : Text
  after : Text
  value : Datum σ
  valueText : Text

/-- The text of a member. -/
def Entry.text {σ : Type} (e : Entry σ) : Text := memberText e.keyText e.before e.after e.valueText

/-- The text is well-formed and says the datum, where `Str` tells what strings say. -/
inductive Spells {σ : Type} (Str : σ → Text → Prop) : Datum σ → Text → Prop
  | null : Spells Str .null "null"
  | true : Spells Str (.boolean Bool.true) "true"
  | false : Spells Str (.boolean Bool.false) "false"
  | number {t : Text} (numeral : NumberText t) : Spells Str (.number (numberValue t)) t
  | string {s : σ} {t : Text} (quoted : Str s t) : Spells Str (.string s) t
  | list {t : Text} (items : List (Datum σ × Text)) (each : ∀ x ∈ items, Spells Str x.1 x.2)
      (enclosed : Enclosed '[' ']' (items.map Prod.snd) t) :
      Spells Str (.list (items.map Prod.fst)) t
  | record {t : Text} (entries : List (Entry σ)) (keys : ∀ e ∈ entries, Str e.key e.keyText)
      (gaps : ∀ e ∈ entries, Gap e.before ∧ Gap e.after)
      (values : ∀ e ∈ entries, Spells Str e.value e.valueText)
      (enclosed : Enclosed '{' '}' (entries.map Entry.text) t) :
      Spells Str (.record (entries.map fun e => (e.key, e.value))) t

/-- A text that says the datum, with white space around it. -/
def JsonText (d : Datum Text) (t : Text) : Prop :=
  ∃ a value b, Gap a ∧ Spells StringText d value ∧ Gap b ∧ t = a ++ value ++ b

/-- A well-formed value of any kind. -/
def WellFormed (t : Text) : Prop := ∃ d, Spells LooseText d t

/-! ## Gaps and words -/

theorem gap_nil : Gap [] := by simp [Gap]

theorem Delimited.of_gap {g rest : Text} (gap : Gap g) (h : Delimited rest) :
    Delimited (g ++ rest) := by
  cases g with
  | nil => exact h
  | cons c g =>
      intro d head
      rw [List.cons_append, List.head?_cons, Option.some.injEq] at head
      exact .inl (gap d (head ▸ List.mem_cons_self))

theorem delimited_comma (rest : Text) : Delimited (',' :: rest) := by simp [Delimited]

theorem delimited_bracket (rest : Text) : Delimited (']' :: rest) := by simp [Delimited]

theorem delimited_brace (rest : Text) : Delimited ('}' :: rest) := by simp [Delimited]

theorem delimited_nil : Delimited [] := by simp [Delimited]

theorem Gap.delimited {g : Text} (gap : Gap g) : Delimited g := by
  simpa using Delimited.of_gap gap delimited_nil

/-- A text that starts with no white space. -/
def Shown (t : Text) : Prop := ∀ c, t.head? = some c → isGap c = false

theorem shown_cons {c : Char} (visible : isGap c = false) (t : Text) : Shown (c :: t) := by
  intro d head
  obtain rfl := Option.some.inj head
  exact visible

theorem shown_nil : Shown [] := by simp [Shown]

theorem Opens.shown {t : Text} (opens : Opens t) (rest : Text) : Shown (t ++ rest) := by
  obtain ⟨c, more, rfl, visible, -⟩ := opens
  exact shown_cons visible (more ++ rest)

/-- White space before a text that starts with none is dropped up to it. -/
theorem dropGap_append {g t : Text} (gap : Gap g) (shown : Shown t) : dropGap (g ++ t) = t := by
  rw [dropGap, List.dropWhile_append_of_pos gap]
  cases t with
  | nil => rfl
  | cons c t => simp [shown c rfl]

theorem Opens.dropGap {g t : Text} (opens : Opens t) (gap : Gap g) (rest : Text) :
    dropGap (g ++ (t ++ rest)) = t ++ rest := dropGap_append gap (opens.shown rest)

theorem Opens.append {t : Text} (opens : Opens t) (rest : Text) : Opens (t ++ rest) := by
  obtain ⟨c, more, rfl, apart⟩ := opens
  exact ⟨c, more ++ rest, rfl, apart⟩

theorem Opens.member {key : Text} (opens : Opens key) (before after value : Text) :
    Opens (memberText key before after value) := by
  rw [memberText, List.append_assoc]
  exact opens.append _

/-- White space before the first of some texts can be cut off. -/
theorem Separated.strip {ts : List Text} {u : Text} (h : Separated ts u)
    (words : ∀ t ∈ ts, Opens t) :
    ∃ g v, Gap g ∧ u = g ++ v ∧ Opens v ∧ Separated ts v := by
  cases h with
  | @one t g g' before after =>
      have opens := (words t List.mem_cons_self).append g'
      exact ⟨g, t ++ g', before, by simp, opens, by simpa using Separated.one gap_nil after⟩
  | @more t g g' u ts before after others =>
      have opens := (words t List.mem_cons_self).append (g' ++ ',' :: u)
      exact ⟨g, t ++ (g' ++ ',' :: u), before, by simp, opens,
        by simpa using Separated.more gap_nil after others⟩

/-- What can stand behind a value does not go on with a number. -/
theorem Delimited.not_numeral {rest : Text} (h : Delimited rest) {c : Char}
    (head : rest.head? = some c) : c.isDigit = false ∧ c ≠ '.' ∧ c ≠ 'e' ∧ c ≠ 'E' := by
  rcases h c head with gap | rfl | rfl | rfl
  · simp only [isGap, Bool.or_eq_true, beq_iff_eq] at gap
    rcases gap with ((rfl | rfl) | rfl) | rfl <;> decide
  all_goals decide

theorem StringText.opens {s t : Text} (h : StringText s t) : Opens t := by
  obtain ⟨body, -, rfl⟩ := h
  exact ⟨'"', _, rfl, by decide, by decide, by decide, by decide⟩

/-- Four digits make a unit. -/
theorem hexText_of_digits {a b c d : Char} (i j k l : Nat)
    (known : (a, i) ∈ Markup.digits ∧ (b, j) ∈ Markup.digits ∧ (c, k) ∈ Markup.digits ∧
      (d, l) ∈ Markup.digits)
    (small : i < 16 ∧ j < 16 ∧ k < 16 ∧ l < 16) :
    HexText (((i * 16 + j) * 16 + k) * 16 + l) [a, b, c, d] := by
  have first : Markup.Numeral 16 [a] i := .digit known.1 small.1
  have second := first.append known.2.1 small.2.1
  have third := second.append known.2.2.1 small.2.2.1
  exact ⟨third.append known.2.2.2 small.2.2.2, rfl⟩

/-- A string may stand for itself if each of its characters may. -/
theorem stringText_of_raw {s : Text} (plain : ∀ c ∈ s, IsRaw c) :
    StringText s ('"' :: (s ++ ['"'])) := by
  refine ⟨s, ?_, rfl⟩
  induction s with
  | nil => exact .nil
  | cons c s ih =>
      exact .cons (.raw (plain c List.mem_cons_self))
        (ih fun d mem => plain d (List.mem_cons_of_mem _ mem))

theorem LooseText.opens {s : Unit} {t : Text} (h : LooseText s t) : Opens t := by
  obtain ⟨body, -, rfl⟩ := h
  exact ⟨'"', _, rfl, by decide, by decide, by decide, by decide⟩

theorem opens_of_isDigit {c : Char} (digit : c.isDigit = true) (rest : Text) : Opens (c :: rest) := by
  have apart : ¬ Delimited (c :: rest) := fun delimited => by
    rw [(delimited.not_numeral rfl).1] at digit
    cases digit
  simp only [Delimited, List.head?_cons, Option.some.injEq, forall_eq', not_or] at apart
  exact ⟨c, rest, rfl, Bool.eq_false_iff.2 apart.1, apart.2⟩

theorem Enclosed.exists_cons {opening closing : Char} {ts : List Text} {t : Text}
    (h : Enclosed opening closing ts t) : ∃ rest, t = opening :: rest := by
  cases h <;> exact ⟨_, rfl⟩

theorem Enclosed.opens {opening closing : Char} {ts : List Text} {t : Text}
    (h : Enclosed opening closing ts t) (bracket : opening = '[' ∨ opening = '{') : Opens t := by
  obtain ⟨rest, rfl⟩ := h.exists_cons
  rcases bracket with rfl | rfl <;>
    exact ⟨_, rest, rfl, by decide, by decide, by decide, by decide⟩

theorem NumberText.opens {t : Text} (h : NumberText t) : Opens t := by
  obtain ⟨sign, whole, fraction, exponent, negative, ⟨⟨ne, digits⟩, -⟩, -, -, rfl⟩ := h
  rcases negative with rfl | rfl
  · cases whole with
    | nil => exact absurd rfl ne
    | cons c whole =>
        exact opens_of_isDigit (digits c List.mem_cons_self) (whole ++ fraction ++ exponent)
  · exact ⟨'-', whole ++ fraction ++ exponent, by simp, by decide, by decide, by decide, by decide⟩

section

variable {σ : Type} {Str : σ → Text → Prop}

/-- A value is a word. -/
theorem Spells.opens (strings : ∀ s t, Str s t → Opens t) {d : Datum σ} {t : Text}
    (h : Spells Str d t) : Opens t := by
  cases h with
  | null | true | false => exact ⟨_, _, rfl, by decide, by decide, by decide, by decide⟩
  | number numeral => exact numeral.opens
  | string quoted => exact strings _ _ quoted
  | list _ _ enclosed => exact enclosed.opens (.inl rfl)
  | record _ _ _ _ enclosed => exact enclosed.opens (.inr rfl)

end

/-! ## Strings that are not looked at -/

/-- A string has the form of one that is not looked at. -/
theorem CharsText.loose {s t : Text} (h : CharsText s t) : LooseChars t := by
  induction h with
  | nil => exact .nil
  | @cons c s t u first others ih =>
      cases first with
      | raw plain => exact .raw plain ih
      | short known => exact .short known ih
      | unit digits => exact .unit digits ih
      | pair high low _ _ _ => simpa using LooseChars.unit high (.unit low ih)

theorem StringText.loose {s t : Text} (h : StringText s t) : LooseText () t := by
  obtain ⟨body, chars, rfl⟩ := h
  exact ⟨body, chars.loose, rfl⟩

/-- Items that can be replaced one by one, each by one of the same text. -/
theorem exists_items {ι κ : Type} {text : ι → Text} {text' : κ → Text} {Good : κ → Prop}
    {xs : List ι} (each : ∀ x ∈ xs, ∃ y, text' y = text x ∧ Good y) :
    ∃ ys : List κ, ys.map text' = xs.map text ∧ ∀ y ∈ ys, Good y := by
  induction xs with
  | nil => exact ⟨[], rfl, by simp⟩
  | cons x xs ih =>
      obtain ⟨y, same, good⟩ := each x List.mem_cons_self
      obtain ⟨ys, others, all⟩ := ih fun z mem => each z (List.mem_cons_of_mem _ mem)
      exact ⟨y :: ys, by rw [List.map_cons, List.map_cons, same, others],
        List.forall_mem_cons.2 ⟨good, all⟩⟩

/-- A text that says something is well-formed as a value that is not looked at. -/
theorem WellFormed.of_spells {d : Datum Text} {t : Text} (h : Spells StringText d t) :
    WellFormed t := by
  induction h with
  | null => exact ⟨_, .null⟩
  | true => exact ⟨_, .true⟩
  | false => exact ⟨_, .false⟩
  | number numeral => exact ⟨_, .number numeral⟩
  | string quoted => exact ⟨_, .string quoted.loose⟩
  | list items each enclosed ih =>
      have loose : ∀ x ∈ items, ∃ y : Datum Unit × Text, y.2 = x.2 ∧ Spells LooseText y.1 y.2 := by
        intro x mem
        obtain ⟨d, spelled⟩ := ih x mem
        exact ⟨(d, x.2), rfl, spelled⟩
      obtain ⟨ys, texts, spelled⟩ := exists_items loose
      exact ⟨_, .list ys spelled (texts ▸ enclosed)⟩
  | record entries keys gaps values enclosed ih =>
      have loose : ∀ e ∈ entries, ∃ e' : Entry Unit, e'.text = e.text ∧
          LooseText e'.key e'.keyText ∧ (Gap e'.before ∧ Gap e'.after) ∧
            Spells LooseText e'.value e'.valueText := by
        intro e mem
        obtain ⟨d, spelled⟩ := ih e mem
        exact ⟨⟨(), e.keyText, e.before, e.after, d, e.valueText⟩, rfl, (keys e mem).loose,
          gaps e mem, spelled⟩
      obtain ⟨es, texts, all⟩ := exists_items loose
      exact ⟨_, .record es (fun e mem => (all e mem).1) (fun e mem => (all e mem).2.1)
        (fun e mem => (all e mem).2.2) (texts ▸ enclosed)⟩

end Wikidown.Json
