/-
# Wikidown.Proofs.JsonWords -- words that are read as they were written

The readers of strings and numbers, against the grammar.  `Reads read t a rest` says that a
reader takes `a` off the front of `t` and leaves `rest`.  A string is read as what it says,
in whatever way each of its characters is written (`reads_stringBody`), and a skipped one is
skipped to its end (`reads_skipString`); a skipped number ends where no digit, point or
exponent can go on (`skipNumber_append`), and a natural number that fits 64 bits is read as
itself from its decimal digits (`number_toDigits`).
-/
import Wikidown.Json.Record
import Wikidown.Proofs.JsonGrammar

namespace Wikidown.Json

set_option autoImplicit false

/-- What a reader takes off the front of a text and what it leaves. -/
def outcome {α : Type} (read : Reader α) (t : Text) : Except Fault (α × Text) :=
  (read t).map fun step => (step.value, step.rest)

/-- The reader takes `a` off the front of the text and leaves the rest. -/
def Reads {α : Type} (read : Reader α) (t : Text) (a : α) (rest : Text) : Prop :=
  outcome read t = .ok (a, rest)

theorem Reads.exists_step {α : Type} {read : Reader α} {t rest : Text} {a : α}
    (h : Reads read t a rest) : ∃ step, read t = .ok step ∧ step.value = a ∧ step.rest = rest := by
  unfold Reads outcome at h
  cases found : read t with
  | error fault => rw [found] at h; cases h
  | ok step =>
      rw [found, Except.map, Except.ok.injEq, Prod.mk.injEq] at h
      exact ⟨step, rfl, h⟩

/-! ## Escapes -/

theorem simpleEscape?_of_mem {letter c : Char} (known : (letter, c) ∈ shortEscapes) :
    simpleEscape? letter = some c := by
  have all : ∀ p ∈ shortEscapes, simpleEscape? p.1 = some p.2 := by decide
  exact all _ known

theorem reads_hex4 {unit : Nat} {t : Text} (h : HexText unit t) (rest : Text) :
    Reads hex4 (t ++ rest) unit rest := by
  obtain ⟨numeral, length⟩ := h
  have value := numeral.digitsFrom?_eq (.inr rfl)
  match t, length, value with
  | [a, b, c, d], _, value =>
    simp only [Markup.digitsFrom?, Option.bind_eq_some_iff, Option.some.injEq] at value
    obtain ⟨v, ha, w, hb, x, hc, y, hd, rfl⟩ := value
    simp only [List.cons_append, List.nil_append, Reads, outcome, hex4, ha, hb, hc, hd, Except.map,
      Nat.zero_mul, Nat.zero_add]

theorem reads_unicodeEscape_unit {c : Char} {t : Text} (digits : HexText c.toNat t) (rest : Text) :
    Reads unicodeEscape (t ++ rest) c rest := by
  obtain ⟨step, eq, value, after⟩ := (reads_hex4 digits rest).exists_step
  have valid : c.toNat < 0xD800 ∨ 0xDFFF < c.toNat ∧ c.toNat < 0x110000 := c.valid
  simp only [Reads, outcome, unicodeEscape, eq, bind, Except.bind]
  rw [if_neg (by omega), if_neg (by omega)]
  simp only [Except.map, Step.map, value, after, Char.ofNat_toNat]

theorem pairedChar_eq {c : Char} {high low : Nat}
    (value : c.toNat = 0x10000 + (high - 0xD800) * 0x400 + (low - 0xDC00)) :
    pairedChar high low = c := by
  have code : (high - 0xD800) * 0x400 + (low - 0xDC00) + 0x10000 = c.toNat := by omega
  rw [pairedChar, code, Char.ofNat_toNat]

theorem reads_unicodeEscape_pair {c : Char} {high low : Nat} {t u : Text}
    (first : HexText high t) (second : HexText low u) (isHigh : 0xD800 ≤ high ∧ high ≤ 0xDBFF)
    (isLow : 0xDC00 ≤ low ∧ low ≤ 0xDFFF)
    (value : c.toNat = 0x10000 + (high - 0xD800) * 0x400 + (low - 0xDC00)) (rest : Text) :
    Reads unicodeEscape (t ++ '\\' :: 'u' :: (u ++ rest)) c rest := by
  obtain ⟨step, eq, unit, after⟩ := (reads_hex4 first ('\\' :: 'u' :: (u ++ rest))).exists_step
  obtain ⟨step', eq', unit', after'⟩ := (reads_hex4 second rest).exists_step
  have low : Reads (lowSurrogate high) ('\\' :: 'u' :: (u ++ rest)) c rest := by
    simp only [Reads, outcome, lowSurrogate, eq', bind, Except.bind]
    rw [if_pos (by omega)]
    simp only [Except.map, unit', after', pairedChar_eq value]
  have behind : Reads (lowSurrogate step.value) step.rest c rest := by rwa [unit, after]
  obtain ⟨step'', eq'', unit'', after''⟩ := behind.exists_step
  simp only [Reads, outcome, unicodeEscape, eq, bind, Except.bind]
  rw [if_neg (by omega), if_pos (by omega)]
  simp only [eq'', Except.map, Step.widen, unit'', after'']

/-- An escaped character is read behind its backslash. -/
theorem reads_escapedChar {c : Char} {t : Text} (h : CharText c ('\\' :: t)) (rest : Text) :
    Reads escapedChar (t ++ rest) c rest := by
  have letter : simpleEscape? 'u' = none := by decide
  have behind : ∀ u : Text, Reads unicodeEscape u c rest → Reads escapedChar ('u' :: u) c rest := by
    intro u read
    obtain ⟨step, eq, value, after⟩ := read.exists_step
    simp only [Reads, outcome, escapedChar, letter, if_true, eq, Except.map, Step.widen, value, after]
  generalize whole : '\\' :: t = written at h
  cases h with
  | raw plain =>
      obtain ⟨rfl, -⟩ := List.cons.inj whole
      exact absurd rfl plain.2.1
  | short known =>
      obtain ⟨-, rfl⟩ := List.cons.inj whole
      simp only [List.cons_append, List.nil_append, Reads, outcome, escapedChar,
        simpleEscape?_of_mem known, Except.map]
  | unit digits =>
      obtain ⟨-, rfl⟩ := List.cons.inj whole
      exact behind _ (reads_unicodeEscape_unit digits rest)
  | pair first second isHigh isLow value =>
      obtain ⟨-, rfl⟩ := List.cons.inj whole
      simp only [List.append_eq, List.cons_append, List.append_assoc]
      exact behind _ (reads_unicodeEscape_pair first second isHigh isLow value rest)

/-! ## Strings -/

theorem reads_stringBody_escape {t more s rest : Text} {c : Char}
    (first : Reads escapedChar t c more) (others : Reads stringBody more s rest) :
    Reads stringBody ('\\' :: t) (c :: s) rest := by
  obtain ⟨step, eq, value, rfl⟩ := first.exists_step
  obtain ⟨step', eq', value', after'⟩ := others.exists_step
  rw [Reads, outcome, stringBody, if_neg (by decide), if_pos rfl]
  split
  · next fault found =>
    rw [eq] at found
    cases found
  · next character found =>
    obtain rfl : step = character := by simpa [eq] using found
    simp only [eq', Except.map, Step.map, Step.widen, value, value', after']

/-- Behind its opening quote a string is read to its closing quote as what it says. -/
theorem reads_stringBody {s body : Text} (h : CharsText s body) (rest : Text) :
    Reads stringBody (body ++ '"' :: rest) s rest := by
  induction h with
  | nil =>
      rw [List.nil_append, Reads, outcome, stringBody, if_pos rfl]
      rfl
  | @cons c s t u first others ih =>
      have escaped : ∀ v : Text, t = '\\' :: v →
          Reads stringBody (t ++ u ++ '"' :: rest) (c :: s) rest := by
        rintro v rfl
        rw [List.append_assoc]
        exact reads_stringBody_escape (reads_escapedChar first _) ih
      cases first with
      | raw plain =>
          obtain ⟨step, eq, value, after⟩ := ih.exists_step
          obtain ⟨noQuote, noSlash, printed⟩ := plain
          simp only [List.cons_append, List.nil_append]
          rw [Reads, outcome, stringBody, if_neg noQuote, if_neg noSlash,
            if_neg (Nat.not_lt.2 printed), eq]
          simp only [Except.map, Step.map, Step.widen, value, after]
      | short known => exact escaped _ rfl
      | unit digits => exact escaped _ rfl
      | pair one two isHigh isLow value => exact escaped _ rfl

/-! ## Strings that are skipped -/

theorem reads_skipString {body : Text} (h : LooseChars body) (rest : Text) :
    Reads skipString (body ++ '"' :: rest) () rest := by
  induction h with
  | nil =>
      rw [List.nil_append, Reads, outcome, skipString.eq_def]
      rfl
  | raw plain others ih =>
      obtain ⟨step, eq, value, after⟩ := ih.exists_step
      obtain ⟨noQuote, noSlash, printed⟩ := plain
      rw [List.cons_append, Reads, outcome, skipString.eq_def]
      simp only [if_neg noQuote, if_neg noSlash, if_neg (Nat.not_lt.2 printed), eq, Except.map,
        Step.widen, after]
  | short known others ih =>
      obtain ⟨step, eq, value, after⟩ := ih.exists_step
      rw [List.cons_append, List.cons_append, Reads, outcome, skipString, if_neg (by decide),
        if_pos rfl]
      simp only [simpleEscape?_of_mem known, Option.isSome_some, if_true, eq, Except.map, Step.widen,
        after]
  | @unit code t u digits others ih =>
      obtain ⟨step, eq, value, after⟩ := (reads_hex4 digits (u ++ '"' :: rest)).exists_step
      rw [← after] at ih
      obtain ⟨step', eq', value', after'⟩ := ih.exists_step
      simp only [List.cons_append, List.append_assoc]
      rw [Reads, outcome, skipString, if_neg (by decide), if_pos rfl]
      simp only [show simpleEscape? 'u' = none from rfl, Option.isSome_none, Bool.false_eq_true,
        if_false, if_true]
      split
      · next fault found =>
        rw [eq] at found
        cases found
      · next code found =>
        obtain rfl : step = code := by simpa [eq] using found
        simp only [eq', Except.map, Step.widen, after']

/-! ## Numbers -/

theorem splitDigits_append {ds rest : Text} (digits : ∀ c ∈ ds, c.isDigit = true)
    (behind : ∀ c, rest.head? = some c → c.isDigit = false) :
    splitDigits (ds ++ rest) = (ds, rest) := by
  rw [splitDigits, List.takeWhile_append_of_pos digits, List.dropWhile_append_of_pos digits]
  cases rest with
  | nil => simp
  | cons c rest => simp [behind c rfl]

theorem dropWhile_digits {ds rest : Text} (digits : ∀ c ∈ ds, c.isDigit = true)
    (behind : ∀ c, rest.head? = some c → c.isDigit = false) :
    (ds ++ rest).dropWhile Char.isDigit = rest := congrArg Prod.snd (splitDigits_append digits behind)

theorem skipExponent_append {exponent rest : Text} (h : ExponentText exponent)
    (delimited : Delimited rest) : skipExponent (exponent ++ rest) = .ok rest := by
  rcases h with rfl | ⟨e, sign, ds, letter, signs, ⟨ne, digits⟩, rfl⟩
  · cases rest with
    | nil => rfl
    | cons c rest =>
        obtain ⟨-, -, noE, noE'⟩ := delimited.not_numeral rfl
        simp [skipExponent, noE, noE']
  · cases ds with
    | nil => exact absurd rfl ne
    | cons d ds =>
        have digit : d.isDigit = true := digits d List.mem_cons_self
        have others := dropWhile_digits (fun c mem => digits c (List.mem_cons_of_mem d mem))
          fun c head => (delimited.not_numeral head).1
        have noPlus : d ≠ '+' := fun eq => by subst eq; cases digit
        have noMinus : d ≠ '-' := fun eq => by subst eq; cases digit
        rcases signs with rfl | rfl | rfl
        · simp [skipExponent, letter, digit, others, noPlus, noMinus]
        all_goals simp [skipExponent, letter, digit, others]

theorem skipFraction_append {fraction exponent rest : Text} (h : FractionText fraction)
    (power : ExponentText exponent) (delimited : Delimited rest) :
    skipFraction (fraction ++ (exponent ++ rest)) = .ok rest := by
  have behind : ∀ c, (exponent ++ rest).head? = some c → c.isDigit = false ∧ c ≠ '.' := by
    intro c head
    rcases power with rfl | ⟨e, sign, ds, rfl | rfl, -, -, rfl⟩
    · exact ⟨(delimited.not_numeral head).1, (delimited.not_numeral head).2.1⟩
    all_goals
      obtain rfl := Option.some.inj head
      decide
  rcases h with rfl | ⟨ds, ⟨ne, digits⟩, rfl⟩
  · rw [List.nil_append, skipFraction]
    · exact skipExponent_append power delimited
    · rintro d after eq
      exact (behind '.' (by rw [eq]; rfl)).2 rfl
    · rintro eq
      exact (behind '.' (by rw [eq]; rfl)).2 rfl
  · cases ds with
    | nil => exact absurd rfl ne
    | cons d ds =>
        have digit : d.isDigit = true := digits d List.mem_cons_self
        have others := dropWhile_digits (fun c mem => digits c (List.mem_cons_of_mem d mem))
          fun c head => (behind c head).1
        simp only [List.cons_append, skipFraction, digit, if_true, others]
        exact skipExponent_append power delimited

/-- A skipped number is skipped to its end, behind its sign. -/
theorem skipNumber_append {whole fraction exponent rest : Text} (h : WholeText whole)
    (places : FractionText fraction) (power : ExponentText exponent) (delimited : Delimited rest) :
    skipNumber (whole ++ (fraction ++ (exponent ++ rest))) = .ok rest := by
  have skipped := skipFraction_append places power delimited
  have behind : ∀ c, (fraction ++ (exponent ++ rest)).head? = some c → c.isDigit = false := by
    intro c head
    rcases places with rfl | ⟨ds, -, rfl⟩
    · rcases power with rfl | ⟨e, sign, ds, rfl | rfl, -, -, rfl⟩
      · exact (delimited.not_numeral head).1
      all_goals
        obtain rfl := Option.some.inj head
        decide
    · obtain rfl := Option.some.inj head
      decide
  obtain ⟨⟨ne, digits⟩, zero⟩ := h
  cases whole with
  | nil => exact absurd rfl ne
  | cons d ds =>
      have digit : d.isDigit = true := digits d List.mem_cons_self
      have others := dropWhile_digits (fun c mem => digits c (List.mem_cons_of_mem d mem)) behind
      by_cases isZero : d = '0'
      · subst isZero
        obtain rfl : ds = [] := by simpa using zero rfl
        simp only [List.cons_append, List.nil_append, skipNumber]
        cases following : fraction ++ (exponent ++ rest) with
        | nil =>
            rw [following] at skipped
            exact skipped
        | cons c after =>
            rw [following] at skipped behind
            simp only [behind c rfl, Bool.false_eq_true, if_false]
            exact skipped
      · simp only [List.cons_append, skipNumber, digit, if_true, others]
        exact skipped

/-! ## Natural numbers -/

theorem digits_toDigits (n : Nat) : Digits (Nat.toDigits 10 n) :=
  ⟨Nat.toDigits_ne_nil, fun _ mem => Nat.isDigit_of_mem_toDigits (by decide) (by decide) mem⟩

theorem digitsValue_toDigits (n : Nat) : digitsValue (Nat.toDigits 10 n) = n :=
  Nat.ofDigitChars_toDigits (by decide) (by decide)

/-- The decimal digits of a natural number start with a zero only for zero itself. -/
theorem wholeText_toDigits (n : Nat) : WholeText (Nat.toDigits 10 n) := by
  refine ⟨digits_toDigits n, ?_⟩
  induction n using Nat.strongRecOn with
  | _ n ih =>
    by_cases small : n < 10
    · rw [Nat.toDigits_of_lt_base small]
      intro head
      rw [Option.some.inj head]
    · intro head
      have more : Nat.toDigits 10 n = Nat.toDigits 10 (n / 10) ++ [(n % 10).digitChar] :=
        Nat.toDigits_of_base_le (by decide) (by omega)
      have first : (Nat.toDigits 10 (n / 10)).head? = some '0' := by
        cases eq : Nat.toDigits 10 (n / 10) with
        | nil => exact absurd eq Nat.toDigits_ne_nil
        | cons d ds => rwa [more, eq] at head
      have zero := congrArg digitsValue (ih (n / 10) (by omega) first)
      rw [digitsValue_toDigits] at zero
      have none : digitsValue ['0'] = 0 := by decide
      omega

theorem le_ofDigitChars (ds : Text) (value : Nat) : value ≤ Nat.ofDigitChars 10 ds value := by
  induction ds generalizing value with
  | nil => exact Nat.le_refl _
  | cons d ds ih =>
      rw [Nat.ofDigitChars_cons]
      exact Nat.le_trans (by omega) (ih _)

/-- Digits whose value fits 64 bits are all read. -/
theorem appendDigits_of_le {ds : Text} {value : Nat}
    (fits : Nat.ofDigitChars 10 ds value ≤ maxWord) :
    appendDigits value ds = (Nat.ofDigitChars 10 ds value, 0) := by
  induction ds generalizing value with
  | nil => rfl
  | cons d ds ih =>
      rw [Nat.ofDigitChars_cons, Nat.mul_comm 10 value] at fits ⊢
      have within := Nat.le_trans (le_ofDigitChars ds _) fits
      rw [appendDigits, if_neg (Nat.not_lt.2 within), ih fits]

/-- A natural number that fits 64 bits is read as itself from its decimal digits. -/
theorem number_toDigits {n : Nat} (fits : n ≤ maxWord) {rest : Text} (delimited : Delimited rest) :
    number (Nat.toDigits 10 n ++ rest) = .ok (.integer n, rest) := by
  obtain ⟨⟨ne, digits⟩, zero⟩ := wholeText_toDigits n
  have value := digitsValue_toDigits n
  have split := splitDigits_append digits fun c head => (delimited.not_numeral head).1
  have behind : ∀ p : Parts, withFraction p rest = .ok (p, rest) := by
    intro p
    cases rest with
    | nil => rfl
    | cons c rest =>
        obtain ⟨-, noPoint, noE, noE'⟩ := delimited.not_numeral rfl
        simp [withFraction, withExponent, noPoint, noE, noE']
  generalize Nat.toDigits 10 n = ds at *
  cases ds with
  | nil => exact absurd rfl ne
  | cons d ds =>
      have digit : d.isDigit = true := digits d List.mem_cons_self
      have noMinus : d ≠ '-' := fun eq => by subst eq; cases digit
      have unsigned : splitMinus (d :: ds ++ rest) = (false, d :: ds ++ rest) := by
        simp [splitMinus, noMinus]
      have all : appendDigits 0 (d :: ds) = (n, 0) := by
        have le : Nat.ofDigitChars 10 (d :: ds) 0 ≤ maxWord := by
          rw [digitsValue] at value
          rwa [value]
        rw [appendDigits_of_le le]
        exact congrArg (·, 0) value
      have read : parts (d :: ds ++ rest) = .ok (⟨n, 0, true⟩, rest) := by
        simp only [parts, split]
        split
        · next eq => cases eq
        · next eq =>
          obtain ⟨rfl, rfl⟩ := List.cons.inj eq
          exact absurd (zero rfl) (by simp)
        · simp only [all, behind]
          rfl
      simp only [number, unsigned, read, bind, Except.bind]
      rfl

end Wikidown.Json
