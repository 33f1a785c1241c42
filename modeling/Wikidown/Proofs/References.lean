/-
# Wikidown.Proofs.References -- what references stand for, and texts written with them

`Refers name c` says, digit by digit, that the characters between `&` and `;` stand for
`c`; a `reference?` that is `Refers` and at most eleven bytes long is read as that
character (`reference?_append`), and nothing else is read (`reference?_eq_some_iff`).

`Escaped mark content written` says that `written` spells `content`: each character
stands for itself or as a reference, and `&` and `mark` stand as references only.
Decoding gives the content back (`decode_of_escaped`), and the written text is free of
the mark (`mark_notMem_of_escaped`), so that it can stand between two marks.
-/
import Wikidown.Markup.Reference
import Mathlib.Data.List.Induction

namespace Wikidown.Markup

set_option autoImplicit false

/-! ## Numbers -/

/-- The digits with their values; a letter counts in either case. -/
def digits : List (Char × Nat) :=
  "0123456789abcdef".toList.zipIdx ++ "0123456789ABCDEF".toList.zipIdx

/-- A number in a base: at least one digit, the last one worth the least. -/
inductive Numeral (base : Nat) : Text → Nat → Prop where
  | digit {c : Char} {d : Nat} (known : (c, d) ∈ digits) (small : d < base) : Numeral base [c] d
  | append {t : Text} {n : Nat} {c : Char} {d : Nat} (front : Numeral base t n)
      (known : (c, d) ∈ digits) (small : d < base) : Numeral base (t ++ [c]) (n * base + d)

/-- The two bases that references are written in. -/
def IsBase (base : Nat) : Prop := base = 10 ∨ base = 16

theorem digitValue?_of_mem {base d : Nat} {c : Char} (isBase : IsBase base)
    (known : (c, d) ∈ digits) (small : d < base) : digitValue? base c = some d := by
  have decimal : ∀ p ∈ digits, p.2 < 10 → digitValue? 10 p.1 = some p.2 := by decide
  have hexadecimal : ∀ p ∈ digits, p.2 < 16 → digitValue? 16 p.1 = some p.2 := by decide
  rcases isBase with rfl | rfl
  · exact decimal (c, d) known small
  · exact hexadecimal (c, d) known small

theorem digitsFrom?_append (base value : Nat) (a t : Text) :
    digitsFrom? base value (a ++ t) =
      (digitsFrom? base value a).bind fun v => digitsFrom? base v t := by
  induction a generalizing value with
  | nil => rfl
  | cons c a ih =>
      simp only [List.cons_append, digitsFrom?]
      cases digitValue? base c with
      | none => rfl
      | some d => exact ih _

namespace Numeral

variable {base n : Nat} {t : Text}

theorem digitsFrom?_eq (isBase : IsBase base) (h : Numeral base t n) :
    digitsFrom? base 0 t = some n := by
  induction h with
  | digit known small => simp [digitsFrom?, digitValue?_of_mem isBase known small]
  | append front known small ih =>
      simp [digitsFrom?_append, ih, digitsFrom?, digitValue?_of_mem isBase known small]

theorem ne_nil (h : Numeral base t n) : t ≠ [] := by
  cases h <;> simp

/-- No digit is a sign, or one of the letters that announce a hexadecimal number. -/
theorem isAlphanum_of_mem (h : Numeral base t n) :
    ∀ c ∈ t, c.isAlphanum = true ∧ c ≠ 'x' ∧ c ≠ 'X' := by
  have digit : ∀ p ∈ digits, p.1.isAlphanum = true ∧ p.1 ≠ 'x' ∧ p.1 ≠ 'X' := by decide
  induction h with
  | digit known small => simpa using digit _ known
  | append front known small ih =>
      intro c mem
      rcases List.mem_append.1 mem with mem | mem
      · exact ih c mem
      · rw [List.mem_singleton.1 mem]
        exact digit _ known

end Numeral

/-- A number with at most one plus sign before it. -/
inductive Signed (base : Nat) : Text → Nat → Prop where
  | plain {t : Text} {n : Nat} (h : Numeral base t n) : Signed base t n
  | plus {t : Text} {n : Nat} (h : Numeral base t n) : Signed base ('+' :: t) n

namespace Signed

variable {base n : Nat} {t : Text}

theorem number?_eq (isBase : IsBase base) (h : Signed base t n) : number? base t = some n := by
  cases h with
  | plus h => simp [number?, h.ne_nil, h.digitsFrom?_eq isBase]
  | plain h =>
      cases t with
      | nil => exact absurd rfl h.ne_nil
      | cons c t =>
          have unsigned : c ≠ '+' := by
            rintro rfl
            exact absurd (h.isAlphanum_of_mem '+' List.mem_cons_self).1 (by decide)
          have value := h.digitsFrom?_eq isBase
          unfold number?
          split
          · next rest eq => exact absurd (List.cons.inj eq).1 unsigned
          · simpa using value

/-- A number announces no hexadecimal number. -/
theorem head_ne (h : Signed base t n) : ∃ c rest, t = c :: rest ∧ c ≠ 'x' ∧ c ≠ 'X' := by
  cases h with
  | plus h => exact ⟨'+', _, rfl, by decide, by decide⟩
  | plain h =>
      cases t with
      | nil => exact absurd rfl h.ne_nil
      | cons c t => exact ⟨c, t, rfl, (h.isAlphanum_of_mem c List.mem_cons_self).2⟩

end Signed

/-! ## References -/

/-- The characters that stand between the `&` and the `;` of a reference: a name, or the
number of the character in base ten or sixteen. -/
inductive Refers : Text → Char → Prop where
  | named {name : Text} {c : Char} (known : (name, c) ∈ namedCharacters) : Refers name c
  | decimal {t : Text} {c : Char} (number : Signed 10 t c.toNat) : Refers ('#' :: t) c
  | hexadecimal {t : Text} {c x : Char} (announced : x = 'x' ∨ x = 'X')
      (number : Signed 16 t c.toNat) : Refers ('#' :: x :: t) c

/-- A valid reference: what stands between `&` and `;` is at most eleven bytes long. -/
def IsReference (name : Text) (c : Char) : Prop := Refers name c ∧ Text.byteLength name ≤ 11

theorem character?_toNat (c : Char) : character? c.toNat = some c := by
  have valid : c.toNat.isValidChar := c.valid
  rw [character?, dif_pos valid]
  rfl

theorem referenced?_of_refers {name : Text} {c : Char} (h : Refers name c) :
    referenced? name = some c := by
  cases h with
  | named known =>
      have listed : ∀ p ∈ namedCharacters, referenced? p.1 = some p.2 := by decide
      exact listed (name, c) known
  | decimal number =>
      obtain ⟨d, rest, rfl, lower, upper⟩ := number.head_ne
      have value := number.number?_eq (.inl rfl)
      unfold referenced?
      split
      · next eq => exact absurd (List.cons.inj (List.cons.inj eq).2).1 lower
      · next eq => exact absurd (List.cons.inj (List.cons.inj eq).2).1 upper
      · next digits _ _ eq =>
        rw [← (List.cons.inj eq).2, value]
        exact character?_toNat c
      · next other => exact absurd rfl (other _)
  | hexadecimal announced number =>
      have value := number.number?_eq (.inr rfl)
      rcases announced with rfl | rfl <;> simp [referenced?, value, character?_toNat]

/-- A reference is written in letters, digits and two marks. -/
theorem plain_of_refers {name : Text} {c : Char} (h : Refers name c) :
    ∀ x ∈ name, x.isAlphanum = true ∨ x = '#' ∨ x = '+' := by
  have signed : ∀ {base n : Nat} {t : Text}, Signed base t n →
      ∀ x ∈ t, x.isAlphanum = true ∨ x = '#' ∨ x = '+' := by
    intro base n t number x mem
    cases number with
    | plain h => exact .inl (h.isAlphanum_of_mem x mem).1
    | plus h =>
        rcases List.mem_cons.1 mem with rfl | mem
        · exact .inr (.inr rfl)
        · exact .inl (h.isAlphanum_of_mem x mem).1
  cases h with
  | named known =>
      have listed : ∀ p ∈ namedCharacters, p.1.all Char.isAlphanum = true := by decide
      intro x mem
      exact .inl (List.all_eq_true.1 (listed (name, c) known) x mem)
  | decimal number =>
      intro x mem
      rcases List.mem_cons.1 mem with rfl | mem
      · exact .inr (.inl rfl)
      · exact signed number x mem
  | hexadecimal announced number =>
      intro x mem
      rcases List.mem_cons.1 mem with rfl | mem
      · exact .inr (.inl rfl)
      · rcases List.mem_cons.1 mem with rfl | mem
        · rcases announced with rfl | rfl <;> exact .inl (by decide)
        · exact signed number x mem

theorem length_le_byteLength (t : Text) : t.length ≤ Text.byteLength t := by
  induction t with
  | nil => exact Nat.le_refl 0
  | cons c t ih =>
      have := c.utf8Size_pos
      simp only [List.length_cons, Text.byteLength]
      omega

/-- A valid reference is read as its character, whatever stands behind it. -/
theorem reference?_append {name : Text} {c : Char} (h : IsReference name c) (rest : Text) :
    reference? (name ++ ';' :: rest) = some (c, rest) := by
  obtain ⟨refers, short⟩ := h
  have fits : name.length ≤ 11 := Nat.le_trans (length_le_byteLength name) short
  have unclosed : ∀ x ∈ name, (x != ';') = true := by
    intro x mem
    rw [bne_iff_ne]
    rintro rfl
    exact absurd (plain_of_refers refers ';' mem) (by decide)
  have window : ((name ++ ';' :: rest).take 12).takeWhile (· != ';') = name := by
    obtain ⟨k, room⟩ : ∃ k, 12 - name.length = k + 1 := ⟨11 - name.length, by omega⟩
    rw [List.take_append, List.take_of_length_le (by omega), room, List.take_succ_cons,
      List.takeWhile_append_of_pos unclosed]
    simp
  simp [reference?, window, short, referenced?_of_refers refers]

/-! ## What is read is a reference -/

/-- A decimal digit is one in base sixteen too. -/
theorem digitValue?_sixteen {base d : Nat} {c : Char} (isBase : IsBase base)
    (h : digitValue? base c = some d) : digitValue? 16 c = some d := by
  rcases isBase with rfl | rfl
  · simp only [digitValue?] at h ⊢
    split at h <;> grind
  · exact h

/-- A digit is an ASCII character. -/
theorem toNat_lt_of_digitValue? {base d : Nat} {c : Char} (h : digitValue? base c = some d) :
    c.toNat < 128 := by
  have below : ∀ e : Char, c ≤ e → c.toNat ≤ e.toNat := fun e le => le
  unfold digitValue? at h
  grind

theorem mem_digits_of_digitValue? {base d : Nat} {c : Char} (isBase : IsBase base)
    (h : digitValue? base c = some d) : (c, d) ∈ digits ∧ d < base := by
  have known : ∀ n < 128, ∀ v ∈ digitValue? 16 (Char.ofNat n), (Char.ofNat n, v) ∈ digits := by
    decide
  refine ⟨?_, ?_⟩
  · have mem := known c.toNat (toNat_lt_of_digitValue? h) d
    rw [Char.ofNat_toNat] at mem
    exact mem (digitValue?_sixteen isBase h)
  · unfold digitValue? at h
    grind

theorem numeral_of_digitsFrom? {base n : Nat} {t : Text} (isBase : IsBase base) (ne : t ≠ [])
    (h : digitsFrom? base 0 t = some n) : Numeral base t n := by
  induction t using List.reverseRecOn generalizing n with
  | nil => exact absurd rfl ne
  | append_singleton front c ih =>
      simp only [digitsFrom?_append, digitsFrom?, Option.bind_eq_some_iff, Option.some.injEq] at h
      obtain ⟨v, first, d, last, rfl⟩ := h
      obtain ⟨known, small⟩ := mem_digits_of_digitValue? isBase last
      by_cases empty : front = []
      · subst empty
        obtain rfl : v = 0 := by simpa [digitsFrom?] using first.symm
        simpa using Numeral.digit known small
      · exact .append (ih empty first) known small

theorem signed_of_number? {base n : Nat} {t : Text} (isBase : IsBase base)
    (h : number? base t = some n) : Signed base t n := by
  unfold number? at h
  split at h <;> simp only [Option.ite_none_left_eq_some, List.isEmpty_iff] at h
  · exact .plus (numeral_of_digitsFrom? isBase h.1 h.2)
  · exact .plain (numeral_of_digitsFrom? isBase h.1 h.2)

theorem toNat_of_character? {n : Nat} {c : Char} (h : character? n = some c) : c.toNat = n := by
  rw [character?, Option.dite_none_right_eq_some] at h
  obtain ⟨valid, eq⟩ := h
  rw [← Option.some.inj eq]
  rfl

theorem refers_of_referenced? {name : Text} {c : Char} (h : referenced? name = some c) :
    Refers name c := by
  have numbered : ∀ {base : Nat} {t : Text}, IsBase base →
      (number? base t).bind character? = some c → Signed base t c.toNat := by
    intro base t isBase read
    obtain ⟨n, number, character⟩ := Option.bind_eq_some_iff.1 read
    rw [toNat_of_character? character]
    exact signed_of_number? isBase number
  unfold referenced? at h
  split at h
  · exact .hexadecimal (.inl rfl) (numbered (.inr rfl) h)
  · exact .hexadecimal (.inr rfl) (numbered (.inr rfl) h)
  · exact .decimal (numbered (.inl rfl) h)
  · obtain ⟨before, after, eq, -⟩ := List.lookup_eq_some_iff.1 h
    exact .named (by rw [eq]; simp)

/-- What is read behind an ampersand is a valid reference. -/
theorem reference?_eq_some_iff {t rest : Text} {c : Char} :
    reference? t = some (c, rest) ↔ ∃ name, IsReference name c ∧ t = name ++ ';' :: rest := by
  constructor
  · intro h
    simp only [reference?] at h
    generalize window : (t.take 12).takeWhile (· != ';') = name at h
    split at h
    · next after eq =>
      split at h
      · next short =>
        obtain ⟨d, read, eq'⟩ := Option.map_eq_some_iff.1 h
        obtain ⟨rfl, rfl⟩ := Prod.mk.inj eq'
        have front : name <+: t :=
          window ▸ (List.takeWhile_prefix _).trans (List.take_prefix 12 t)
        refine ⟨name, ⟨refers_of_referenced? read, short⟩, ?_⟩
        rw [← eq, List.prefix_iff_eq_append.1 front]
      · cases h
    · cases h
  · rintro ⟨name, valid, rfl⟩
    exact reference?_append valid rest

/-! ## Texts with references in them -/

/-- `written` spells `content`, each character as itself or as a reference, but `&` and
`mark` as references only. -/
inductive Escaped (mark : Char) : (content written : Text) → Prop where
  | nil : Escaped mark [] []
  | literal {c : Char} {content written : Text} (bare : c ≠ '&') (unmarked : c ≠ mark)
      (behind : Escaped mark content written) : Escaped mark (c :: content) (c :: written)
  | reference {c : Char} {name content written : Text} (valid : IsReference name c)
      (behind : Escaped mark content written) :
      Escaped mark (c :: content) ('&' :: (name ++ ';' :: written))

/-- A text without `&` and `mark` spells itself. -/
theorem escaped_self {mark : Char} {t : Text} (plain : ∀ c ∈ t, c ≠ '&' ∧ c ≠ mark) :
    Escaped mark t t := by
  induction t with
  | nil => exact .nil
  | cons c t ih =>
      obtain ⟨bare, unmarked⟩ := plain c List.mem_cons_self
      exact .literal bare unmarked (ih fun d mem => plain d (List.mem_cons_of_mem _ mem))

theorem decode_nil : decode [] = [] := by
  rw [decode]

theorem decode_cons_of_ne {c : Char} (bare : c ≠ '&') (t : Text) :
    decode (c :: t) = c :: decode t := by
  rw [decode, if_neg bare]

theorem decode_reference {t rest : Text} {c : Char} (h : reference? t = some (c, rest)) :
    decode ('&' :: t) = c :: decode rest := by
  rw [decode, if_pos rfl]
  split
  · next character after eq =>
    obtain ⟨rfl, rfl⟩ := Prod.mk.inj (Option.some.inj (h.symm.trans eq))
    rfl
  · next eq => exact absurd (h.symm.trans eq) (by simp)

theorem decode_ampersand {t : Text} (h : reference? t = none) :
    decode ('&' :: t) = '&' :: decode t := by
  rw [decode, if_pos rfl]
  split
  · next eq => exact absurd (h.symm.trans eq) (by simp)
  · rfl

/-- Decoding undoes the spelling. -/
theorem decode_of_escaped {mark : Char} {content written : Text}
    (h : Escaped mark content written) : decode written = content := by
  induction h with
  | nil => exact decode_nil
  | literal bare _ _ ih => rw [decode_cons_of_ne bare, ih]
  | reference valid _ ih => rw [decode_reference (reference?_append valid _), ih]

/-- A mark that is in no reference is not in the spelling either. -/
theorem mark_notMem_of_escaped {mark : Char} (ampersand : mark ≠ '&') (semicolon : mark ≠ ';')
    (outside : ¬ (mark.isAlphanum = true ∨ mark = '#' ∨ mark = '+')) {content written : Text}
    (h : Escaped mark content written) : mark ∉ written := by
  induction h with
  | nil => simp
  | literal _ unmarked _ ih =>
      rw [List.mem_cons]
      rintro (rfl | mem)
      · exact unmarked rfl
      · exact ih mem
  | reference valid _ ih =>
      rw [List.mem_cons, List.mem_append, List.mem_cons]
      rintro (eq | mem | eq | mem)
      · exact ampersand eq
      · exact outside (plain_of_refers valid.1 mark mem)
      · exact semicolon eq
      · exact ih mem

end Wikidown.Markup
