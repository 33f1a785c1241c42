/-
# Wikidown.Proofs.JsonUnique -- a JSON text says one thing

Two values that start one text, each with a delimiter or nothing behind it, are the same
value written the same way (`Spells.unique`): the first character tells the kind of a value,
a string ends at its first bare quote, a number where no character of a number follows, and
lists and records one item after the other (`Separated.unique`).  So a text says at most one
datum (`JsonText.unique`).
-/
import Wikidown.Proofs.JsonWords

namespace Wikidown.Json

set_option autoImplicit false

/-! ## Strings and numbers -/

/-- A string at the start of a text ends where it ends for every reading of it. -/
theorem StringText.unique {s s' t t' r r' : Text} (h : StringText s t) (h' : StringText s' t')
    (same : t ++ r = t' ++ r') : s = s' ∧ r = r' := by
  obtain ⟨body, chars, rfl⟩ := h
  obtain ⟨body', chars', rfl⟩ := h'
  have bodies : body ++ '"' :: r = body' ++ '"' :: r' := by simpa using same
  have read : Reads stringBody (body' ++ '"' :: r') s r := bodies ▸ reads_stringBody chars r
  have found := read.symm.trans (reads_stringBody chars' r')
  exact Prod.mk.inj (Except.ok.inj found)

/-- A character of a number. -/
def isNumeral (c : Char) : Bool :=
  c.isDigit || c == '.' || c == 'e' || c == 'E' || c == '+' || c == '-'

theorem isNumeral_of_isDigit {c : Char} (digit : c.isDigit = true) : isNumeral c = true := by
  simp [isNumeral, digit]

theorem NumberText.isNumeral {t : Text} (h : NumberText t) : ∀ c ∈ t, isNumeral c = true := by
  obtain ⟨sign, whole, fraction, exponent, signs, ⟨⟨-, digits⟩, -⟩, places, power, rfl⟩ := h
  intro c mem
  simp only [List.mem_append] at mem
  rcases mem with ((inSign | inWhole) | inFraction) | inExponent
  · rcases signs with rfl | rfl
    · cases inSign
    · obtain rfl := List.mem_singleton.1 inSign
      rfl
  · exact isNumeral_of_isDigit (digits c inWhole)
  · rcases places with rfl | ⟨ds, ⟨-, digits⟩, rfl⟩
    · cases inFraction
    · rcases List.mem_cons.1 inFraction with rfl | mem
      · rfl
      · exact isNumeral_of_isDigit (digits c mem)
  · rcases power with rfl | ⟨e, sign, ds, letter, signs, ⟨-, digits⟩, rfl⟩
    · cases inExponent
    · rcases List.mem_cons.1 inExponent with rfl | mem
      · rcases letter with rfl | rfl <;> rfl
      · rcases List.mem_append.1 mem with inSign | mem
        · rcases signs with rfl | rfl | rfl
          · cases inSign
          all_goals
            obtain rfl := List.mem_singleton.1 inSign
            rfl
        · exact isNumeral_of_isDigit (digits c mem)

theorem Delimited.not_isNumeral {r : Text} (h : Delimited r) {c : Char} (head : r.head? = some c) :
    isNumeral c = false := by
  rcases h c head with gap | rfl | rfl | rfl
  · simp only [isGap, Bool.or_eq_true, beq_iff_eq] at gap
    rcases gap with ((rfl | rfl) | rfl) | rfl <;> rfl
  all_goals rfl

/-- A number at the start of a text ends where no number goes on. -/
theorem NumberText.unique {t t' r r' : Text} (h : NumberText t) (h' : NumberText t')
    (behind : Delimited r) (behind' : Delimited r') (same : t ++ r = t' ++ r') : t = t' := by
  have cut : ∀ {t r : Text}, NumberText t → Delimited r →
      (t ++ r).takeWhile Json.isNumeral = t := by
    intro t r number delimited
    rw [List.takeWhile_append_of_pos number.isNumeral]
    cases r with
    | nil => simp
    | cons c r => simp [delimited.not_isNumeral rfl]
  rw [← cut h behind, same, cut h' behind']

/-! ## Lists and records -/

/-- Two ways to read the white space before a text agree on the text. -/
theorem eq_of_gaps {g g' t t' : Text} (gap : Gap g) (gap' : Gap g') (shown : Shown t)
    (shown' : Shown t') (same : g ++ t = g' ++ t') : t = t' := by
  rw [← dropGap_append gap shown, same, dropGap_append gap' shown']

/-- A comma or a closing bracket. -/
def IsStop (c : Char) : Prop := c = ',' ∨ c = ']' ∨ c = '}'

theorem IsStop.delimited {c : Char} (h : IsStop c) (r : Text) : Delimited (c :: r) := by
  rcases h with rfl | rfl | rfl
  · exact delimited_comma r
  · exact delimited_bracket r
  · exact delimited_brace r

theorem IsStop.shown {c : Char} (h : IsStop c) (r : Text) : Shown (c :: r) := by
  rcases h with rfl | rfl | rfl <;> exact shown_cons rfl r

/-- An item of two readings of a text, up to the comma or the closing bracket behind it, is the
same if it is one item by itself. -/
theorem item_unique {t t' a a' b b' r r' : Text} {c c' : Char} (word : Opens t) (word' : Opens t')
    (apart : ∀ r r', Delimited r → Delimited r' → t ++ r = t' ++ r' → t = t') (before : Gap a)
    (before' : Gap a') (after : Gap b) (after' : Gap b') (stop : IsStop c) (stop' : IsStop c')
    (same : a ++ t ++ b ++ c :: r = a' ++ t' ++ b' ++ c' :: r') : t = t' ∧ c = c' ∧ r = r' := by
  simp only [List.append_assoc] at same
  have texts := eq_of_gaps before before' (word.shown _) (word'.shown _) same
  obtain rfl := apart _ _ (.of_gap after (stop.delimited r)) (.of_gap after' (stop'.delimited r'))
    texts
  have behind := eq_of_gaps after after' (stop.shown r) (stop'.shown r')
    (List.append_cancel_left texts)
  exact ⟨rfl, List.cons.inj behind⟩

/-- Items that are told apart from each other at the start of a text. -/
def Apart (ts ts' : List Text) : Prop :=
  ∀ t ∈ ts, ∀ t' ∈ ts', ∀ r r', Delimited r → Delimited r' → t ++ r = t' ++ r' → t = t'

/-- Items up to a closing bracket are the same for every reading of them. -/
theorem Separated.unique {ts ts' : List Text} {u u' r r' : Text} {c : Char} (h : Separated ts u)
    (h' : Separated ts' u') (stop : IsStop c) (closing : c ≠ ',') (words : ∀ t ∈ ts, Opens t)
    (words' : ∀ t ∈ ts', Opens t) (apart : Apart ts ts') (same : u ++ c :: r = u' ++ c :: r') :
    ts = ts' ∧ r = r' := by
  have comma : IsStop ',' := .inl rfl
  -- the stop behind an item tells whether another one follows, in both readings alike
  induction h generalizing ts' u' with
  | @one t a b before after =>
      have word := words t List.mem_cons_self
      have cut := apart t List.mem_cons_self
      cases h' with
      | @one t' a' b' before' after' =>
          have word' := words' t' List.mem_cons_self
          obtain ⟨rfl, -, rfl⟩ := item_unique word word' (cut t' List.mem_cons_self) before before'
            after after' stop stop same
          exact ⟨rfl, rfl⟩
      | @more t' a' b' u' ts' before' after' others' =>
          have word' := words' t' List.mem_cons_self
          rw [List.append_assoc _ _ (c :: r'), List.cons_append] at same
          obtain ⟨-, rfl, -⟩ := item_unique word word' (cut t' List.mem_cons_self) before before'
            after after' stop comma same
          exact absurd rfl closing
  | @more t a b u ts before after others ih =>
      have word := words t List.mem_cons_self
      have cut := apart t List.mem_cons_self
      rw [List.append_assoc _ _ (c :: r), List.cons_append] at same
      cases h' with
      | @one t' a' b' before' after' =>
          have word' := words' t' List.mem_cons_self
          obtain ⟨-, rfl, -⟩ := item_unique word word' (cut t' List.mem_cons_self) before before'
            after after' comma stop same
          exact absurd rfl closing
      | @more t' a' b' u' ts' before' after' others' =>
          have word' := words' t' List.mem_cons_self
          rw [List.append_assoc _ _ (c :: r'), List.cons_append] at same
          obtain ⟨rfl, -, behind⟩ := item_unique word word' (cut t' List.mem_cons_self) before
            before' after after' comma comma same
          obtain ⟨rfl, rfl⟩ := ih others' (fun t mem => words t (List.mem_cons_of_mem _ mem))
            (fun t mem => words' t (List.mem_cons_of_mem _ mem))
            (fun t mem t' mem' => apart t (List.mem_cons_of_mem _ mem) t'
              (List.mem_cons_of_mem _ mem')) behind
          exact ⟨rfl, rfl⟩

/-- A list or a record at the start of a text has the same items for every reading of it. -/
theorem Enclosed.unique {opening c : Char} {ts ts' : List Text} {t t' r r' : Text}
    (h : Enclosed opening c ts t) (h' : Enclosed opening c ts' t') (stop : IsStop c)
    (closing : c ≠ ',') (words : ∀ t ∈ ts, Opens t) (words' : ∀ t ∈ ts', Opens t)
    (apart : Apart ts ts') (same : t ++ r = t' ++ r') : ts = ts' ∧ r = r' := by
  -- an item is no closing bracket
  have nonempty : ∀ {ts u g r r'}, Separated ts u → (∀ t ∈ ts, Opens t) → Gap g →
      g ++ c :: r ≠ u ++ c :: r' := by
    intro ts u g r r' separated words gap same
    obtain ⟨a, v, before, rfl, opens, -⟩ := separated.strip words
    rw [List.append_assoc] at same
    have eq := eq_of_gaps gap before (stop.shown r) (opens.shown _) same
    obtain ⟨d, more, rfl, -, apart⟩ := opens
    obtain ⟨rfl, -⟩ := List.cons.inj eq
    rcases stop with rfl | rfl | rfl <;> simp at apart
  cases h with
  | empty gap =>
      cases h' with
      | empty gap' =>
          simp only [List.cons_append, List.append_assoc, List.nil_append, List.cons.injEq] at same
          have eq := eq_of_gaps gap gap' (stop.shown r) (stop.shown r') same.2
          exact ⟨rfl, (List.cons.inj eq).2⟩
      | filled inside' =>
          simp only [List.cons_append, List.append_assoc, List.nil_append, List.cons.injEq] at same
          exact absurd same.2 (nonempty inside' words' gap)
  | filled inside =>
      cases h' with
      | empty gap' =>
          simp only [List.cons_append, List.append_assoc, List.nil_append, List.cons.injEq] at same
          exact absurd same.2.symm (nonempty inside words gap')
      | filled inside' =>
          simp only [List.cons_append, List.append_assoc, List.nil_append, List.cons.injEq] at same
          exact inside.unique inside' stop closing words words' apart same.2

/-! ## Values -/

/-- The kinds of values. -/
inductive Kind where
  | null
  | yes
  | no
  | number
  | string
  | list
  | record

/-- The kind of a value. -/
def Datum.kind {σ : Type} : Datum σ → Kind
  | null => .null
  | boolean true => .yes
  | boolean false => .no
  | number _ => .number
  | string _ => .string
  | list _ => .list
  | record _ => .record

/-- The kind of the values that start with a character. -/
def kindOf (c : Char) : Kind :=
  if c = 'n' then .null
  else if c = 't' then .yes
  else if c = 'f' then .no
  else if c = '"' then .string
  else if c = '[' then .list
  else if c = '{' then .record
  else .number

theorem kindOf_of_isNumeral {c : Char} (numeral : isNumeral c = true) : kindOf c = .number := by
  have apart : ∀ d, isNumeral d = false → c ≠ d := by
    rintro d other rfl
    rw [numeral] at other
    cases other
  simp only [kindOf, if_neg (apart 'n' rfl), if_neg (apart 't' rfl), if_neg (apart 'f' rfl),
    if_neg (apart '"' rfl), if_neg (apart '[' rfl), if_neg (apart '{' rfl)]

/-- The first character of a value tells its kind. -/
theorem Spells.kind_eq {d : Datum Text} {t : Text} (h : Spells StringText d t) :
    ∃ c more, t = c :: more ∧ d.kind = kindOf c := by
  cases h with
  | null | true | false => exact ⟨_, _, rfl, rfl⟩
  | number numeral =>
      obtain ⟨c, more, rfl, -⟩ := numeral.opens
      exact ⟨c, more, rfl, (kindOf_of_isNumeral (numeral.isNumeral c List.mem_cons_self)).symm⟩
  | string quoted =>
      obtain ⟨body, -, rfl⟩ := quoted
      exact ⟨_, _, rfl, rfl⟩
  | list _ _ enclosed =>
      obtain ⟨more, rfl⟩ := enclosed.exists_cons
      exact ⟨_, _, rfl, rfl⟩
  | record _ _ _ _ enclosed =>
      obtain ⟨more, rfl⟩ := enclosed.exists_cons
      exact ⟨_, _, rfl, rfl⟩

theorem Spells.kind_unique {d d' : Datum Text} {t t' r r' : Text} (h : Spells StringText d t)
    (h' : Spells StringText d' t') (same : t ++ r = t' ++ r') : d.kind = d'.kind := by
  obtain ⟨c, more, rfl, kind⟩ := h.kind_eq
  obtain ⟨c', more', rfl, kind'⟩ := h'.kind_eq
  rw [kind, kind', (List.cons.inj same).1]

/-- A value of two readings of a text is one value, written in one way. -/
def Unique (d d' : Datum Text) (t t' : Text) : Prop :=
  ∀ r r', Delimited r → Delimited r' → t ++ r = t' ++ r' → d = d' ∧ t = t'

theorem Entry.unique {e e' : Entry Text} (quoted : StringText e.key e.keyText)
    (quoted' : StringText e'.key e'.keyText) (gaps : Gap e.before ∧ Gap e.after)
    (gaps' : Gap e'.before ∧ Gap e'.after) (word : Opens e.valueText) (word' : Opens e'.valueText)
    (value : Unique e.value e'.value e.valueText e'.valueText) {r r' : Text} (behind : Delimited r)
    (behind' : Delimited r') (same : e.text ++ r = e'.text ++ r') :
    (e.key, e.value) = (e'.key, e'.value) ∧ e.text = e'.text := by
  have whole := same
  simp only [Entry.text, memberText, List.append_assoc, List.cons_append] at same
  obtain ⟨keys, same⟩ := quoted.unique quoted' same
  have colons := eq_of_gaps gaps.1 gaps'.1 (shown_cons rfl _) (shown_cons rfl _) same
  have values := eq_of_gaps gaps.2 gaps'.2 (word.shown r) (word'.shown r') (List.cons.inj colons).2
  obtain ⟨eq, texts⟩ := value r r' behind behind' values
  rw [texts] at values
  obtain rfl := List.append_cancel_left values
  exact ⟨by rw [keys, eq], List.append_cancel_right whole⟩

/-- Lists with the same texts say the same if each of their items does. -/
theorem map_eq_of_texts {ι α : Type} {meaning : ι → α} {text : ι → Text} {xs ys : List ι}
    (texts : xs.map text = ys.map text)
    (each : ∀ x ∈ xs, ∀ y ∈ ys, text x = text y → meaning x = meaning y) :
    xs.map meaning = ys.map meaning := by
  induction xs generalizing ys with
  | nil =>
      obtain rfl := List.map_eq_nil_iff.1 texts.symm
      rfl
  | cons x xs ih =>
      obtain ⟨y, ys, rfl, first, others⟩ := List.map_eq_cons_iff.1 texts.symm
      have behind := ih others.symm fun x mem y mem' =>
        each x (List.mem_cons_of_mem _ mem) y (List.mem_cons_of_mem _ mem')
      rw [List.map_cons, List.map_cons, behind,
        each x List.mem_cons_self y List.mem_cons_self first.symm]

/-- Items between brackets say the same in two readings of a text if each of them does. -/
theorem Enclosed.meaning_unique {ι α : Type} {meaning : ι → α} {text : ι → Text} {xs ys : List ι}
    {opening c : Char} {t t' r r' : Text} (h : Enclosed opening c (xs.map text) t)
    (h' : Enclosed opening c (ys.map text) t') (stop : IsStop c) (closing : c ≠ ',')
    (words : ∀ x ∈ xs, Opens (text x)) (words' : ∀ y ∈ ys, Opens (text y))
    (each : ∀ x ∈ xs, ∀ y ∈ ys, ∀ r r', Delimited r → Delimited r' →
      text x ++ r = text y ++ r' → meaning x = meaning y ∧ text x = text y)
    (same : t ++ r = t' ++ r') : xs.map meaning = ys.map meaning ∧ t = t' := by
  have apart : Apart (xs.map text) (ys.map text) := by
    intro u mem u' mem' r r' behind behind' same
    obtain ⟨x, member, rfl⟩ := List.mem_map.1 mem
    obtain ⟨y, member', rfl⟩ := List.mem_map.1 mem'
    exact (each x member y member' r r' behind behind' same).2
  obtain ⟨texts, rfl⟩ := h.unique h' stop closing (List.forall_mem_map.2 words)
    (List.forall_mem_map.2 words') apart same
  refine ⟨map_eq_of_texts texts fun x mem y mem' eq => ?_, List.append_cancel_right same⟩
  exact (each x mem y mem' [] [] delimited_nil delimited_nil (by rw [eq])).1

/-- Two values at the start of a text are one value, written in one way. -/
theorem Spells.unique {d d' : Datum Text} {t t' : Text} (h : Spells StringText d t)
    (h' : Spells StringText d' t') : Unique d d' t t' := by
  intro r r' behind behind' same
  -- only values of one kind are compared below: `kinds` refutes every other pair
  have kinds := h.kind_unique h' same
  have strings : ∀ s t, StringText s t → Opens t := fun _ _ => StringText.opens
  induction h generalizing d' t' r r' with
  | null =>
      cases h' with
      | null => exact ⟨rfl, rfl⟩
      | _ => cases kinds
  | true =>
      cases h' with
      | true => exact ⟨rfl, rfl⟩
      | _ => cases kinds
  | false =>
      cases h' with
      | false => exact ⟨rfl, rfl⟩
      | _ => cases kinds
  | number numeral =>
      cases h' with
      | number numeral' =>
          obtain rfl := numeral.unique numeral' behind behind' same
          exact ⟨rfl, rfl⟩
      | _ => cases kinds
  | string quoted =>
      cases h' with
      | string quoted' =>
          obtain ⟨rfl, rfl⟩ := quoted.unique quoted' same
          exact ⟨rfl, List.append_cancel_right same⟩
      | _ => cases kinds
  | list items spelled enclosed ih =>
      cases h' with
      | list items' each' enclosed' =>
          have each : ∀ x ∈ items, ∀ y ∈ items', Unique x.1 y.1 x.2 y.2 :=
            fun x mem y mem' r r' behind behind' same => ih x mem (each' y mem') r r' behind behind'
              same ((spelled x mem).kind_unique (each' y mem') same)
          obtain ⟨eq, texts⟩ := enclosed.meaning_unique enclosed' (.inr (.inl rfl)) (by decide)
            (fun x mem => (spelled x mem).opens strings) (fun y mem => (each' y mem).opens strings)
            each same
          exact ⟨congrArg Datum.list eq, texts⟩
      | _ => cases kinds
  | record entries keys gaps values enclosed ih =>
      cases h' with
      | record entries' keys' gaps' values' enclosed' =>
          have value : ∀ e ∈ entries, ∀ e' ∈ entries',
              Unique e.value e'.value e.valueText e'.valueText :=
            fun e mem e' mem' r r' behind behind' same => ih e mem (values' e' mem') r r' behind
              behind' same ((values e mem).kind_unique (values' e' mem') same)
          obtain ⟨eq, texts⟩ := enclosed.meaning_unique enclosed' (.inr (.inr rfl)) (by decide)
            (fun e mem => (keys e mem).opens.member _ _ _)
            (fun e mem => (keys' e mem).opens.member _ _ _)
            (fun e mem e' mem' r r' => Entry.unique (keys e mem) (keys' e' mem') (gaps e mem)
              (gaps' e' mem') ((values e mem).opens strings) ((values' e' mem').opens strings)
              (value e mem e' mem')) same
          exact ⟨congrArg Datum.record eq, texts⟩
      | _ => cases kinds

/-- A text says at most one datum. -/
theorem JsonText.unique {d d' : Datum Text} {t : Text} (h : JsonText d t) (h' : JsonText d' t) :
    d = d' := by
  obtain ⟨a, value, b, before, spelled, after, rfl⟩ := h
  obtain ⟨a', value', b', before', spelled', after', same⟩ := h'
  have strings : ∀ s t, StringText s t → Opens t := fun _ _ => StringText.opens
  simp only [List.append_assoc] at same
  have values := eq_of_gaps before before' ((spelled.opens strings).shown b)
    ((spelled'.opens strings).shown b') same
  exact (spelled.unique spelled' b b' after.delimited after'.delimited values).1

end Wikidown.Json
