/-
# Wikidown.Proofs.JsonSkip -- a well-formed value is skipped to its end

A value that is not looked at may be nested to any depth.  The loop that skips it is at the
end of it as soon as it has walked over it, with the same brackets open as before
(`skip_value`, by induction over the grammar).  Inside a bracket the values, or the keys and
values, are walked over one after the other (`skip_items`).
-/
import Wikidown.Proofs.JsonWords

namespace Wikidown.Json

set_option autoImplicit false

/-! ## Words that are not looked at -/

theorem word_append (w rest : Text) : word w (w ++ rest) = .ok rest := by
  induction w with
  | nil => rw [List.nil_append, word]
  | cons c w ih => rw [List.cons_append, word, if_pos rfl, ih]

theorem skipScalar_string {quoted rest : Text} {u : Unit} (h : LooseText u quoted) :
    ∃ more, quoted = '"' :: more ∧ skipScalar '"' (more ++ rest) = .ok rest := by
  obtain ⟨body, chars, rfl⟩ := h
  obtain ⟨step, eq, -, after⟩ := (reads_skipString chars rest).exists_step
  refine ⟨_, rfl, ?_⟩
  rw [List.append_assoc, List.singleton_append, skipScalar, eq]
  exact congrArg Except.ok after

theorem skipScalar_digit {c : Char} (digit : c.isDigit = true) (rest : Text) :
    skipScalar c rest = skipNumber (c :: rest) := by
  unfold skipScalar
  split <;> first | cases digit | rw [if_pos digit]

theorem skipScalar_number {t rest : Text} (h : NumberText t) (delimited : Delimited rest) :
    ∃ c more, t = c :: more ∧ c ≠ '[' ∧ c ≠ '{' ∧ skipScalar c (more ++ rest) = .ok rest := by
  obtain ⟨sign, whole, fraction, exponent, signs, wholeText, places, power, rfl⟩ := h
  have skipped := skipNumber_append wholeText places power delimited
  rcases signs with rfl | rfl
  · obtain ⟨⟨ne, digits⟩, -⟩ := wholeText
    cases whole with
    | nil => exact absurd rfl ne
    | cons c whole =>
        have digit := digits c List.mem_cons_self
        have apart : c ≠ '[' ∧ c ≠ '{' := by
          constructor <;> rintro rfl <;> cases digit
        refine ⟨c, whole ++ fraction ++ exponent, rfl, apart.1, apart.2, ?_⟩
        rw [skipScalar_digit digit]
        simpa only [List.append_assoc, List.cons_append] using skipped
  · refine ⟨'-', whole ++ fraction ++ exponent, by simp, by decide, by decide, ?_⟩
    simpa only [List.append_assoc, skipScalar] using skipped

/-! ## The turns of the loop -/

/-- A value without brackets. -/
theorem skip_scalar {c : Char} {g t rest : Text} (opened : List Bracket) (gap : Gap g)
    (visible : isGap c = false) (noBracket : c ≠ '[' ∧ c ≠ '{')
    (read : skipScalar c t = .ok rest) :
    skip .value opened (g ++ c :: t) = skip .next opened rest := by
  have start : dropGap (g ++ c :: t) = c :: t := dropGap_append gap (shown_cons visible _)
  rw [skip]
  split
  · next eq => rw [start] at eq; cases eq
  · next d more eq =>
    obtain ⟨rfl, rfl⟩ := List.cons.inj (start.symm.trans eq)
    rw [if_neg (by simp [noBracket])]
    split
    · next found => rw [read] at found; cases found
    · next after found =>
      obtain rfl := Except.ok.inj (read.symm.trans found)
      rfl

/-- The character that opens a bracket. -/
def Bracket.opening : Bracket → Char
  | list => '['
  | record => '{'

/-- Where the first value begins in the text of an item: an item of a record has its key
before that. -/
def Bracket.begin (b : Bracket) (t : Text) : Except Fault Text :=
  match b with
  | .list => .ok t
  | .record => skipKey t

theorem Bracket.isGap_closing (b : Bracket) : isGap b.closing = false := by cases b <;> rfl

theorem dropGap_closing (b : Bracket) {g : Text} (gap : Gap g) (rest : Text) :
    dropGap (g ++ b.closing :: rest) = b.closing :: rest :=
  dropGap_append gap (shown_cons b.isGap_closing rest)

theorem Bracket.begin_comma (b : Bracket) {g t s : Text} (gap : Gap g) (start : b.begin t = .ok s) :
    skipBetween b (g ++ ',' :: t) = .ok (.value, s) := by
  have comma : dropGap (g ++ ',' :: t) = ',' :: t := dropGap_append gap (shown_cons rfl _)
  cases b with
  | list =>
      obtain rfl := Except.ok.inj start
      simp only [skipBetween, comma, Bracket.closing]
      rfl
  | record =>
      have key : skipKey t = .ok s := start
      simp only [skipBetween, comma, Bracket.closing, key]
      rfl

theorem Bracket.begin_first (b : Bracket) {g t s : Text} (gap : Gap g) (opens : Opens t)
    (start : b.begin t = .ok s) : skipOpening b (g ++ t) = .ok (.value, s) := by
  obtain ⟨c, more, rfl, visible, -, noList, noRecord⟩ := opens
  have first : dropGap (g ++ c :: more) = c :: more := dropGap_append gap (shown_cons visible _)
  cases b with
  | list =>
      have apart : c ≠ Bracket.list.closing := noList
      obtain rfl := Except.ok.inj start
      simp only [skipOpening, first, if_neg apart]
  | record =>
      have apart : c ≠ Bracket.record.closing := noRecord
      have key : skipKey (c :: more) = .ok s := start
      simp only [skipOpening, first, if_neg apart, key]
      rfl

/-- Behind a value the closing bracket leads out of the bracket. -/
theorem skip_closing (b : Bracket) (opened : List Bracket) {g : Text} (gap : Gap g) (rest : Text) :
    skip .next (b :: opened) (g ++ b.closing :: rest) = skip .next opened rest := by
  have found : skipBetween b (g ++ b.closing :: rest) = .ok (.next, rest) := by
    simp only [skipBetween, dropGap_closing b gap, if_true]
  rw [skip]
  split <;> rename_i eq <;> cases found.symm.trans eq
  rfl

/-- Behind a value a comma leads to the next one. -/
theorem skip_comma (b : Bracket) (opened : List Bracket) {g t s : Text} (gap : Gap g)
    (start : b.begin t = .ok s) :
    skip .next (b :: opened) (g ++ ',' :: t) = skip .value (b :: opened) s := by
  have found := b.begin_comma gap start
  rw [skip]
  split <;> rename_i eq <;> cases found.symm.trans eq
  rfl

/-- An opening bracket leads into it, or behind it if it is closed at once. -/
theorem skip_opening (b : Bracket) (opened : List Bracket) {g t s : Text} {turn : Turn} (gap : Gap g)
    (found : skipOpening b t = .ok (turn, s)) :
    skip .value opened (g ++ b.opening :: t)
      = match turn with
        | .next => skip .next opened s
        | .value => skip .value (b :: opened) s := by
  have start : dropGap (g ++ b.opening :: t) = b.opening :: t :=
    dropGap_append gap (shown_cons (by cases b <;> rfl) t)
  have bracket : b.opening = '[' ∨ b.opening = '{' := by cases b <;> simp [Bracket.opening]
  have same : (if b.opening = '[' then Bracket.list else .record) = b := by cases b <;> rfl
  rw [skip]
  split
  · next eq => rw [start] at eq; cases eq
  · next c more eq =>
    obtain ⟨rfl, rfl⟩ := List.cons.inj (start.symm.trans eq)
    simp only [if_pos bracket]
    rw [same]
    split <;> rename_i eq <;> cases found.symm.trans eq <;> rfl

/-! ## Items -/

/-- The text of an item between brackets is walked over, from where its value begins. -/
structure Item (b : Bracket) (t : Text) : Prop where
  opens : Opens t
  walked : ∀ (opened : List Bracket) (g rest : Text), Gap g → Delimited rest →
    ∃ s, b.begin (g ++ (t ++ rest)) = .ok s ∧ skip .value opened s = skip .next opened rest

theorem Bracket.delimited_closing (b : Bracket) (rest : Text) : Delimited (b.closing :: rest) := by
  cases b with
  | list => exact delimited_bracket rest
  | record => exact delimited_brace rest

/-- Items between brackets are walked over to behind the closing bracket. -/
theorem skip_items (b : Bracket) (opened : List Bracket) (rest : Text) {ts : List Text} {u : Text}
    (h : Separated ts u) (items : ∀ t ∈ ts, Item b t) :
    ∃ s, b.begin (u ++ b.closing :: rest) = .ok s ∧
      skip .value (b :: opened) s = skip .next opened rest := by
  -- behind each item the bracket is still open, and what stands there is the rest of the items
  induction h with
  | @one t g g' before after =>
      obtain ⟨s, start, walked⟩ := (items t List.mem_cons_self).walked (b :: opened) g
        (g' ++ b.closing :: rest) before (.of_gap after (b.delimited_closing rest))
      refine ⟨s, ?_, ?_⟩
      · simpa only [List.append_assoc] using start
      · rw [walked, skip_closing b opened after]
  | @more t g g' u ts before after others ih =>
      obtain ⟨s', start', walked'⟩ := ih fun t mem => items t (List.mem_cons_of_mem _ mem)
      obtain ⟨s, start, walked⟩ := (items t List.mem_cons_self).walked (b :: opened) g
        (g' ++ ',' :: (u ++ b.closing :: rest)) before (.of_gap after (delimited_comma _))
      refine ⟨s, ?_, ?_⟩
      · simpa only [List.append_assoc, List.cons_append] using start
      · rw [walked, skip_comma b opened after start', walked']

/-- A list or a record whose items can be walked over is walked over. -/
theorem skip_enclosed (b : Bracket) (opened : List Bracket) {g rest : Text} (gap : Gap g)
    {ts : List Text} {t : Text} (h : Enclosed b.opening b.closing ts t)
    (items : ∀ t ∈ ts, Item b t) :
    skip .value opened (g ++ (t ++ rest)) = skip .next opened rest := by
  cases h with
  | @empty inner blank =>
      have found : skipOpening b (inner ++ b.closing :: rest) = .ok (.next, rest) := by
        simp only [skipOpening, dropGap_closing b blank, if_true]
      simpa only [List.cons_append, List.append_assoc, List.singleton_append, List.nil_append]
        using skip_opening b opened gap found
  | @filled _ u inside =>
      obtain ⟨inner, v, blank, rfl, opens, inside⟩ := inside.strip fun t mem => (items t mem).opens
      obtain ⟨s, start, walked⟩ := skip_items b opened rest inside items
      have found := b.begin_first blank (opens.append _) start
      simpa only [List.cons_append, List.append_assoc, List.singleton_append, List.nil_append, walked]
        using skip_opening b opened gap found

/-! ## Values -/

/-- The key of a record is walked over up to its value. -/
theorem skipKey_append {u : Unit} {g key before : Text} (gap : Gap g) (quoted : LooseText u key)
    (blank : Gap before) (rest : Text) :
    skipKey (g ++ (key ++ (before ++ ':' :: rest))) = .ok rest := by
  have start := quoted.opens.dropGap gap (before ++ ':' :: rest)
  have colon : dropGap (before ++ ':' :: rest) = ':' :: rest :=
    dropGap_append blank (shown_cons rfl _)
  obtain ⟨body, chars, rfl⟩ := quoted
  obtain ⟨step, eq, -, after⟩ := (reads_skipString chars (before ++ ':' :: rest)).exists_step
  simp only [List.cons_append, List.append_assoc, List.nil_append] at start
  simp only [List.cons_append, List.append_assoc, List.nil_append, skipKey, start, if_true, eq, bind,
    Except.bind, after, colon]

/-- A well-formed value is walked over with the same brackets open as before. -/
theorem skip_value {d : Datum Unit} {t : Text} (h : Spells LooseText d t) (opened : List Bracket)
    {g rest : Text} (gap : Gap g) (delimited : Delimited rest) :
    skip .value opened (g ++ (t ++ rest)) = skip .next opened rest := by
  induction h generalizing opened g rest with
  | null => exact skip_scalar opened gap rfl (by decide) (word_append "ull" rest)
  | true => exact skip_scalar opened gap rfl (by decide) (word_append "rue" rest)
  | false => exact skip_scalar opened gap rfl (by decide) (word_append "alse" rest)
  | number numeral =>
      obtain ⟨c, more, rfl, noList, noRecord, read⟩ := skipScalar_number numeral delimited
      obtain ⟨d, _, eq, visible, -⟩ := numeral.opens
      obtain rfl := (List.cons.inj eq).1
      exact skip_scalar opened gap visible ⟨noList, noRecord⟩ read
  | string quoted =>
      obtain ⟨more, rfl, read⟩ := skipScalar_string quoted
      exact skip_scalar opened gap rfl (by decide) read
  | list items each enclosed ih =>
      refine skip_enclosed .list opened gap enclosed fun t mem => ?_
      obtain ⟨x, member, rfl⟩ := List.mem_map.1 mem
      exact ⟨(each x member).opens fun _ _ => LooseText.opens,
        fun opened g rest gap delimited => ⟨_, rfl, ih x member opened gap delimited⟩⟩
  | record entries keys gaps values enclosed ih =>
      refine skip_enclosed .record opened gap enclosed fun t mem => ?_
      obtain ⟨e, member, rfl⟩ := List.mem_map.1 mem
      refine ⟨(keys e member).opens.member _ _ _, fun opened g rest gap delimited => ?_⟩
      have key := skipKey_append gap (keys e member) (gaps e member).1
        (e.after ++ (e.valueText ++ rest))
      refine ⟨_, ?_, ih e member opened (gaps e member).2 delimited⟩
      simpa only [Bracket.begin, Entry.text, memberText, List.append_assoc, List.cons_append]
        using key

/-- The value under a key that nobody asked for is skipped to its end. -/
theorem skipValue_append {t : Text} (h : WellFormed t) {g rest : Text} (gap : Gap g)
    (delimited : Delimited rest) : skipValue (g ++ (t ++ rest)) = .ok rest := by
  obtain ⟨d, spelled⟩ := h
  rw [skipValue, skip_value spelled [] gap delimited, skip]

end Wikidown.Json
