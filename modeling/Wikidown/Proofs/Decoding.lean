/-
# Wikidown.Proofs.Decoding -- all references of a text are replaced at once

`StandsAt s i name c` says where the valid references of a text are, place by place and
without a reading order.  No two of them overlap (`StandsAt.apart`), so that each place of the
text has its own share in the decoded text (`Share`): the first place of a reference gives
the character that is meant, its other places give nothing, and a place in no reference gives
the character that stands there.  `Replaced s t` puts the shares together.

Decoding reads from the left and takes up again behind a failed `&`.  `Scanned` is that reading
with its reasons: a character is kept only where no reference starts (`scanned_decode`).
Nothing in a reference looks like the start of one, so a text is decoded apart from what
follows, where an `&` follows (`decode_append`).
-/
import Wikidown.Proofs.References

namespace Wikidown.Markup

set_option autoImplicit false

/-! ## Where references stand -/

/-- A reference with its marks. -/
def referenceText (name : Text) : Text := '&' :: (name ++ [';'])

/-- A valid reference to `c` starts at place `i` of the text. -/
def StandsAt (s : Text) (i : Nat) (name : Text) (c : Char) : Prop :=
  IsReference name c ∧ referenceText name <+: s.drop i

/-- A reference that starts at place `i` takes up place `j`. -/
def TakesUp (name : Text) (i j : Nat) : Prop := i ≤ j ∧ j < i + (referenceText name).length

theorem referenceText_append (name rest : Text) :
    referenceText name ++ rest = '&' :: (name ++ ';' :: rest) := by
  simp [referenceText]

/-- An ampersand starts a reference and is nowhere else in it. -/
theorem ampersand_notMem {name : Text} {c : Char} (valid : IsReference name c) :
    '&' ∉ name ++ [';'] := by
  rw [List.mem_append, List.mem_singleton]
  rintro (mem | eq)
  · exact absurd (plain_of_refers valid.1 '&' mem) (by decide)
  · cases eq

namespace StandsAt

variable {s : Text} {i j : Nat} {name name' : Text} {c d : Char}

theorem append_iff (front : Text) :
    StandsAt (front ++ s) (front.length + i) name c ↔ StandsAt s i name c := by
  rw [StandsAt, StandsAt, List.drop_append, List.drop_of_length_le (by omega),
    List.nil_append, Nat.add_sub_cancel_left]

/-- What starts at a place is one reference, with one meaning. -/
theorem unique (h : StandsAt s i name c) (h' : StandsAt s i name' d) : name = name' ∧ c = d := by
  obtain ⟨valid, rest, eq⟩ := h
  obtain ⟨valid', rest', eq'⟩ := h'
  rw [referenceText_append] at eq eq'
  have same : name ++ ';' :: rest = name' ++ ';' :: rest' := (List.cons.inj (eq.trans eq'.symm)).2
  have read := reference?_append valid rest
  rw [same, reference?_append valid' rest'] at read
  obtain ⟨rfl, rfl⟩ := Prod.mk.inj (Option.some.inj read)
  exact ⟨List.append_cancel_right same, rfl⟩

/-- A reference ends before the next one starts. -/
theorem apart (h : StandsAt s i name c) (h' : StandsAt s j name' d) (lt : i < j) :
    i + (referenceText name).length ≤ j := by
  by_contra within
  obtain ⟨k, rfl⟩ : ∃ k, j = i + (k + 1) := ⟨j - i - 1, by omega⟩
  obtain ⟨rest, eq⟩ := h.2
  obtain ⟨rest', eq'⟩ := h'.2
  have inside : k < (name ++ [';']).length := by
    simp only [referenceText, List.length_cons] at within
    omega
  have here : ((s.drop i).drop (k + 1))[0]? = some '&' := by
    rw [List.drop_drop, ← eq']
    rfl
  rw [← eq, referenceText, List.cons_append, List.drop_succ_cons, List.getElem?_drop,
    Nat.add_zero, List.getElem?_append_left inside] at here
  exact ampersand_notMem h.1 (List.mem_of_getElem? here)

/-- Two references that take up the same place are the same. -/
theorem unique_of_takesUp {k : Nat} (h : StandsAt s i name c) (h' : StandsAt s j name' d)
    (here : TakesUp name i k) (here' : TakesUp name' j k) : i = j := by
  obtain ⟨from_i, to_i⟩ := here
  obtain ⟨from_j, to_j⟩ := here'
  rcases Nat.lt_trichotomy i j with lt | eq | lt
  · have := h.apart h' lt
    omega
  · exact eq
  · have := h'.apart h lt
    omega

end StandsAt

/-! ## All references replaced at once -/

/-- What a place of a text gives to the text with all references replaced: a reference gives
its character at its first place and nothing at the others, and a character in no reference
stands for itself. -/
inductive Share (s : Text) (i : Nat) : Text → Prop where
  | first {name : Text} {c : Char} (here : StandsAt s i name c) : Share s i [c]
  | further {j : Nat} {name : Text} {c : Char} (here : StandsAt s j name c)
      (inside : TakesUp name j i) (behind : j < i) : Share s i []
  | kept {x : Char} (char : s[i]? = some x)
      (free : ∀ j name c, StandsAt s j name c → ¬ TakesUp name j i) : Share s i [x]

/-- The text with all its references replaced: the shares of its places, one after another. -/
def Replaced (s t : Text) : Prop :=
  ∃ shares : List Text, shares.length = s.length ∧
    (∀ i share, shares[i]? = some share → Share s i share) ∧ t = shares.flatten

theorem TakesUp.start (name : Text) (i : Nat) : TakesUp name i i :=
  ⟨Nat.le_refl i, by simp [referenceText]⟩

/-- Each place has one share. -/
theorem Share.unique {s : Text} {i : Nat} {t u : Text} (h : Share s i t) (h' : Share s i u) :
    t = u := by
  cases h with
  | first here =>
      cases h' with
      | first here' => rw [(here.unique here').2]
      | further here' inside behind =>
          have := here.unique_of_takesUp here' (.start _ _) inside
          omega
      | kept _ free => exact absurd (.start _ _) (free _ _ _ here)
  | further here inside behind =>
      cases h' with
      | first here' =>
          have := here.unique_of_takesUp here' inside (.start _ _)
          omega
      | further _ _ _ => rfl
      | kept _ free => exact absurd inside (free _ _ _ here)
  | kept char free =>
      cases h' with
      | first here' => exact absurd (.start _ _) (free _ _ _ here')
      | further here' inside _ => exact absurd inside (free _ _ _ here')
      | kept char' _ => rw [Option.some.inj (char.symm.trans char')]

/-- A text has one text with its references replaced. -/
theorem Replaced.unique {s t u : Text} (h : Replaced s t) (h' : Replaced s u) : t = u := by
  obtain ⟨shares, length, each, rfl⟩ := h
  obtain ⟨shares', length', each', rfl⟩ := h'
  have same : shares = shares' := by
    refine List.ext_getElem (length.trans length'.symm) fun i lt lt' => ?_
    exact (each i _ (List.getElem?_eq_getElem lt)).unique (each' i _ (List.getElem?_eq_getElem lt'))
  rw [same]

/-! ## A text behind a front that no reference leaves -/

section

variable {front s t : Text}

/-- Every reference that starts in the front of a text ends there. -/
def Sealed (front s : Text) : Prop :=
  ∀ j name c, StandsAt (front ++ s) j name c → j < front.length →
    j + (referenceText name).length ≤ front.length

/-- A place keeps its share behind a front that no reference leaves. -/
theorem Share.shift {i : Nat} (h : Share s i t) (whole : Sealed front s) :
    Share (front ++ s) (front.length + i) t := by
  cases h with
  | first here => exact .first ((StandsAt.append_iff front).2 here)
  | @further j _ _ here inside behind =>
      obtain ⟨_, within⟩ := inside
      exact .further (j := front.length + j) ((StandsAt.append_iff front).2 here)
        ⟨by omega, by omega⟩ (by omega)
  | kept char free =>
      refine .kept ?_ fun j name c here inside => ?_
      · rw [List.getElem?_append_right (by omega), Nat.add_sub_cancel_left, char]
      · obtain ⟨_, within⟩ := inside
        by_cases early : j < front.length
        · have := whole j name c here early
          omega
        · obtain ⟨k, rfl⟩ : ∃ k, j = front.length + k := ⟨j - front.length, by omega⟩
          exact free k name c ((StandsAt.append_iff front).1 here) ⟨by omega, by omega⟩

theorem Replaced.extend (shares : List Text) (h : Replaced s t) (whole : Sealed front s)
    (length : shares.length = front.length)
    (each : ∀ i share, shares[i]? = some share → Share (front ++ s) i share) :
    Replaced (front ++ s) (shares.flatten ++ t) := by
  obtain ⟨behind, length', each', rfl⟩ := h
  refine ⟨shares ++ behind, by simp [length, length'], fun i share here => ?_, by simp⟩
  by_cases early : i < shares.length
  · exact each i share (by rwa [List.getElem?_append_left early] at here)
  · obtain ⟨k, rfl⟩ : ∃ k, i = front.length + k := ⟨i - front.length, by omega⟩
    rw [List.getElem?_append_right (by omega), length, Nat.add_sub_cancel_left] at here
    exact (each' k share here).shift whole

/-- No reference leaves a character at which none starts. -/
theorem sealed_singleton {x : Char} (bare : ∀ name c, ¬ StandsAt (x :: s) 0 name c) :
    Sealed [x] s := by
  intro j name c here early
  obtain rfl : j = 0 := by simpa using early
  exact absurd here (bare name c)

/-- No reference leaves another one. -/
theorem sealed_referenceText {name : Text} {c : Char} (valid : IsReference name c) (s : Text) :
    Sealed (referenceText name) s := by
  have start : StandsAt (referenceText name ++ s) 0 name c := ⟨valid, List.prefix_append _ _⟩
  intro j name' d here early
  rcases Nat.eq_zero_or_pos j with rfl | later
  · rw [(here.unique start).1]
    omega
  · have := start.apart here later
    omega

end

/-! ## Reading from the left -/

/-- How a text is decoded from the left: a character at which no reference starts is kept, and
a reference gives its character. -/
inductive Scanned : Text → Text → Prop where
  | nil : Scanned [] []
  | kept {x : Char} {s t : Text} (bare : ∀ name c, ¬ StandsAt (x :: s) 0 name c)
      (behind : Scanned s t) : Scanned (x :: s) (x :: t)
  | replaced {name s t : Text} {c : Char} (valid : IsReference name c) (behind : Scanned s t) :
      Scanned (referenceText name ++ s) (c :: t)

/-- A character at which no reference starts is kept. -/
theorem decode_cons {x : Char} {s : Text} (bare : ∀ name c, ¬ StandsAt (x :: s) 0 name c) :
    decode (x :: s) = x :: decode s := by
  by_cases ampersand : x = '&'
  · subst ampersand
    refine decode_ampersand (Option.eq_none_iff_forall_not_mem.2 fun ⟨c, rest⟩ read => ?_)
    obtain ⟨name, valid, rfl⟩ := reference?_eq_some_iff.1 read
    exact bare name c ⟨valid, rest, referenceText_append name rest⟩
  · exact decode_cons_of_ne ampersand s

/-- A reference gives its character, whatever stands behind it. -/
theorem decode_referenceText {name : Text} {c : Char} (valid : IsReference name c) (s : Text) :
    decode (referenceText name ++ s) = c :: decode s := by
  rw [referenceText_append, decode_reference (reference?_append valid s)]

theorem scanned_decode (s : Text) : Scanned s (decode s) := by
  induction length : s.length using Nat.strongRecOn generalizing s with
  | _ n ih =>
    cases s with
    | nil =>
        rw [decode_nil]
        exact .nil
    | cons x s =>
        by_cases start : ∃ name c, StandsAt (x :: s) 0 name c
        · obtain ⟨name, c, valid, rest, eq⟩ := start
          rw [List.drop_zero] at eq
          have shorter : rest.length < n := by
            have := congrArg List.length eq
            simp only [referenceText, List.length_append, List.length_cons] at this length
            omega
          rw [← eq, decode_referenceText valid]
          exact .replaced valid (ih _ shorter rest rfl)
        · have bare : ∀ name c, ¬ StandsAt (x :: s) 0 name c := fun name c here =>
            start ⟨name, c, here⟩
          rw [decode_cons bare]
          exact .kept bare (ih s.length (by simp [← length]) s rfl)

namespace Scanned

variable {s t : Text}

/-- What is read from the left is the text with all references replaced. -/
theorem replaced_all (h : Scanned s t) : Replaced s t := by
  induction h with
  | nil => exact ⟨[], rfl, by simp, rfl⟩
  | @kept x s t bare _ ih =>
      refine ih.extend [[x]] (sealed_singleton bare) rfl ?_
      intro i share here
      obtain ⟨rfl, rfl⟩ : i = 0 ∧ share = [x] := by
        cases i <;> simp_all
      refine .kept rfl fun j name c start inside => ?_
      obtain rfl : j = 0 := by
        have := inside.1
        omega
      exact bare name c start
  | @replaced name s t c valid _ ih =>
      have start : StandsAt (referenceText name ++ s) 0 name c := ⟨valid, List.prefix_append _ _⟩
      have put := ih.extend ([c] :: List.replicate (name.length + 1) [])
        (sealed_referenceText valid s) (by simp [referenceText]) ?_
      · simpa using put
      · rintro (_ | i) share here
        · obtain rfl : [c] = share := by simpa using here
          exact .first start
        · rw [List.getElem?_cons_succ, List.getElem?_replicate,
            Option.ite_none_right_eq_some] at here
          obtain ⟨inside, rfl⟩ : i < name.length + 1 ∧ [] = share := by simpa using here
          exact .further start ⟨by omega, by simpa [referenceText] using inside⟩ (by omega)

/-- No reference reaches over an ampersand behind its own. -/
theorem decode_append (h : Scanned s t) (more : Text) :
    decode (s ++ '&' :: more) = t ++ decode ('&' :: more) := by
  induction h with
  | nil => rfl
  | @kept x s t bare _ ih =>
      rw [List.cons_append, List.cons_append, ← ih]
      refine decode_cons fun name c here => ?_
      obtain ⟨valid, start⟩ := here
      rw [List.drop_zero, ← List.cons_append] at start
      rcases List.prefix_or_prefix_of_prefix start (List.prefix_append _ _) with
        within | ⟨r, beyond⟩
      · exact bare name c ⟨valid, within⟩
      · rw [← beyond, List.prefix_append_right_inj] at start
        have inside : s ++ r = name ++ [';'] := (List.cons.inj beyond).2
        have behind : '&' ∉ s ++ r := inside ▸ ampersand_notMem valid
        cases r with
        | nil => exact bare name c ⟨valid, by rw [← beyond, List.append_nil]; exact List.prefix_rfl⟩
        | cons d r =>
            obtain ⟨rest, eq⟩ := start
            obtain rfl : d = '&' := (List.cons.inj eq).1
            exact behind (by simp)
  | replaced valid _ ih =>
      rw [List.append_assoc, decode_referenceText valid, ih, List.cons_append]

end Scanned

/-! ## Length -/

theorem byteLength_append (a b : Text) :
    Text.byteLength (a ++ b) = Text.byteLength a + Text.byteLength b := by
  induction a with
  | nil => simp [Text.byteLength]
  | cons c a ih => simp [Text.byteLength, ih, Nat.add_assoc]

/-- No name and no number is a single character. -/
theorem two_le_length_of_refers {name : Text} {c : Char} (h : Refers name c) :
    2 ≤ name.length := by
  have filled : ∀ {base n : Nat} {t : Text}, Signed base t n → 1 ≤ t.length := by
    intro base n t number
    obtain ⟨d, rest, rfl, -⟩ := number.head_ne
    simp
  cases h with
  | named known =>
      have listed : ∀ p ∈ namedCharacters, 2 ≤ p.1.length := by decide
      exact listed (name, c) known
  | decimal number =>
      have := filled number
      simpa using this
  | hexadecimal _ number =>
      have := filled number
      simp

/-- A character takes up at most four bytes, and a reference to it at least four. -/
theorem utf8Size_le_byteLength {name : Text} {c : Char} (valid : IsReference name c) :
    c.utf8Size ≤ Text.byteLength (referenceText name) := by
  have long := two_le_length_of_refers valid.1
  have bytes := length_le_byteLength (referenceText name)
  have most := c.utf8Size_le_four
  simp only [referenceText, List.length_cons, List.length_append, List.length_nil] at bytes ⊢
  omega

theorem Scanned.byteLength_le {s t : Text} (h : Scanned s t) :
    Text.byteLength t ≤ Text.byteLength s := by
  induction h with
  | nil => exact Nat.le_refl _
  | kept _ _ ih =>
      simp only [Text.byteLength]
      omega
  | replaced valid _ ih =>
      have := utf8Size_le_byteLength valid
      rw [byteLength_append, Text.byteLength]
      omega

/-! ## Decoding -/

/-- Decoding replaces exactly the valid references of a text, all at once.  They do not overlap;
the decoded text is put together from the shares of the places, and nothing else is; the character
of a reference takes part in no other one, since what is before and behind the reference is
decoded apart from it; and the text gets no longer. -/
theorem decode_replaces (s : Text) :
    (∀ i j name name' c d, StandsAt s i name c → StandsAt s j name' d →
      (i = j ∧ name = name' ∧ c = d) ∨ i + (referenceText name).length ≤ j ∨
        j + (referenceText name').length ≤ i) ∧
    (∀ t, Replaced s t ↔ t = decode s) ∧
    (∀ before after name c, IsReference name c → s = before ++ (referenceText name ++ after) →
      decode s = decode before ++ c :: decode after) ∧
    Text.byteLength (decode s) ≤ Text.byteLength s := by
  have scanned := scanned_decode s
  refine ⟨fun i j name name' c d here here' => ?_, fun t => ?_,
    fun before after name c valid whole => ?_, scanned.byteLength_le⟩
  · rcases Nat.lt_trichotomy i j with lt | rfl | lt
    · exact .inr (.inl (here.apart here' lt))
    · exact .inl ⟨rfl, here.unique here'⟩
    · exact .inr (.inr (here'.apart here lt))
  · constructor
    · exact fun replaced => replaced.unique scanned.replaced_all
    · rintro rfl
      exact scanned.replaced_all
  · rw [whole, referenceText, List.cons_append, (scanned_decode before).decode_append,
      ← List.cons_append, ← referenceText, decode_referenceText valid]

/-- A look-alike of a reference behind a replaced ampersand, a lone ampersand, and a number. -/
def nestedText : Text := "&amp;lt;&&#x41;"

theorem isReference_amp : IsReference "amp" '&' := ⟨.named (by decide), by decide⟩

theorem isReference_hexadecimal : IsReference "#x41" 'A' := by
  have four : Numeral 16 ['4'] 4 := .digit (by decide) (by decide)
  have number : Numeral 16 (['4'] ++ ['1']) (4 * 16 + 1) := .append four (by decide) (by decide)
  exact ⟨.hexadecimal (.inl rfl) (.plain number), by decide⟩

theorem decode_nestedText :
    (StandsAt nestedText 0 "amp" '&' ∧ StandsAt nestedText 9 "#x41" 'A' ∧
      0 + (referenceText "amp").length ≤ 9) ∧
    Replaced nestedText "&lt;&A" ∧
    decode nestedText = decode [] ++ '&' :: decode "lt;&&#x41;" ∧
    Text.byteLength (decode nestedText) ≤ 15 := by
  have ampersand : StandsAt nestedText 0 "amp" '&' :=
    ⟨isReference_amp, "lt;&&#x41;".toList, by decide⟩
  have letter : StandsAt nestedText 9 "#x41" 'A' := ⟨isReference_hexadecimal, [], by decide⟩
  have whole : nestedText =
      referenceText "amp" ++ 'l' :: 't' :: ';' :: '&' :: (referenceText "#x41" ++ []) := by decide
  have decoded : decode nestedText = "&lt;&A".toList := by
    rw [whole, decode_referenceText isReference_amp, decode_cons_of_ne (by decide),
      decode_cons_of_ne (by decide), decode_cons_of_ne (by decide), decode_ampersand (by decide),
      decode_referenceText isReference_hexadecimal, decode_nil]
    rfl
  obtain ⟨apart, replaced, around, length⟩ := decode_replaces nestedText
  refine ⟨⟨ampersand, letter, ?_⟩, (replaced _).2 decoded.symm,
    around [] _ "amp" '&' isReference_amp (by decide), length⟩
  rcases apart 0 9 _ _ _ _ ampersand letter with ⟨eq, -⟩ | before | after
  · omega
  · exact before
  · omega

end Wikidown.Markup
