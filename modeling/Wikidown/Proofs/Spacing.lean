/-
# Wikidown.Proofs.Spacing -- white space at the ends of a text

Trimming takes characters off the ends of a text and nothing else: what is left is a part
of it (`isInfix_trim`), and it neither starts nor ends with white space.  With what was taken
off in its place it is the text again (`takeWhile_trim_takeEndWhile`).
-/
import Wikidown.Text

namespace Wikidown.Text

set_option autoImplicit false

theorem isPrefix_dropEndWhile (p : Char → Bool) (t : Text) : dropEndWhile p t <+: t := by
  have := List.dropWhile_suffix p (l := t.reverse)
  simpa [dropEndWhile] using List.reverse_prefix.2 this

theorem isSuffix_trimStart (t : Text) : trimStart t <:+ t := List.dropWhile_suffix isSpace

theorem isPrefix_trimEnd (t : Text) : trimEnd t <+: t := isPrefix_dropEndWhile isSpace t

theorem isInfix_trim (t : Text) : trim t <:+: t :=
  (isPrefix_trimEnd _).isInfix.trans (isSuffix_trimStart t).isInfix

theorem dropWhile_congr {p q : Char → Bool} {t : Text} (h : ∀ c ∈ t, p c = q c) :
    t.dropWhile p = t.dropWhile q := by
  induction t with
  | nil => rfl
  | cons c t ih =>
      rw [List.dropWhile_cons, List.dropWhile_cons, h c List.mem_cons_self,
        ih fun d hd => h d (List.mem_cons_of_mem _ hd)]

theorem dropEndWhile_congr {p q : Char → Bool} {t : Text} (h : ∀ c ∈ t, p c = q c) :
    dropEndWhile p t = dropEndWhile q t := by
  have reversed : ∀ c ∈ t.reverse, p c = q c := fun c hc => h c (List.mem_reverse.1 hc)
  rw [dropEndWhile, dropEndWhile, dropWhile_congr reversed]

/-! ## Blank texts -/

theorem isBlank_trimStart (t : Text) : isBlank (trimStart t) = isBlank t := by
  induction t with
  | nil => rfl
  | cons c t ih =>
      cases space : isSpace c with
      | true => simpa [isBlank, trimStart, space] using ih
      | false => simp [isBlank, trimStart, space]

theorem isBlank_trimEnd (t : Text) : isBlank (trimEnd t) = isBlank t := by
  have reversed := isBlank_trimStart t.reverse
  simpa [isBlank, trimStart, trimEnd, dropEndWhile] using reversed

theorem isBlank_trim (t : Text) : isBlank (trim t) = isBlank t :=
  (isBlank_trimEnd _).trans (isBlank_trimStart t)

theorem trimStart_of_isBlank {t : Text} (h : isBlank t = true) : trimStart t = [] := by
  induction t with
  | nil => rfl
  | cons c t ih =>
      simp only [isBlank, List.all_cons, Bool.and_eq_true] at h
      simpa [trimStart, h.1] using ih h.2

theorem trim_of_isBlank {t : Text} (h : isBlank t = true) : trim t = [] := by
  rw [trim, trimStart_of_isBlank h]
  rfl

/-- Trimming leaves something of a text that is not blank, and nothing of a blank one. -/
theorem isEmpty_trim (t : Text) : (trim t).isEmpty = isBlank t := by
  cases blank : isBlank t with
  | true => rw [trim_of_isBlank blank, List.isEmpty_nil]
  | false =>
      rw [← isBlank_trim] at blank
      cases eq : trim t with
      | nil => simp [eq, isBlank] at blank
      | cons c rest => rfl

/-- A trimmed text does not end with white space. -/
theorem isSpace_getLast?_trim {t : Text} {c : Char} (h : (trim t).getLast? = some c) :
    isSpace c = false := by
  have first : ((trimStart t).reverse.dropWhile isSpace).head? = some c := by
    simpa [trim, trimEnd, dropEndWhile] using h
  have visible := List.head?_dropWhile_not isSpace (trimStart t).reverse
  rw [first] at visible
  exact visible

/-- A trimmed text does not start with white space. -/
theorem trimStart_trim (t : Text) : trimStart (trim t) = trim t := by
  obtain ⟨behind, whole⟩ := isPrefix_trimEnd (trimStart t)
  cases eq : trim t with
  | nil => rfl
  | cons c rest =>
      have visible := List.head?_dropWhile_not isSpace t
      rw [show t.dropWhile isSpace = trimStart t from rfl, ← whole,
        show trimEnd (trimStart t) = trim t from rfl, eq] at visible
      have visible : isSpace c = false := visible
      rw [trimStart, List.dropWhile_cons, visible]
      rfl

/-- Trimming a second time changes nothing. -/
theorem trim_trim (t : Text) : trim (trim t) = trim t := by
  have back : trimEnd (trim t) = trim t := by
    rcases List.eq_nil_or_concat (trim t) with nil | ⟨front, c, eq⟩
    · rw [nil]
      rfl
    · have last : (trim t).getLast? = some c := by simp [eq]
      have visible := isSpace_getLast?_trim last
      simp [eq, trimEnd, dropEndWhile, visible]
  rw [trim, trimStart_trim, back]

/-- A text without white space has none at its ends. -/
theorem trim_of_visible {t : Text} (h : ∀ c ∈ t, isSpace c = false) : trim t = t := by
  have kept : ∀ s : Text, (∀ c ∈ s, isSpace c = false) → s.dropWhile isSpace = s := by
    intro s visible
    cases s with
    | nil => rfl
    | cons c s =>
        rw [List.dropWhile_cons, visible c List.mem_cons_self]
        rfl
  have reversed : ∀ c ∈ t.reverse, isSpace c = false := fun c mem => h c (List.mem_reverse.1 mem)
  rw [trim, trimStart, kept t h, trimEnd, dropEndWhile, kept _ reversed, List.reverse_reverse]

/-! ## The white space that is cut off -/

theorem dropEndWhile_append_takeEndWhile (p : Char → Bool) (t : Text) :
    dropEndWhile p t ++ takeEndWhile p t = t := by
  have whole := congrArg List.reverse (List.takeWhile_append_dropWhile (p := p) (l := t.reverse))
  rwa [List.reverse_append, List.reverse_reverse] at whole

theorem mem_of_mem_takeEndWhile {p : Char → Bool} {t : Text} {c : Char}
    (h : c ∈ takeEndWhile p t) : c ∈ t :=
  dropEndWhile_append_takeEndWhile p t ▸ List.mem_append_right _ h

theorem isSpace_of_mem_takeWhile {t : Text} {c : Char} (h : c ∈ t.takeWhile isSpace) :
    isSpace c = true :=
  List.all_eq_true.1 List.all_takeWhile c h

theorem isSpace_of_mem_takeEndWhile {t : Text} {c : Char} (h : c ∈ takeEndWhile isSpace t) :
    isSpace c = true :=
  isSpace_of_mem_takeWhile (List.mem_reverse.1 h)

/-- White space behind text is none in front of it. -/
theorem takeWhile_append {t : Text} (text : isBlank t = false) (behind : Text) :
    (t ++ behind).takeWhile isSpace = t.takeWhile isSpace := by
  have shorter : (t.takeWhile isSpace).length ≠ t.length := by
    intro all
    have whole := (List.takeWhile_prefix isSpace).eq_of_length all
    have space : t.all isSpace = true := whole ▸ List.all_takeWhile
    rw [isBlank, space] at text
    cases text
  rw [List.takeWhile_append, if_neg shorter]

/-- White space in front of text is none behind it. -/
theorem takeEndWhile_append (front : Text) {t : Text} (text : isBlank t = false) :
    takeEndWhile isSpace (front ++ t) = takeEndWhile isSpace t := by
  have reversed : isBlank t.reverse = false := List.all_reverse.trans text
  rw [takeEndWhile, takeEndWhile, List.reverse_append, takeWhile_append reversed]

theorem takeEndWhile_trimStart {t : Text} (text : isBlank t = false) :
    takeEndWhile isSpace (trimStart t) = takeEndWhile isSpace t := by
  have front : t.takeWhile isSpace ++ trimStart t = t := List.takeWhile_append_dropWhile
  have behind := takeEndWhile_append (t.takeWhile isSpace) ((isBlank_trimStart t).trans text)
  rw [front] at behind
  exact behind.symm

/-- A line of text is its trimmed form with the white space at its ends. -/
theorem takeWhile_trim_takeEndWhile {t : Text} (text : isBlank t = false) :
    t.takeWhile isSpace ++ trim t ++ takeEndWhile isSpace t = t := by
  have front : t.takeWhile isSpace ++ trimStart t = t := List.takeWhile_append_dropWhile
  rw [← takeEndWhile_trimStart text, List.append_assoc, trim, trimEnd,
    dropEndWhile_append_takeEndWhile, front]

end Wikidown.Text
