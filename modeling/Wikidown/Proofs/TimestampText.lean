/-
# Wikidown.Proofs.TimestampText -- the spellings of a moment

What the four forms accept, as a grammar: numbers by their digits, white space where it may
stand, signs, fractions and offsets.  `Spells t m o` says that the text `t` is a spelling of the
date and time of day `m` at the offset of `o` minutes.

A number takes as many digits as it may, so each reader is followed by what ends its number: a
mark, white space, or the width of the number itself.  From that each field is read back
(`short?_append`, `year?_append`), then the date and the time of day (`looseDate?_append`,
`looseTime?_append`), and each spelling by one of the forms (`Spells.exists_form`).
-/
import Wikidown.Timestamp
import Wikidown.Proofs.Cuts
import Wikidown.Proofs.Instants
import Wikidown.Proofs.References

namespace Wikidown.Timestamp

set_option autoImplicit false

open Calendar (Date Moment)
open Markup (Numeral digits)
open Text (EndsRun endsRun_cons takeWhile_run dropWhile_run isSpace_of_mem)

/-! ## The grammar -/

/-- A number in exactly `width` digits. -/
def Fixed (width : Nat) (t : Text) (n : Nat) : Prop := t.length = width ∧ Numeral 10 t n

/-- A number in at most `width` digits. -/
def UpTo (width : Nat) (t : Text) (n : Nat) : Prop := t.length ≤ width ∧ Numeral 10 t n

/-- A number behind white space. -/
def Spaced (number : Text → Nat → Prop) (t : Text) (n : Nat) : Prop :=
  ∃ gap ds, t = gap ++ ds ∧ Text.isBlank gap = true ∧ number ds n

/-- A year of the Internet form. -/
def FullYear (t : Text) (year : Int) : Prop := ∃ n : Nat, Fixed 4 t n ∧ year = n

/-- A year of the loose forms: one to four digits, or any number of them behind a sign. -/
inductive LooseYear : Text → Int → Prop where
  | unsigned {ds : Text} {n : Nat} (h : UpTo 4 ds n) : LooseYear ds n
  | plus {ds : Text} {n : Nat} (h : Numeral 10 ds n) : LooseYear ('+' :: ds) n
  | minus {ds : Text} {n : Nat} (h : Numeral 10 ds n) : LooseYear ('-' :: ds) (-n)

/-- A date, its year, month and day written in given ways. -/
def DateText (year : Text → Int → Prop) (month day : Text → Nat → Prop) (t : Text) (d : Date) :
    Prop :=
  ∃ y a b, t = y ++ '-' :: (a ++ '-' :: b) ∧ year y d.year ∧ month a d.month ∧ day b d.day

/-- A time of day, each of its numbers written in the same way. -/
def ClockText (number : Text → Nat → Prop) (t : Text) (m : Moment) : Prop :=
  ∃ a b c, t = a ++ ':' :: (b ++ ':' :: c) ∧ number a m.hour ∧ number b m.minute ∧ number c m.second

/-- A fraction of a second, or none. -/
inductive FractionText : Text → Prop where
  | none : FractionText []
  | some {ds : Text} {n : Nat} (h : Numeral 10 ds n) : FractionText ('.' :: ds)

/-- The sign of an offset. -/
inductive Sign : Char → Int → Prop where
  | plus : Sign '+' 1
  | minus : Sign '-' (-1)
  | mathematical : Sign '\u2212' (-1)

/-- An offset in minutes, with some text between its hours and its minutes. -/
inductive OffsetText (between : Text → Prop) : Text → Int → Prop where
  | signed {c : Char} {unit : Int} {a mark b : Text} {hours minutes : Nat} (sign : Sign c unit)
      (first : Fixed 2 a hours) (apart : between mark) (second : Fixed 2 b minutes)
      (day : hours < 24) (hour : minutes < 60) :
      OffsetText between (c :: (a ++ (mark ++ b))) (unit * (hours * 60 + minutes : Nat))

/-- A zone of the Internet form. -/
inductive ZoneText : Text → Int → Prop where
  | utc {c : Char} (letter : c = 'Z' ∨ c = 'z') : ZoneText [c] 0
  | offset {t : Text} {o : Int} (h : OffsetText (· = [':']) t o) : ZoneText t o

/-- An offset of the loose form: behind white space, and with any colons and white space, or
none, between hours and minutes. -/
def LooseOffset (t : Text) (o : Int) : Prop :=
  ∃ gap z, t = gap ++ z ∧ Text.isBlank gap = true ∧
    OffsetText (fun mark => ∀ c ∈ mark, (c == ':' || isSpace c) = true) z o

/-- A date of the loose forms. -/
abbrev LooseDate : Text → Date → Prop :=
  DateText LooseYear (Spaced (UpTo 2)) (Spaced (UpTo 2))

/-- A time of day of the loose forms. -/
abbrev LooseClock : Text → Moment → Prop := ClockText (Spaced (UpTo 2))

/-- The text spells the date and the time of day `m` at an offset of `o` minutes.  In the form
without a mark between the two, white space stands there unless the day has both its digits. -/
inductive Spells : Text → Moment → Int → Prop where
  | internet {d clock f z : Text} {mark : Char} {m : Moment} {o : Int}
      (date : DateText FullYear (Fixed 2) (Fixed 2) d m.date)
      (between : mark = 'T' ∨ mark = 't' ∨ mark = ' ') (time : ClockText (Fixed 2) clock m)
      (fraction : FractionText f) (zone : ZoneText z o) :
      Spells (d ++ mark :: (clock ++ (f ++ z))) m o
  | withOffset {d clock f z : Text} {m : Moment} {o : Int} (date : LooseDate d m.date)
      (time : LooseClock clock m) (fraction : FractionText f) (offset : LooseOffset z o) :
      Spells (d ++ 'T' :: (clock ++ (f ++ z))) m o
  | withoutZone {d clock f : Text} {m : Moment} (date : LooseDate d m.date)
      (time : LooseClock clock m) (fraction : FractionText f) :
      Spells (d ++ 'T' :: (clock ++ f)) m 0
  | spaced {d clock : Text} {m : Moment} (date : LooseDate d m.date) (time : LooseClock clock m)
      (apart : EndsRun Char.isDigit clock) : Spells (d ++ clock) m 0
  | joined {d clock : Text} {m : Moment}
      (date : DateText LooseYear (Spaced (UpTo 2)) (Spaced (Fixed 2)) d m.date)
      (time : LooseClock clock m) : Spells (d ++ clock) m 0

/-! ## Numbers -/

theorem isDigit_of_mem {t : Text} {n : Nat} (h : Numeral 10 t n) :
    ∀ c ∈ t, c.isDigit = true := by
  have digit : ∀ p ∈ digits, p.2 < 10 → p.1.isDigit = true := by decide
  induction h with
  | digit known small => simpa using digit _ known small
  | append front known small ih =>
      intro c mem
      rcases List.mem_append.1 mem with mem | mem
      · exact ih c mem
      · rw [List.mem_singleton.1 mem]
        exact digit _ known small

theorem digitsValue_eq {t : Text} {n : Nat} (h : Numeral 10 t n) : digitsValue t = n := by
  have value : ∀ p ∈ digits, p.2 < 10 → p.1.toNat - '0'.toNat = p.2 := by decide
  induction h with
  | digit known small => simpa [digitsValue] using value _ known small
  | append front known small ih =>
      rw [digitsValue, List.foldl_append, ← digitsValue, ih]
      simpa using value _ known small

theorem not_isDigit_of_isSpace {c : Char} (space : isSpace c = true) : c.isDigit = false := by
  by_contra digit
  obtain ⟨low, high⟩ := Char.isDigit_iff_toNat.1 (Bool.not_eq_false _ |>.mp digit)
  have zero : '0'.toNat = 48 := rfl
  have nine : '9'.toNat = 57 := rfl
  simp only [isSpace, Bool.or_eq_true, Bool.and_eq_true, decide_eq_true_eq, beq_iff_eq] at space
  omega

theorem fixed?_append {width n : Nat} {ds : Text} (h : Fixed width ds n) (rest : Text) :
    fixed? width (ds ++ rest) = some (n, rest) := by
  obtain ⟨length, number⟩ := h
  have all : ds.all Char.isDigit = true := List.all_eq_true.2 (isDigit_of_mem number)
  simp only [fixed?, ← length, List.take_left, List.drop_left, all, and_self, if_true,
    digitsValue_eq number]

/-- As many digits are taken as may be. -/
theorem upTo?_digits {width : Nat} {ds rest : Text} (length : ds.length ≤ width)
    (all : ∀ c ∈ ds, c.isDigit = true) (ne : ds ≠ [])
    (ends : ds.length = width ∨ EndsRun Char.isDigit rest) :
    upTo? width (ds ++ rest) = some (digitsValue ds, rest) := by
  have taken : ((ds ++ rest).take width).takeWhile Char.isDigit = ds := by
    rw [List.take_append, List.take_of_length_le length]
    refine takeWhile_run all fun c head => ?_
    rw [List.head?_take] at head
    split at head
    · cases head
    · next room =>
      rcases ends with full | stops
      · omega
      · exact stops c head
  have filled : ds.isEmpty = false := by simpa using ne
  simp only [upTo?, taken, filled, Bool.false_eq_true, if_false, List.drop_left]

theorem upTo?_append {width n : Nat} {ds rest : Text} (h : UpTo width ds n)
    (ends : ds.length = width ∨ EndsRun Char.isDigit rest) :
    upTo? width (ds ++ rest) = some (n, rest) := by
  rw [upTo?_digits h.1 (isDigit_of_mem h.2) h.2.ne_nil ends, digitsValue_eq h.2]

theorem not_isSpace_of_isDigit {c : Char} (digit : c.isDigit = true) : isSpace c = false :=
  Bool.eq_false_iff.2 fun space => by
    rw [not_isDigit_of_isSpace space] at digit
    cases digit

theorem trimStart_append {gap t : Text} (blank : Text.isBlank gap = true)
    (ends : EndsRun isSpace t) : Text.trimStart (gap ++ t) = t :=
  dropWhile_run (isSpace_of_mem blank) ends

theorem trimStart_cons {c : Char} (visible : isSpace c = false) (t : Text) :
    Text.trimStart (c :: t) = c :: t :=
  List.dropWhile_cons_of_neg (by simp [visible])

/-- A number starts with a digit. -/
theorem exists_digit {ds : Text} {n : Nat} (h : Numeral 10 ds n) :
    ∃ c more, ds = c :: more ∧ c.isDigit = true := by
  cases ds with
  | nil => exact absurd rfl h.ne_nil
  | cons c more => exact ⟨c, more, rfl, isDigit_of_mem h c List.mem_cons_self⟩

/-- White space before a number is passed over. -/
theorem trimStart_numeral {gap ds : Text} {n : Nat} (blank : Text.isBlank gap = true)
    (h : Numeral 10 ds n) (rest : Text) : Text.trimStart (gap ++ (ds ++ rest)) = ds ++ rest := by
  obtain ⟨c, more, rfl, digit⟩ := exists_digit h
  exact trimStart_append blank (endsRun_cons (not_isSpace_of_isDigit digit))

theorem short?_append {n : Nat} {t rest : Text} (h : Spaced (UpTo 2) t n)
    (ends : EndsRun Char.isDigit rest) : short? (t ++ rest) = some (n, rest) := by
  obtain ⟨gap, ds, rfl, blank, number⟩ := h
  rw [short?, List.append_assoc, trimStart_numeral blank number.2, upTo?_append number (.inr ends)]

/-- Two digits need nothing behind them to end. -/
theorem short?_append_of_fixed {n : Nat} {t : Text} (h : Spaced (Fixed 2) t n) (rest : Text) :
    short? (t ++ rest) = some (n, rest) := by
  obtain ⟨gap, ds, rfl, blank, length, number⟩ := h
  rw [short?, List.append_assoc, trimStart_numeral blank number,
    upTo?_append ⟨Nat.le_of_eq length, number⟩ (.inl length)]

/-- A year without a sign has at most four digits. -/
theorem year?_of_isDigit {c : Char} (digit : c.isDigit = true) (t : Text) :
    year? (c :: t) = (upTo? 4 (c :: t)).map fun (n, after) => ((n : Int), after) := by
  unfold year?
  rw [trimStart_cons (not_isSpace_of_isDigit digit)]
  split
  · next eq =>
    obtain ⟨rfl, -⟩ := List.cons.inj eq
    cases digit
  · next eq =>
    obtain ⟨rfl, -⟩ := List.cons.inj eq
    cases digit
  · rfl

theorem year?_append {year : Int} {t rest : Text} (h : LooseYear t year)
    (ends : EndsRun Char.isDigit rest) : year? (t ++ rest) = some (year, rest) := by
  have signed : ∀ {ds : Text} {n : Nat}, Numeral 10 ds n →
      upTo? (ds ++ rest).length (ds ++ rest) = some (n, rest) := fun number =>
    upTo?_append ⟨by simp, number⟩ (.inr ends)
  cases h with
  | plus number =>
      rw [List.cons_append, year?, trimStart_cons (by decide)]
      simp only [signed number, Option.map_some]
  | minus number =>
      rw [List.cons_append, year?, trimStart_cons (by decide)]
      simp only [signed number, Option.map_some]
  | unsigned number =>
      obtain ⟨c, more, rfl, digit⟩ := exists_digit number.2
      rw [List.cons_append, year?_of_isDigit digit, ← List.cons_append,
        upTo?_append number (.inr ends), Option.map_some]

/-! ## Dates and times of day -/

theorem mark?_cons (c : Char) (t : Text) : mark? c (c :: t) = some t := if_pos rfl

theorem mark?_eq_some_iff {c : Char} {t rest : Text} : mark? c t = some rest ↔ t = c :: rest := by
  cases t with
  | nil => simp [mark?]
  | cons d t =>
      simp only [mark?]
      split
      · next eq => simp [eq]
      · next ne => simp [ne]

/-- A date of the loose forms is read back, if its day is. -/
theorem looseDate?_append {day : Text → Nat → Prop} {t rest : Text} {d : Date}
    (h : DateText LooseYear (Spaced (UpTo 2)) day t d)
    (last : ∀ b, day b d.day → short? (b ++ rest) = some (d.day, rest)) :
    looseDate? (t ++ rest) = some (d, rest) := by
  obtain ⟨y, a, b, rfl, year, month, inMonth⟩ := h
  have hyphen : ∀ u, EndsRun Char.isDigit ('-' :: u) := fun _ => endsRun_cons (by decide)
  simp only [looseDate?, List.append_assoc, List.cons_append, year?_append year (hyphen _),
    short?_append month (hyphen _), last b inMonth, mark?_cons, Option.bind_eq_bind,
    Option.bind_some]

theorem looseTime?_append {t rest : Text} {m : Moment} (h : LooseClock t m)
    (valid : m.isValid = true) (ends : EndsRun Char.isDigit rest) :
    looseTime? m.date (t ++ rest) = some (m, rest) := by
  obtain ⟨a, b, c, rfl, hour, minute, second⟩ := h
  have colon : ∀ u, EndsRun Char.isDigit (':' :: u) := fun _ => endsRun_cons (by decide)
  simp only [looseTime?, List.append_assoc, List.cons_append, short?_append hour (colon _),
    short?_append minute (colon _), short?_append second ends, mark?_cons, existing?, valid,
    if_true, Option.bind_eq_bind, Option.bind_some]

theorem fraction?_append {f rest : Text} (h : FractionText f) (ends : EndsRun Char.isDigit rest)
    (noPoint : rest.head? ≠ some '.') : fraction? (f ++ rest) = some rest := by
  cases h with
  | none =>
      unfold fraction?
      split
      · next eq => exact absurd (by simp_all) noPoint
      · rfl
  | some number =>
      obtain ⟨c, more, rfl, digit⟩ := exists_digit number
      have others := dropWhile_run (isDigit_of_mem number) ends
      simp only [List.cons_append] at others
      simp only [fraction?, List.cons_append, digit, if_true, others]

theorem fullMoment?_append {d clock rest : Text} {mark : Char} {m : Moment}
    (date : DateText FullYear (Fixed 2) (Fixed 2) d m.date)
    (between : mark = 'T' ∨ mark = 't' ∨ mark = ' ') (time : ClockText (Fixed 2) clock m)
    (valid : m.isValid = true) : fullMoment? (d ++ mark :: (clock ++ rest)) = some (m, rest) := by
  obtain ⟨y, a, b, rfl, ⟨n, year, eq⟩, month, day⟩ := date
  obtain ⟨h, i, s, rfl, hour, minute, second⟩ := time
  have found : existing? ⟨⟨n, m.date.month, m.date.day⟩, m.hour, m.minute, m.second⟩ = some m := by
    rw [← eq]
    exact if_pos valid
  have marked : ∀ t : Text,
      (mark? 'T' (mark :: t) <|> mark? 't' (mark :: t) <|> mark? ' ' (mark :: t)) = some t := by
    rcases between with rfl | rfl | rfl <;> exact fun _ => rfl
  simp only [fullMoment?, List.append_assoc, List.cons_append, Option.bind_eq_bind,
    Option.bind_eq_some_iff, Prod.exists]
  exact ⟨n, _, fixed?_append year _, _, mark?_cons _ _, _, _, fixed?_append month _,
    _, mark?_cons _ _, _, _, fixed?_append day _, _, marked _, _, _, fixed?_append hour _,
    _, mark?_cons _ _, _, _, fixed?_append minute _, _, mark?_cons _ _, _, _,
    fixed?_append second _, m, found, rfl⟩

/-! ## Offsets -/

theorem Sign.read {c : Char} {unit : Int} (h : Sign c unit) (t : Text) :
    sign? (c :: t) = some (unit, t) := by
  cases h <;> rfl

/-- A sign is no letter, no digit, no white space and no point. -/
theorem Sign.apart {c : Char} {unit : Int} (h : Sign c unit) :
    c ≠ 'Z' ∧ c ≠ 'z' ∧ c ≠ '.' ∧ c.isDigit = false ∧ isSpace c = false := by
  cases h <;> decide

theorem offset_eq {unit : Int} {hours minutes : Nat} (day : hours < 24) (hour : minutes < 60) :
    offset unit hours minutes = some (unit * (hours * 60 + minutes : Nat)) :=
  if_pos ⟨day, hour⟩

theorem zone?_eq {z : Text} {o : Int} (h : ZoneText z o) : zone? z = some o := by
  cases h with
  | utc letter => rcases letter with rfl | rfl <;> rfl
  | offset h =>
      cases h with
      | @signed c unit a mark b hours minutes sign first apart second day hour =>
          subst apart
          have two : fixed? 2 b = some (minutes, []) := by simpa using fixed?_append second []
          obtain ⟨noZ, noz, -⟩ := sign.apart
          unfold zone?
          split
          · next eq => exact absurd (List.cons.inj eq).1 noZ
          · next eq => exact absurd (List.cons.inj eq).1 noz
          · simp only [sign.read, fixed?_append first, List.cons_append, List.nil_append,
              mark?_cons, two, List.isEmpty_nil, if_true, offset_eq day hour, Option.bind_eq_bind,
              Option.bind_some]

theorem looseOffset?_eq {z : Text} {o : Int} (h : LooseOffset z o) : looseOffset? z = some o := by
  obtain ⟨gap, z, rfl, blank, signed⟩ := h
  cases signed with
  | @signed c unit a mark b hours minutes sign first apart second day hour =>
      have two : fixed? 2 b = some (minutes, []) := by simpa using fixed?_append second []
      have start : Text.trimStart (gap ++ c :: (a ++ (mark ++ b))) = c :: (a ++ (mark ++ b)) :=
        trimStart_append blank (endsRun_cons sign.apart.2.2.2.2)
      have minutesBehind : (mark ++ b).dropWhile (fun c => c == ':' || isSpace c) = b := by
        obtain ⟨d, more, rfl, digit⟩ := exists_digit second.2
        refine dropWhile_run apart (endsRun_cons ?_)
        have noColon : d ≠ ':' := fun eq => by
          subst eq
          cases digit
        simp [noColon, not_isSpace_of_isDigit digit]
      simp only [looseOffset?, start, sign.read, fixed?_append first, minutesBehind, two,
        List.isEmpty_nil, if_true, offset_eq day hour, Option.bind_eq_bind, Option.bind_some]

/-- What ends the second of a time of day and its fraction. -/
def EndsTime (rest : Text) : Prop := EndsRun Char.isDigit rest ∧ rest.head? ≠ some '.'

theorem endsTime_nil : EndsTime [] := ⟨fun _ head => absurd head (by simp), by simp⟩

theorem endsTime_cons {c : Char} (noDigit : c.isDigit = false) (noPoint : c ≠ '.') (t : Text) :
    EndsTime (c :: t) :=
  ⟨endsRun_cons noDigit, fun head => noPoint (Option.some.inj head)⟩

theorem OffsetText.endsTime {between : Text → Prop} {z : Text} {o : Int}
    (h : OffsetText between z o) : EndsTime z := by
  cases h with
  | signed sign _ _ _ _ _ =>
      obtain ⟨-, -, noPoint, noDigit, -⟩ := sign.apart
      exact endsTime_cons noDigit noPoint _

theorem ZoneText.endsTime {z : Text} {o : Int} (h : ZoneText z o) : EndsTime z := by
  cases h with
  | utc letter => rcases letter with rfl | rfl <;> exact endsTime_cons (by decide) (by decide) []
  | offset h => exact h.endsTime

theorem LooseOffset.endsTime {z : Text} {o : Int} (h : LooseOffset z o) : EndsTime z := by
  obtain ⟨gap, z, rfl, blank, signed⟩ := h
  cases gap with
  | nil => exact signed.endsTime
  | cons c gap =>
      have space := isSpace_of_mem blank c List.mem_cons_self
      refine endsTime_cons (not_isDigit_of_isSpace space) ?_ _
      rintro rfl
      cases space

theorem FractionText.endsRun {f rest : Text} (h : FractionText f) (ends : EndsTime rest) :
    EndsRun Char.isDigit (f ++ rest) := by
  cases h with
  | none => exact ends.1
  | some _ => exact endsRun_cons (by decide)

/-- An offset is less than a day. -/
theorem OffsetText.bounds {between : Text → Prop} {z : Text} {o : Int}
    (h : OffsetText between z o) : -Moment.dayMinutes < o ∧ o < Moment.dayMinutes := by
  cases h with
  | signed sign _ _ _ day hour =>
      simp only [Moment.dayMinutes]
      cases sign <;> constructor <;> omega

theorem Spells.bounds {t : Text} {m : Moment} {o : Int} (h : Spells t m o) :
    -Moment.dayMinutes < o ∧ o < Moment.dayMinutes := by
  have none : -Moment.dayMinutes < 0 ∧ 0 < Moment.dayMinutes := by decide
  cases h with
  | internet _ _ _ _ zone =>
      cases zone with
      | utc _ => exact none
      | offset h => exact h.bounds
  | withOffset _ _ _ offset =>
      obtain ⟨_, _, -, -, h⟩ := offset
      exact h.bounds
  | withoutZone _ _ _ => exact none
  | spaced _ _ _ => exact none
  | joined _ _ => exact none

/-! ## Each spelling has its form -/

theorem looseMoment?_append {d clock f rest : Text} {m : Moment} (date : LooseDate d m.date)
    (time : LooseClock clock m) (fraction : FractionText f) (valid : m.isValid = true)
    (ends : EndsTime rest) :
    looseMoment? (d ++ 'T' :: (clock ++ (f ++ rest))) = some (m, rest) := by
  have mark : EndsRun Char.isDigit ('T' :: (clock ++ (f ++ rest))) := endsRun_cons (by decide)
  simp only [looseMoment?, looseDate?_append date fun b h => short?_append h mark, mark?_cons,
    looseTime?_append time valid (fraction.endsRun ends), fraction?_append fraction ends.1 ends.2,
    Option.bind_eq_bind, Option.bind_some]

/-- White space before the time of day is passed over. -/
theorem looseClock_trimStart {t : Text} {m : Moment} (h : LooseClock t m) :
    LooseClock (Text.trimStart t) m := by
  obtain ⟨a, b, c, rfl, ⟨gap, ds, rfl, blank, number⟩, minute, second⟩ := h
  rw [List.append_assoc, trimStart_numeral blank number.2]
  exact ⟨ds, b, c, rfl, ⟨[], ds, rfl, rfl, number⟩, minute, second⟩

theorem spaced?_append {day : Text → Nat → Prop} {d clock : Text} {m : Moment}
    (date : DateText LooseYear (Spaced (UpTo 2)) day d m.date) (time : LooseClock clock m)
    (valid : m.isValid = true)
    (last : ∀ b, day b m.date.day → short? (b ++ clock) = some (m.date.day, clock)) :
    spaced? (d ++ clock) = some m := by
  have read := looseTime?_append (looseClock_trimStart time) valid endsTime_nil.1
  rw [List.append_nil] at read
  simp only [spaced?, looseDate?_append date last, read, List.isEmpty_nil, if_true,
    Option.bind_eq_bind, Option.bind_some]

/-- The four forms, in the order in which they are tried. -/
def forms : List (Text → Option Moment) := [internet?, withOffset?, withoutZone?, spaced?]

/-- One of the forms accepts a spelling, and takes its offset off. -/
theorem Spells.exists_form {t : Text} {m : Moment} {o : Int} (h : Spells t m o)
    (valid : m.isValid = true) : ∃ form ∈ forms, form t = m.later? (-o) := by
  have still := m.later?_zero valid
  cases h with
  | internet date between time fraction zone =>
      have ends := zone.endsTime
      refine ⟨internet?, by simp [forms], ?_⟩
      simp only [internet?, fullMoment?_append date between time valid,
        fraction?_append fraction ends.1 ends.2, zone?_eq zone, Option.bind_eq_bind,
        Option.bind_some]
  | withOffset date time fraction offset =>
      refine ⟨withOffset?, by simp [forms], ?_⟩
      simp only [withOffset?, looseMoment?_append date time fraction valid offset.endsTime,
        looseOffset?_eq offset, Option.bind_eq_bind, Option.bind_some]
  | withoutZone date time fraction =>
      have read := looseMoment?_append date time fraction valid endsTime_nil
      rw [List.append_nil] at read
      refine ⟨withoutZone?, by simp [forms], ?_⟩
      simp only [withoutZone?, read, List.isEmpty_nil, if_true, Option.bind_eq_bind,
        Option.bind_some, Int.neg_zero, still]
  | spaced date time apart =>
      refine ⟨spaced?, by simp [forms], ?_⟩
      rw [spaced?_append date time valid fun _ h => short?_append h apart, Int.neg_zero, still]
  | joined date time =>
      refine ⟨spaced?, by simp [forms], ?_⟩
      rw [spaced?_append date time valid fun _ h => short?_append_of_fixed h _, Int.neg_zero, still]

end Wikidown.Timestamp
