/-
# Wikidown.Proofs.Timestamps -- one instant, one text

The four forms of a timestamp are tried in an order, but the order decides nothing: two forms
that accept the same text read the same moment (`forms_agree`).  Form 1 is form 2 in full
widths, and no other two accept a text in common, since form 1 and 2 need a zone where the others
end, and a letter stands where form 4 has the hour.  So whichever form a spelling has, its moment
is the one that is read (`read?_of_form`), and with both halves of the grammar a text is read
exactly if it is a spelling (`read?_eq_some_iff`).

With the calendar of `Instants` this gives the main statement, `format?_spelling`: what is shown
is the moment whose instant is that of the spelled one less its offset.
-/
import Wikidown.Proofs.Edges
import Wikidown.Proofs.JsonWords
import Wikidown.Proofs.TimestampForms
import Mathlib.Data.List.Pairwise
import Mathlib.Data.List.DropRight

namespace Wikidown.Timestamp

set_option autoImplicit false

open Calendar (Date Moment)
open Markup (Numeral)
open Text (EndsVisibly OpensAt opensAt_zero_cons endsRun_cons dropWhile_run isSpace_of_mem)

/-! ## Form 1 as the loose readers take it -/

theorem DateText.mono {year year' : Text → Int → Prop} {month month' day day' : Text → Nat → Prop}
    {t : Text} {d : Date} (h : DateText year month day t d) (years : ∀ y n, year y n → year' y n)
    (months : ∀ a n, month a n → month' a n) (days : ∀ b n, day b n → day' b n) :
    DateText year' month' day' t d := by
  obtain ⟨y, a, b, eq, inYear, inMonth, inDay⟩ := h
  exact ⟨y, a, b, eq, years y _ inYear, months a _ inMonth, days b _ inDay⟩

theorem ClockText.mono {number number' : Text → Nat → Prop} {t : Text} {m : Moment}
    (h : ClockText number t m) (numbers : ∀ a n, number a n → number' a n) :
    ClockText number' t m := by
  obtain ⟨a, b, c, eq, hour, minute, second⟩ := h
  exact ⟨a, b, c, eq, numbers a _ hour, numbers b _ minute, numbers c _ second⟩

theorem looseYear_of_fullYear {t : Text} {year : Int} (h : FullYear t year) : LooseYear t year := by
  obtain ⟨n, ⟨length, number⟩, rfl⟩ := h
  exact .unsigned ⟨Nat.le_of_eq length, number⟩

theorem spaced_of_written {number : Text → Nat → Prop} {t : Text} {n : Nat} (h : number t n) :
    Spaced number t n := ⟨[], t, rfl, rfl, h⟩

theorem upTo_of_fixed {width n : Nat} {t : Text} (h : Fixed width t n) : UpTo width t n :=
  ⟨Nat.le_of_eq h.1, h.2⟩

/-- The Internet form is read by the loose readers as well, but for the mark between the date and
the time of day. -/
theorem internet?_loosely {t : Text} {r : Moment} (h : internet? t = some r) :
    ∃ m mark u rest z o, (mark = 'T' ∨ mark = 't' ∨ mark = ' ') ∧
      looseDate? t = some (m.date, mark :: u) ∧ looseTime? m.date u = some (m, rest) ∧
      fraction? rest = some z ∧ ZoneText z o ∧ m.later? (-o) = some r := by
  obtain ⟨d, clock, f, z, mark, m, o, rfl, valid, date, between, time, fraction, zone, moved⟩ :=
    internet?_inv h
  have short : ∀ a n, Fixed 2 a n → Spaced (UpTo 2) a n := fun _ _ full =>
    spaced_of_written (upTo_of_fixed full)
  have looseDate : DateText LooseYear (Spaced (UpTo 2)) (Spaced (Fixed 2)) d m.date :=
    date.mono (fun _ _ => looseYear_of_fullYear) short fun _ _ => spaced_of_written
  refine ⟨m, mark, clock ++ (f ++ z), f ++ z, z, o, between, ?_, ?_, ?_, zone, moved⟩
  · exact looseDate?_append looseDate fun _ inDay => short?_append_of_fixed inDay _
  · exact looseTime?_append (time.mono short) valid (fraction.endsRun zone.endsTime)
  · exact fraction?_append fraction zone.endsTime.1 zone.endsTime.2

/-! ## Two forms on one text -/

theorem ZoneText.ne_nil {z : Text} {o : Int} (h : ZoneText z o) : z ≠ [] := by
  rintro rfl
  cases h with
  | offset h => cases h

theorem looseOffset?_nil : looseOffset? [] = none := rfl

/-- White space before a time of day makes no difference. -/
theorem looseTime?_trimStart (date : Date) (t : Text) :
    looseTime? date (Text.trimStart t) = looseTime? date t := by
  have again : Text.trimStart (Text.trimStart t) = Text.trimStart t :=
    List.dropWhile_idempotent isSpace t
  simp only [looseTime?, short?, again]

/-- A time of day starts with no letter. -/
theorem looseTime?_letter {c : Char} (noDigit : c.isDigit = false) (visible : isSpace c = false)
    (date : Date) (u : Text) : looseTime? date (c :: u) = none := by
  simp [looseTime?, short?, trimStart_cons visible, upTo?, noDigit]

theorem OffsetText.mono {between between' : Text → Prop} {t : Text} {o : Int}
    (h : OffsetText between t o) (wider : ∀ mark, between mark → between' mark) :
    OffsetText between' t o := by
  cases h with
  | signed sign first apart second day hour =>
      exact .signed sign first (wider _ apart) second day hour

/-- A zone of the Internet form is read the same in the loose form, if it is read there at all. -/
theorem looseOffset?_of_zoneText {z : Text} {o o' : Int} (h : ZoneText z o)
    (h' : looseOffset? z = some o') : o = o' := by
  cases h with
  | utc letter =>
      rcases letter with rfl | rfl <;> cases h'
  | offset h =>
      have loose : LooseOffset z o := ⟨[], z, rfl, rfl, h.mono fun mark colon => by
        rw [colon]
        exact List.all_eq_true.1 rfl⟩
      exact Option.some.inj ((looseOffset?_eq loose).symm.trans h')

/-- Two forms that accept the same text read the same moment from it. -/
def Agree (f g : Text → Option Moment) : Prop := ∀ t a b, f t = some a → g t = some b → a = b

theorem internet?_agrees_withOffset? : Agree internet? withOffset? := by
  intro t a b h h'
  obtain ⟨m, mark, u, rest, z, o, -, date, time, fraction, zone, moved⟩ := internet?_loosely h
  obtain ⟨m', z', o', read, offset, moved'⟩ := withOffset?_inv h'
  obtain ⟨u', rest', date', time', fraction'⟩ := looseMoment?_inv read
  obtain ⟨sameDate, sameText⟩ := Prod.mk.inj (Option.some.inj (date.symm.trans date'))
  obtain rfl := (List.cons.inj sameText).2
  rw [← sameDate] at time'
  obtain ⟨rfl, rfl⟩ := Prod.mk.inj (Option.some.inj (time.symm.trans time'))
  obtain rfl := Option.some.inj (fraction.symm.trans fraction')
  obtain rfl := looseOffset?_of_zoneText zone offset
  exact Option.some.inj (moved.symm.trans moved')

/-- Form 3 ends where form 1 has its zone. -/
theorem internet?_agrees_withoutZone? : Agree internet? withoutZone? := by
  intro t a b h h'
  obtain ⟨m, mark, u, rest, z, o, -, date, time, fraction, zone, -⟩ := internet?_loosely h
  obtain ⟨u', rest', date', time', fraction'⟩ := looseMoment?_inv (withoutZone?_inv h')
  obtain ⟨sameDate, sameText⟩ := Prod.mk.inj (Option.some.inj (date.symm.trans date'))
  obtain rfl := (List.cons.inj sameText).2
  rw [← sameDate] at time'
  obtain ⟨-, rfl⟩ := Prod.mk.inj (Option.some.inj (time.symm.trans time'))
  obtain rfl := Option.some.inj (fraction.symm.trans fraction')
  exact absurd rfl zone.ne_nil

/-- A letter is no time of day, and behind a space form 4 ends where form 1 has its zone. -/
theorem internet?_agrees_spaced? : Agree internet? spaced? := by
  intro t a b h h'
  obtain ⟨m, mark, u, rest, z, o, known, date, time, fraction, zone, -⟩ := internet?_loosely h
  obtain ⟨u', date', time'⟩ := spaced?_inv h'
  obtain ⟨sameDate, rfl⟩ := Prod.mk.inj (Option.some.inj (date.symm.trans date'))
  rw [looseTime?_trimStart] at time'
  rcases known with rfl | rfl | rfl
  · rw [looseTime?_letter (by decide) (by decide)] at time'
    cases time'
  · rw [looseTime?_letter (by decide) (by decide)] at time'
    cases time'
  · have blank : Text.trimStart (' ' :: u) = Text.trimStart u := rfl
    rw [← looseTime?_trimStart, blank, looseTime?_trimStart, ← sameDate] at time'
    obtain ⟨-, rfl⟩ := Prod.mk.inj (Option.some.inj (time.symm.trans time'))
    obtain rfl : [] = z := Option.some.inj fraction
    exact absurd rfl zone.ne_nil

theorem withOffset?_agrees_withoutZone? : Agree withOffset? withoutZone? := by
  intro t a b h h'
  obtain ⟨m, z, o, read, offset, -⟩ := withOffset?_inv h
  obtain ⟨-, rfl⟩ := Prod.mk.inj (Option.some.inj (read.symm.trans (withoutZone?_inv h')))
  rw [looseOffset?_nil] at offset
  cases offset

/-- Where a `T` stands form 4 has the hour. -/
theorem looseMoment?_apart_spaced? {t z : Text} {m r : Moment} (h : looseMoment? t = some (m, z)) :
    spaced? t ≠ some r := by
  intro h'
  obtain ⟨u, rest, date, -, -⟩ := looseMoment?_inv h
  obtain ⟨u', date', time'⟩ := spaced?_inv h'
  obtain ⟨-, rfl⟩ := Prod.mk.inj (Option.some.inj (date.symm.trans date'))
  rw [looseTime?_trimStart, looseTime?_letter (by decide) (by decide)] at time'
  cases time'

theorem withOffset?_agrees_spaced? : Agree withOffset? spaced? := by
  intro t a b h h'
  obtain ⟨m, z, o, read, -, -⟩ := withOffset?_inv h
  exact absurd h' (looseMoment?_apart_spaced? read)

theorem withoutZone?_agrees_spaced? : Agree withoutZone? spaced? := fun _ _ _ h h' =>
  absurd h' (looseMoment?_apart_spaced? (withoutZone?_inv h))

/-- Whichever forms accept a text, they agree. -/
theorem forms_agree : ∀ f ∈ forms, ∀ g ∈ forms, Agree f g := by
  have symmetric : Std.Symm Agree := ⟨fun f g agree t a b h h' => (agree t b a h' h).symm⟩
  have reflexive : ∀ f ∈ forms, Agree f f := fun f _ t a b h h' =>
    Option.some.inj (h.symm.trans h')
  have pairs : forms.Pairwise Agree := by
    simp only [forms, List.pairwise_cons, List.mem_cons, List.not_mem_nil, or_false,
      forall_eq_or_imp, forall_eq, IsEmpty.forall_iff, implies_true, List.Pairwise.nil, and_true]
    exact ⟨⟨internet?_agrees_withOffset?, internet?_agrees_withoutZone?, internet?_agrees_spaced?⟩,
      ⟨withOffset?_agrees_withoutZone?, withOffset?_agrees_spaced?⟩, withoutZone?_agrees_spaced?⟩
  exact fun f mem g mem' => pairs.forall_of_forall reflexive mem mem'

theorem read?_eq (t : Text) : read? t = forms.findSome? fun form => form (Text.trim t) := by
  simp only [read?, forms, List.findSome?_cons, List.findSome?_nil, Option.orElse_eq_orElse,
    Option.orElse_eq_or]
  cases internet? (Text.trim t) <;> cases withOffset? (Text.trim t) <;>
    cases withoutZone? (Text.trim t) <;> cases spaced? (Text.trim t) <;> rfl

/-- What one of the forms accepts is what is read. -/
theorem read?_of_form {form : Text → Option Moment} (known : form ∈ forms) {t : Text} {r : Moment}
    (h : form (Text.trim t) = some r) : read? t = some r := by
  rw [read?_eq]
  cases found : forms.findSome? fun form => form (Text.trim t) with
  | none =>
      rw [List.findSome?_eq_none_iff] at found
      rw [found form known] at h
      cases h
  | some r' =>
      obtain ⟨other, known', h'⟩ := List.exists_of_findSome?_eq_some found
      rw [forms_agree other known' form known _ _ _ h' h]

/-! ## White space around a spelling -/

theorem endsVisibly_numeral {ds : Text} {n : Nat} (h : Numeral 10 ds n) : EndsVisibly ds := by
  have digit := isDigit_of_mem h
  cases h with
  | @digit c _ _ _ => exact ⟨[], c, rfl, not_isSpace_of_isDigit (digit c (by simp))⟩
  | @append front _ c _ _ _ _ => exact ⟨front, c, rfl, not_isSpace_of_isDigit (digit c (by simp))⟩

theorem endsVisibly_offsetText {mark : Text → Prop} {z : Text} {o : Int}
    (h : OffsetText mark z o) : EndsVisibly z := by
  cases h with
  | signed _ _ _ second _ _ =>
      exact (((endsVisibly_numeral second.2).append _).append _).cons _

theorem endsVisibly_zone {z : Text} {o : Int} (h : ZoneText z o) : EndsVisibly z := by
  cases h with
  | @utc c letter => exact ⟨[], c, rfl, by rcases letter with rfl | rfl <;> decide⟩
  | offset h => exact endsVisibly_offsetText h

theorem endsVisibly_clock {number : Text → Nat → Prop} {t : Text} {m : Moment}
    (h : ClockText number t m) (last : ∀ c, number c m.second → EndsVisibly c) : EndsVisibly t := by
  obtain ⟨a, b, c, rfl, -, -, second⟩ := h
  exact ((((last c second).cons ':').append b).cons ':').append a

theorem endsVisibly_loose {t : Text} {n : Nat} (h : Spaced (UpTo 2) t n) : EndsVisibly t := by
  obtain ⟨gap, ds, rfl, -, number⟩ := h
  exact (endsVisibly_numeral number.2).append gap

theorem Spells.endsVisibly {t : Text} {m : Moment} {o : Int} (h : Spells t m o) :
    EndsVisibly t := by
  cases h with
  | internet _ _ _ _ zone => exact ((((endsVisibly_zone zone).append _).append _).cons _).append _
  | withOffset _ _ _ offset =>
      obtain ⟨gap, z, rfl, -, h⟩ := offset
      exact (((((endsVisibly_offsetText h).append _).append _).append _).cons _).append _
  | withoutZone _ time fraction =>
      cases fraction with
      | none =>
          rw [List.append_nil]
          exact ((endsVisibly_clock time fun _ => endsVisibly_loose).cons _).append _
      | some number => exact ((((endsVisibly_numeral number).cons _).append _).cons _).append _
  | spaced _ time _ => exact (endsVisibly_clock time fun _ => endsVisibly_loose).append _
  | joined _ time => exact (endsVisibly_clock time fun _ => endsVisibly_loose).append _

theorem opensAt_numeral {ds : Text} {n : Nat} (h : Numeral 10 ds n) : OpensAt 0 ds := by
  obtain ⟨c, more, rfl, digit⟩ := exists_digit h
  exact opensAt_zero_cons more (not_isSpace_of_isDigit digit)

theorem opensAt_date {year : Text → Int → Prop} {month day : Text → Nat → Prop} {t : Text}
    {d : Date} (h : DateText year month day t d) (first : ∀ y, year y d.year → OpensAt 0 y) :
    OpensAt 0 t := by
  obtain ⟨y, a, b, rfl, inYear, -, -⟩ := h
  exact (first y inYear).append _

theorem opensAt_looseYear {t : Text} {year : Int} (h : LooseYear t year) : OpensAt 0 t := by
  cases h with
  | unsigned number => exact opensAt_numeral number.2
  | plus _ => exact opensAt_zero_cons _ (by decide)
  | minus _ => exact opensAt_zero_cons _ (by decide)

theorem Spells.opensAt {t : Text} {m : Moment} {o : Int} (h : Spells t m o) : OpensAt 0 t := by
  have loose : ∀ y, LooseYear y m.date.year → OpensAt 0 y := fun _ => opensAt_looseYear
  cases h with
  | internet date _ _ _ _ =>
      exact (opensAt_date date fun _ ⟨_, number, _⟩ => opensAt_numeral number.2).append _
  | withOffset date _ _ _ => exact (opensAt_date date loose).append _
  | withoutZone date _ _ => exact (opensAt_date date loose).append _
  | spaced date _ _ => exact (opensAt_date date loose).append _
  | joined date _ => exact (opensAt_date date loose).append _

/-- White space around a text that starts and ends visibly is cut off, and nothing else. -/
theorem trim_around {before t after : Text} (blank : Text.isBlank before = true)
    (blank' : Text.isBlank after = true) (opens : OpensAt 0 t) (ends : EndsVisibly t) :
    Text.trim (before ++ (t ++ after)) = t := by
  have start : Text.trimStart (before ++ (t ++ after)) = t ++ after := by
    obtain ⟨c, rest, rfl, visible⟩ := opens
    exact trimStart_append blank (endsRun_cons visible)
  obtain ⟨front, c, rfl, visible⟩ := ends
  have spaces : ∀ d ∈ after.reverse, isSpace d = true := fun d mem =>
    isSpace_of_mem blank' d (List.mem_reverse.1 mem)
  rw [Text.trim, start, Text.trimEnd, Text.dropEndWhile, List.reverse_append,
    dropWhile_run spaces, List.reverse_reverse]
  rw [List.reverse_concat]
  exact endsRun_cons visible

/-! ## What is shown -/

/-- A number in at least `width` digits, with leading zeros only up to that width. -/
def AtLeast (width : Nat) (t : Text) (n : Nat) : Prop :=
  Numeral 10 t n ∧ width ≤ t.length ∧ (width < t.length → t.head? ≠ some '0')

/-- A year as it is shown: with a sign exactly outside the years 0 to 9999. -/
inductive ShownYear : Text → Int → Prop where
  | unsigned {ds : Text} {n : Nat} (h : AtLeast 4 ds n) (last : n ≤ 9999) : ShownYear ds n
  | plus {ds : Text} {n : Nat} (h : AtLeast 4 ds n) (after : 9999 < n) : ShownYear ('+' :: ds) n
  | minus {ds : Text} {n : Nat} (h : AtLeast 4 ds n) (before : 0 < n) : ShownYear ('-' :: ds) (-n)

/-- A text shows a moment to the second, each field in its full width. -/
def Shown (t : Text) (m : Moment) : Prop :=
  ∃ d clock, t = d ++ ' ' :: clock ∧ DateText ShownYear (Fixed 2) (Fixed 2) d m.date ∧
    ClockText (Fixed 2) clock m

theorem numeral_toDigits (n : Nat) : Numeral 10 (Nat.toDigits 10 n) n := by
  have digit : ∀ d < 10, (d.digitChar, d) ∈ Markup.digits := by decide
  induction n using Nat.strongRecOn with
  | _ n ih =>
    by_cases small : n < 10
    · rw [Nat.toDigits_of_lt_base small]
      exact .digit (digit n small) small
    · have more : Nat.toDigits 10 n = Nat.toDigits 10 (n / 10) ++ [(n % 10).digitChar] :=
        Nat.toDigits_of_base_le (by decide) (by omega)
      have rest : n % 10 < 10 := Nat.mod_lt n (by decide)
      have whole : n / 10 * 10 + n % 10 = n := by omega
      have step := (ih (n / 10) (by omega)).append (digit _ rest) rest
      rwa [← more, whole] at step

/-- Leading zeros do not count. -/
theorem numeral_zeros {ds : Text} {n : Nat} (h : Numeral 10 ds n) (k : Nat) :
    Numeral 10 (List.replicate k '0' ++ ds) n := by
  have zero : ('0', 0) ∈ Markup.digits := by decide
  induction k with
  | zero => exact h
  | succ k ih =>
      rw [List.replicate_succ, List.cons_append]
      generalize List.replicate k '0' ++ ds = t at ih
      clear h
      induction ih with
      | @digit c d known small =>
          have two := Numeral.append (.digit zero (by decide)) known small
          simpa using two
      | append _ known small ih => exact ih.append known small

theorem atLeast_padded (width n : Nat) (positive : 0 < width) :
    AtLeast width (padded width n) n := by
  refine ⟨numeral_zeros (numeral_toDigits n) _, ?_, fun longer => ?_⟩
  · simp only [padded, List.length_append, List.length_replicate]
    omega
  · have unpadded : width - (Nat.toDigits 10 n).length = 0 := by
      simp only [padded, List.length_append, List.length_replicate] at longer
      omega
    simp only [padded, unpadded, List.replicate_zero, List.nil_append] at longer ⊢
    intro head
    rw [(Json.wholeText_toDigits n).2 head, List.length_singleton] at longer
    omega

/-- A number below a hundred is shown in two digits. -/
theorem fixed_padded {n : Nat} (small : n < 100) : Fixed 2 (padded 2 n) n := by
  have length : ∀ k < 100, (padded 2 k).length = 2 := by decide
  exact ⟨length n small, (atLeast_padded 2 n (by decide)).1⟩

theorem shownYear_showYear (year : Int) : ShownYear (showYear year) year := by
  have four := fun n => atLeast_padded 4 n (by decide)
  unfold showYear
  split
  · next before =>
    have value : -(year.natAbs : Int) = year := by omega
    have shown : ShownYear ('-' :: padded 4 year.natAbs) (-(year.natAbs : Int)) :=
      .minus (four _) (by omega)
    rwa [value] at shown
  · next first =>
    have value : (year.natAbs : Int) = year := by omega
    split
    · next last =>
      have shown : ShownYear (padded 4 year.natAbs) year.natAbs := .unsigned (four _) (by omega)
      rwa [value] at shown
    · next after =>
      have shown : ShownYear ('+' :: padded 4 year.natAbs) year.natAbs := .plus (four _) (by omega)
      rwa [value] at shown

theorem shown_showMoment {m : Moment} (h : m.Exists) : Shown (showMoment m) m := by
  obtain ⟨⟨month_pos, month_le, day_pos, day_le⟩, hour_lt, minute_lt, second_le⟩ := h
  have day_lt : m.date.day < 100 := by
    have := Calendar.monthLength_le m.date.year m.date.month
    omega
  refine ⟨_, _, by rw [showMoment, List.append_assoc, List.append_assoc, List.cons_append,
    List.cons_append], ⟨_, _, _, by rw [showDate, List.append_assoc, List.cons_append],
    shownYear_showYear _, fixed_padded (by omega), fixed_padded day_lt⟩,
    ⟨_, _, _, by simp, fixed_padded (by omega), fixed_padded (by omega), fixed_padded (by omega)⟩⟩

/-! ## The moment that is shown -/

/-- A moment in the years 0 to 9999 that is no leap second. -/
structure InRange (m : Moment) : Prop where
  inCalendar : m.Exists
  second_lt : m.second < 60
  first : 0 ≤ m.date.year
  last : m.date.year ≤ 9999

theorem InRange.isValid {m : Moment} (h : InRange m) : m.isValid = true := by
  have := h.first
  have := h.last
  rw [Moment.isValid_iff]
  refine ⟨?_, h.inCalendar⟩
  simp only [Date.firstYear, Date.lastYear]
  omega

/-- The text, with white space around it, spells a moment in range at an offset of `o` minutes. -/
def Denotes (t : Text) (m : Moment) (o : Int) : Prop :=
  ∃ before core after, t = before ++ (core ++ after) ∧ Text.isBlank before = true ∧
    Text.isBlank after = true ∧ Spells core m o ∧ InRange m

/-- What is read is the moment that the text spells, less its offset. -/
theorem read?_eq_some_iff {t : Text} {r : Moment} : read? t = some r ↔
    ∃ m o, Spells (Text.trim t) m o ∧ m.isValid = true ∧ m.later? (-o) = some r := by
  constructor
  · intro h
    rw [read?_eq] at h
    obtain ⟨form, known, read⟩ := List.exists_of_findSome?_eq_some h
    exact spells_of_form known (Text.trimStart_trim t) read
  · rintro ⟨m, o, spells, valid, moved⟩
    obtain ⟨form, known, read⟩ := spells.exists_form valid
    exact read?_of_form known (read.trans moved)

/-- A spelling is read as the moment whose instant is that of the spelled one less the offset. -/
theorem read?_of_denotes {t : Text} {m : Moment} {o : Int} (h : Denotes t m o) :
    ∃ r : Moment, r.Exists ∧ r.second < 60 ∧ r.instant = m.instant - o * 60 ∧ read? t = some r := by
  obtain ⟨before, core, after, rfl, blank, blank', spells, range⟩ := h
  obtain ⟨above, below⟩ := spells.bounds
  obtain ⟨r, moved, inCalendar, second, instant⟩ := range.inCalendar.instant_later? range.first
    range.last (Int.neg_lt_neg below) (by omega)
  have core := trim_around blank blank' spells.opensAt spells.endsVisibly
  exact ⟨r, inCalendar, second ▸ range.second_lt, by omega,
    read?_eq_some_iff.2 ⟨m, o, core.symm ▸ spells, range.isValid, moved⟩⟩

/-- Only spellings are read.  Every spelling of a moment at an offset shows the moment whose
instant is that of the spelled one less the offset, which is the moment itself where there is none.
So two spellings of one instant show the same text.  And two forms that accept the same text read
the same moment. -/
theorem format?_spelling :
    (∀ t r, read? t = some r ↔
      ∃ m o, Spells (Text.trim t) m o ∧ m.isValid = true ∧ m.later? (-o) = some r) ∧
    (∀ t m o, Denotes t m o → ∃ (r : Moment) (shown : Text), r.Exists ∧ r.second < 60 ∧
      r.instant = m.instant - o * 60 ∧ (o = 0 → r = m) ∧ Shown shown r ∧
      format? t = some (shown ++ " UTC")) ∧
    (∀ t t' m m' o o', Denotes t m o → Denotes t' m' o' →
      m.instant - o * 60 = m'.instant - o' * 60 → format? t = format? t') ∧
    (∀ f ∈ forms, ∀ g ∈ forms, ∀ t a b, f t = some a → g t = some b → a = b) := by
  refine ⟨fun t r => read?_eq_some_iff, fun t m o h => ?_,
    fun t t' m m' o o' h h' same => ?_, forms_agree⟩
  · obtain ⟨r, inCalendar, second, instant, read⟩ := read?_of_denotes h
    refine ⟨r, showMoment r, inCalendar, second, instant, fun utc => ?_,
      shown_showMoment inCalendar, by rw [format?, read, Option.map_some]⟩
    obtain ⟨_, _, _, -, -, -, -, range⟩ := h
    exact Moment.instant_injective inCalendar range.inCalendar second range.second_lt (by omega)
  · obtain ⟨r, inCalendar, second, instant, read⟩ := read?_of_denotes h
    obtain ⟨r', inCalendar', second', instant', read'⟩ := read?_of_denotes h'
    have equal : r = r' :=
      Moment.instant_injective inCalendar inCalendar' second second' (by omega)
    rw [format?, format?, read, read', equal]

/-! ## A spelling at the edge of the calendar -/

/-- The first minute of year 0. -/
def newYear : Moment := ⟨⟨0, 1, 1⟩, 0, 0, 0⟩

theorem inRange_newYear : InRange newYear :=
  ⟨⟨⟨by decide, by decide, by decide, by decide⟩, by decide, by decide, by decide⟩, by decide,
    by decide, by decide⟩

theorem numeral_of_digits {t : Text} {n : Nat} (ne : t ≠ [])
    (value : Markup.digitsFrom? 10 0 t = some n) : Numeral 10 t n :=
  Markup.numeral_of_digitsFrom? (.inl rfl) ne value

theorem fixed_two {a b : Char} {n : Nat} (value : Markup.digitsFrom? 10 0 [a, b] = some n) :
    Fixed 2 [a, b] n :=
  ⟨rfl, numeral_of_digits (List.cons_ne_nil _ _) value⟩

theorem spaced_one (gap : Text) {c : Char} {n : Nat} (blank : Text.isBlank gap = true)
    (value : Markup.digitsFrom? 10 0 [c] = some n) : Spaced (UpTo 2) (gap ++ [c]) n :=
  ⟨gap, [c], rfl, blank, Nat.le_succ 1, numeral_of_digits (List.cons_ne_nil _ _) value⟩

/-- One minute ahead of UTC. -/
theorem offsetText_minute {between : Text → Prop} (mark : Text) (apart : between mark) :
    OffsetText between ('+' :: (['0', '0'] ++ (mark ++ ['0', '1']))) 1 := by
  have hours : Fixed 2 ['0', '0'] 0 := fixed_two rfl
  have minutes : Fixed 2 ['0', '1'] 1 := fixed_two rfl
  exact .signed .plus hours apart minutes (by decide) (by decide)

/-- The first minute of year 0 in the Internet form. -/
theorem denotes_newYear : Denotes "0000-01-01T00:00:00.5+00:01 " newYear 1 := by
  have year : Fixed 4 ['0', '0', '0', '0'] 0 := ⟨rfl, numeral_of_digits (by decide) rfl⟩
  have zero : Fixed 2 ['0', '0'] 0 := fixed_two rfl
  have one : Fixed 2 ['0', '1'] 1 := fixed_two rfl
  have date : DateText FullYear (Fixed 2) (Fixed 2) "0000-01-01" newYear.date :=
    ⟨_, _, _, rfl, ⟨0, year, rfl⟩, one, one⟩
  have time : ClockText (Fixed 2) "00:00:00" newYear := ⟨_, _, _, rfl, zero, zero, zero⟩
  have fraction : FractionText ".5" := .some (numeral_of_digits (List.cons_ne_nil '5' []) rfl)
  have zone : ZoneText "+00:01" 1 := .offset (offsetText_minute [':'] rfl)
  exact ⟨[], _, [' '], rfl, rfl, by decide, .internet date (.inl rfl) time fraction zone,
    inRange_newYear⟩

/-- The same minute in the loose form, with white space where it may stand. -/
theorem denotes_looseNewYear : Denotes "0- 1-1T0:0: 0 +00 :01" newYear 1 := by
  have year : LooseYear ['0'] 0 :=
    .unsigned ⟨Nat.le_add_left 1 3, numeral_of_digits (List.cons_ne_nil _ _) rfl⟩
  have date : LooseDate "0- 1-1" newYear.date :=
    ⟨_, _, _, rfl, year, spaced_one [' '] (by decide) rfl, spaced_one [] rfl rfl⟩
  have time : LooseClock "0:0: 0" newYear :=
    ⟨_, _, _, rfl, spaced_one [] rfl rfl, spaced_one [] rfl rfl, spaced_one [' '] (by decide) rfl⟩
  have offset : LooseOffset " +00 :01" 1 :=
    ⟨[' '], _, rfl, by decide, offsetText_minute [' ', ':'] (List.all_eq_true.1 rfl)⟩
  exact ⟨[], _, [], rfl, rfl, rfl, .withOffset date time .none offset, inRange_newYear⟩

/-- Both show the last minute of the year before, and where two forms accept the text they read
the same. -/
theorem format?_newYear :
    (∃ (r : Moment) (shown : Text), r.Exists ∧ r.second < 60 ∧
      r.instant = newYear.instant - 1 * 60 ∧ ((1 : Int) = 0 → r = newYear) ∧ Shown shown r ∧
      format? "0000-01-01T00:00:00.5+00:01 " = some (shown ++ " UTC")) ∧
    format? "0000-01-01T00:00:00.5+00:01 " = format? "0- 1-1T0:0: 0 +00 :01" ∧
    ∃ a b, internet? "0000-01-01T00:00:00.5+00:01" = some a ∧
      withOffset? "0000-01-01T00:00:00.5+00:01" = some b ∧ a = b := by
  obtain ⟨-, shows, same, agree⟩ := format?_spelling
  have first : internet? "0000-01-01T00:00:00.5+00:01" = some ⟨⟨-1, 12, 31⟩, 23, 59, 0⟩ := by
    decide
  have second : withOffset? "0000-01-01T00:00:00.5+00:01" = some ⟨⟨-1, 12, 31⟩, 23, 59, 0⟩ := by
    decide
  exact ⟨shows _ _ _ denotes_newYear, same _ _ _ _ _ _ denotes_newYear denotes_looseNewYear rfl,
    _, _, first, second, agree _ (by simp [forms]) _ (by simp [forms]) _ _ _ first second⟩

end Wikidown.Timestamp
