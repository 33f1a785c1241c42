/-
# Wikidown.Proofs.TimestampForms -- only spellings are read

The other half of the grammar in `TimestampText`: whatever one of the four forms accepts is a
spelling, and the form has moved the spelled moment by its offset (`spells_of_form`).  A reader
says more than that its number is in the grammar: it has stopped since the number is as long as
it may be, or since no digit follows (`exists_upTo`).  Between a day and a time of day without a
mark that is what the grammar asks for (`exists_looseDate`).
-/
import Wikidown.Proofs.TimestampText

namespace Wikidown.Timestamp

set_option autoImplicit false

open Calendar (Date Moment)
open Markup (Numeral digits)
open Text (EndsRun endsRun_dropWhile)

/-! ## Numbers -/

theorem mem_digits_of_isDigit {c : Char} (digit : c.isDigit = true) :
    (c, c.toNat - '0'.toNat) ∈ digits ∧ c.toNat - '0'.toNat < 10 := by
  have known : ∀ n ≤ '9'.toNat, '0'.toNat ≤ n →
      (Char.ofNat n, n - '0'.toNat) ∈ digits ∧ n - '0'.toNat < 10 := by decide
  obtain ⟨low, high⟩ := Char.isDigit_iff_toNat.1 digit
  simpa only [Char.ofNat_toNat] using known c.toNat high low

/-- Digits are a number, and its value is theirs. -/
theorem numeral_digitsValue {ds : Text} (ne : ds ≠ []) (all : ∀ c ∈ ds, c.isDigit = true) :
    Numeral 10 ds (digitsValue ds) := by
  induction ds using List.reverseRecOn with
  | nil => exact absurd rfl ne
  | append_singleton front c ih =>
      obtain ⟨known, small⟩ := mem_digits_of_isDigit (all c (by simp))
      rw [digitsValue, List.foldl_append, ← digitsValue]
      by_cases empty : front = []
      · subst empty
        simpa [digitsValue] using Numeral.digit known small
      · exact (ih empty fun d mem => all d (by simp [mem])).append known small

theorem exists_fixed {width n : Nat} {t rest : Text} (positive : 0 < width)
    (h : fixed? width t = some (n, rest)) : ∃ ds, t = ds ++ rest ∧ Fixed width ds n := by
  simp only [fixed?, Option.ite_none_right_eq_some, Option.some.injEq, Prod.mk.injEq] at h
  obtain ⟨⟨length, all⟩, rfl, rfl⟩ := h
  have ne : t.take width ≠ [] := List.ne_nil_of_length_pos (by rwa [length])
  exact ⟨t.take width, (List.take_append_drop width t).symm, length,
    numeral_digitsValue ne (List.all_eq_true.1 all)⟩

/-- A number ends where it has its full width, or where no digit follows. -/
theorem exists_upTo {width n : Nat} {t rest : Text} (h : upTo? width t = some (n, rest)) :
    ∃ ds, t = ds ++ rest ∧ UpTo width ds n ∧ (Fixed width ds n ∨ EndsRun Char.isDigit rest) := by
  simp only [upTo?, ← List.take_takeWhile, Option.ite_none_left_eq_some, List.isEmpty_iff,
    Option.some.injEq, Prod.mk.injEq] at h
  obtain ⟨ne, rfl, rfl⟩ := h
  have number := numeral_digitsValue ne fun c mem =>
    List.all_eq_true.1 List.all_takeWhile c (List.mem_of_mem_take mem)
  have front : (t.takeWhile Char.isDigit).take width <+: t :=
    (List.take_prefix _ _).trans (List.takeWhile_prefix _)
  refine ⟨_, (List.prefix_iff_eq_append.1 front).symm, ⟨List.length_take_le .., number⟩, ?_⟩
  by_cases whole : (t.takeWhile Char.isDigit).length ≤ width
  · have behind : t.drop (t.takeWhile Char.isDigit).length = t.dropWhile Char.isDigit :=
      List.append_cancel_left ((List.prefix_iff_eq_append.1 (List.takeWhile_prefix _)).trans
        List.takeWhile_append_dropWhile.symm)
    rw [List.take_of_length_le whole, behind]
    exact .inr (endsRun_dropWhile _ t)
  · refine .inl ⟨?_, number⟩
    rw [List.length_take]
    omega

/-- What was passed over as white space is white space. -/
theorem exists_gap (t : Text) : ∃ gap, t = gap ++ Text.trimStart t ∧ Text.isBlank gap = true :=
  ⟨t.takeWhile isSpace, List.takeWhile_append_dropWhile.symm, List.all_takeWhile⟩

theorem Spaced.of_gap {number : Text → Nat → Prop} {gap t : Text} {n : Nat}
    (blank : Text.isBlank gap = true) (h : Spaced number t n) : Spaced number (gap ++ t) n := by
  obtain ⟨inner, ds, rfl, blank', written⟩ := h
  refine ⟨gap ++ inner, ds, (List.append_assoc ..).symm, ?_, written⟩
  rw [Text.isBlank, List.all_append, Bool.and_eq_true]
  exact ⟨blank, blank'⟩

theorem exists_short {n : Nat} {t rest : Text} (h : short? t = some (n, rest)) :
    ∃ a, t = a ++ rest ∧ Spaced (UpTo 2) a n ∧
      (Spaced (Fixed 2) a n ∨ EndsRun Char.isDigit rest) := by
  obtain ⟨gap, whole, blank⟩ := exists_gap t
  obtain ⟨ds, eq, number, ends⟩ := exists_upTo h
  refine ⟨gap ++ ds, by rw [whole, eq, List.append_assoc], ⟨gap, ds, rfl, blank, number⟩, ?_⟩
  exact ends.imp_left fun full => ⟨gap, ds, rfl, blank, full⟩

/-- A year at the start of a text, with no white space before it. -/
theorem exists_year {year : Int} {t rest : Text} (visible : Text.trimStart t = t)
    (h : year? t = some (year, rest)) : ∃ y, t = y ++ rest ∧ LooseYear y year := by
  unfold year? at h
  rw [visible] at h
  split at h <;> obtain ⟨⟨n, after⟩, read, eq⟩ := Option.map_eq_some_iff.1 h <;>
    obtain ⟨rfl, rfl⟩ := Prod.mk.inj eq <;> obtain ⟨ds, rfl, number, -⟩ := exists_upTo read
  · exact ⟨'-' :: ds, rfl, .minus number.2⟩
  · exact ⟨'+' :: ds, rfl, .plus number.2⟩
  · exact ⟨ds, rfl, .unsigned number⟩

/-! ## Dates and times of day -/

theorem existing?_eq_some_iff {m r : Moment} :
    existing? m = some r ↔ m.isValid = true ∧ m = r := by
  simp [existing?]

/-- A date of the loose forms.  Its day has both digits, or no digit follows. -/
theorem exists_looseDate {t rest : Text} {d : Date} (visible : Text.trimStart t = t)
    (h : looseDate? t = some (d, rest)) :
    ∃ x, t = x ++ rest ∧ LooseDate x d ∧
      (DateText LooseYear (Spaced (UpTo 2)) (Spaced (Fixed 2)) x d ∨
        EndsRun Char.isDigit rest) := by
  simp only [looseDate?, Option.bind_eq_bind, Option.bind_eq_some_iff, Prod.exists,
    mark?_eq_some_iff, Option.some.injEq, Prod.mk.injEq] at h
  obtain ⟨year, t₁, read, t₂, rfl, month, t₃, read₂, t₄, rfl, day, t₅, read₄, rfl, rfl⟩ := h
  obtain ⟨y, rfl, inYear⟩ := exists_year visible read
  obtain ⟨a, rfl, inMonth, -⟩ := exists_short read₂
  obtain ⟨b, rfl, inDay, ends⟩ := exists_short read₄
  refine ⟨y ++ '-' :: (a ++ '-' :: b), by simp, ⟨y, a, b, rfl, inYear, inMonth, inDay⟩, ?_⟩
  exact ends.imp_left fun full => ⟨y, a, b, rfl, inYear, inMonth, full⟩

theorem exists_looseClock {date : Date} {t rest : Text} {m : Moment}
    (h : looseTime? date t = some (m, rest)) :
    m.date = date ∧ m.isValid = true ∧ ∃ clock, t = clock ++ rest ∧ LooseClock clock m := by
  simp only [looseTime?, Option.bind_eq_bind, Option.bind_eq_some_iff, Prod.exists,
    mark?_eq_some_iff, existing?_eq_some_iff, Option.some.injEq, Prod.mk.injEq] at h
  obtain ⟨hour, t₁, read, t₂, rfl, minute, t₃, read₂, t₄, rfl, second, t₅, read₄, r, ⟨valid, rfl⟩,
    rfl, rfl⟩ := h
  obtain ⟨a, rfl, inHour, -⟩ := exists_short read
  obtain ⟨b, rfl, inMinute, -⟩ := exists_short read₂
  obtain ⟨c, rfl, inSecond, -⟩ := exists_short read₄
  exact ⟨rfl, valid, a ++ ':' :: (b ++ ':' :: c), by simp, a, b, c, rfl, inHour, inMinute,
    inSecond⟩

theorem exists_fraction {t rest : Text} (h : fraction? t = some rest) :
    ∃ f, t = f ++ rest ∧ FractionText f := by
  unfold fraction? at h
  split at h
  · split at h
    · next c more =>
      simp only [Option.ite_none_right_eq_some, Option.some.injEq] at h
      obtain ⟨digit, rfl⟩ := h
      have ne : (c :: more).takeWhile Char.isDigit ≠ [] := by simp [digit]
      exact ⟨'.' :: (c :: more).takeWhile Char.isDigit,
        by rw [List.cons_append, List.takeWhile_append_dropWhile],
        .some (numeral_digitsValue ne (List.all_eq_true.1 List.all_takeWhile))⟩
    · cases h
  · obtain rfl := Option.some.inj h
    exact ⟨[], rfl, .none⟩

theorem exists_mark {t u : Text}
    (h : (mark? 'T' t <|> mark? 't' t <|> mark? ' ' t) = some u) :
    ∃ mark, (mark = 'T' ∨ mark = 't' ∨ mark = ' ') ∧ t = mark :: u := by
  simp only [Option.orElse_eq_orElse, Option.orElse_eq_or, Option.or_eq_some_iff,
    mark?_eq_some_iff] at h
  rcases h with eq | ⟨-, eq | ⟨-, eq⟩⟩
  · exact ⟨'T', .inl rfl, eq⟩
  · exact ⟨'t', .inr (.inl rfl), eq⟩
  · exact ⟨' ', .inr (.inr rfl), eq⟩

theorem exists_fullMoment {t rest : Text} {m : Moment} (h : fullMoment? t = some (m, rest)) :
    m.isValid = true ∧ ∃ d clock mark, t = d ++ mark :: (clock ++ rest) ∧
      DateText FullYear (Fixed 2) (Fixed 2) d m.date ∧ (mark = 'T' ∨ mark = 't' ∨ mark = ' ') ∧
      ClockText (Fixed 2) clock m := by
  simp only [fullMoment?, Option.bind_eq_bind, Option.bind_eq_some_iff, Prod.exists,
    mark?_eq_some_iff, existing?_eq_some_iff, Option.some.injEq, Prod.mk.injEq] at h
  obtain ⟨year, t₁, read₁, t₂, rfl, month, t₃, read₃, t₄, rfl, day, t₅, read₅, u, between, h⟩ := h
  obtain ⟨hour, t₇, read₇, t₈, rfl, minute, t₉, read₉, t₁₀, rfl, second, t₁₁, read₁₁, r,
    ⟨valid, rfl⟩, rfl, rfl⟩ := h
  obtain ⟨mark, known, rfl⟩ := exists_mark between
  obtain ⟨y, rfl, inYear⟩ := exists_fixed (by decide) read₁
  obtain ⟨a, rfl, inMonth⟩ := exists_fixed (by decide) read₃
  obtain ⟨b, rfl, inDay⟩ := exists_fixed (by decide) read₅
  obtain ⟨i, rfl, inHour⟩ := exists_fixed (by decide) read₇
  obtain ⟨j, rfl, inMinute⟩ := exists_fixed (by decide) read₉
  obtain ⟨k, rfl, inSecond⟩ := exists_fixed (by decide) read₁₁
  exact ⟨valid, y ++ '-' :: (a ++ '-' :: b), i ++ ':' :: (j ++ ':' :: k), mark, by simp,
    ⟨y, a, b, rfl, ⟨year, inYear, rfl⟩, inMonth, inDay⟩, known, i, j, k, rfl, inHour, inMinute,
    inSecond⟩

/-! ## Offsets -/

theorem exists_sign {t rest : Text} {unit : Int} (h : sign? t = some (unit, rest)) :
    ∃ c, t = c :: rest ∧ Sign c unit := by
  cases t with
  | nil => cases h
  | cons c t =>
      simp only [sign?] at h
      split at h
      · next eq =>
        obtain ⟨rfl, rfl⟩ := Prod.mk.inj (Option.some.inj h)
        exact ⟨c, rfl, eq ▸ .plus⟩
      · split at h
        · next eq =>
          obtain ⟨rfl, rfl⟩ := Prod.mk.inj (Option.some.inj h)
          rcases eq with rfl | rfl
          · exact ⟨_, rfl, .minus⟩
          · exact ⟨_, rfl, .mathematical⟩
        · cases h

theorem offset_eq_some_iff {unit o : Int} {hours minutes : Nat} :
    offset unit hours minutes = some o ↔
      (hours < 24 ∧ minutes < 60) ∧ unit * (hours * 60 + minutes : Nat) = o := by
  simp only [offset, Option.ite_none_right_eq_some, Option.some.injEq]

theorem zoneText_of_zone? {z : Text} {o : Int} (h : zone? z = some o) : ZoneText z o := by
  unfold zone? at h
  split at h
  · obtain rfl := Option.some.inj h
    exact .utc (.inl rfl)
  · obtain rfl := Option.some.inj h
    exact .utc (.inr rfl)
  · simp only [Option.bind_eq_bind, Option.bind_eq_some_iff, Prod.exists, mark?_eq_some_iff,
      Option.ite_none_right_eq_some, List.isEmpty_iff, offset_eq_some_iff] at h
    obtain ⟨unit, t₁, signed, hours, _, read₁, t₂, rfl, minutes, _, read₂, rfl, ⟨day, hour⟩,
      rfl⟩ := h
    obtain ⟨c, rfl, sign⟩ := exists_sign signed
    obtain ⟨a, rfl, first⟩ := exists_fixed (by decide) read₁
    obtain ⟨b, rfl, second⟩ := exists_fixed (by decide) read₂
    show ZoneText (c :: (a ++ ([':'] ++ (b ++ [])))) _
    rw [List.append_nil]
    exact .offset (.signed sign first rfl second day hour)

theorem looseOffset_of_looseOffset? {z : Text} {o : Int} (h : looseOffset? z = some o) :
    LooseOffset z o := by
  simp only [looseOffset?, Option.bind_eq_bind, Option.bind_eq_some_iff, Prod.exists,
    Option.ite_none_right_eq_some, List.isEmpty_iff, offset_eq_some_iff] at h
  obtain ⟨unit, t₁, signed, hours, t₂, read₁, minutes, _, read₂, rfl, ⟨day, hour⟩, rfl⟩ := h
  obtain ⟨gap, whole, blank⟩ := exists_gap z
  obtain ⟨c, start, sign⟩ := exists_sign signed
  obtain ⟨a, rfl, first⟩ := exists_fixed (by decide) read₁
  obtain ⟨b, eq, second⟩ := exists_fixed (by decide) read₂
  rw [List.append_nil] at eq
  have behind : t₂ = t₂.takeWhile (fun c => c == ':' || isSpace c) ++ b := by
    rw [← eq, List.takeWhile_append_dropWhile]
  rw [start, behind] at whole
  exact ⟨gap, _, whole, blank, .signed sign first (List.all_eq_true.1 List.all_takeWhile) second day
    hour⟩

/-! ## The four forms -/

/-- What form 1 has read. -/
theorem internet?_inv {t : Text} {r : Moment} (h : internet? t = some r) :
    ∃ d clock f z mark m o, t = d ++ mark :: (clock ++ (f ++ z)) ∧ m.isValid = true ∧
      DateText FullYear (Fixed 2) (Fixed 2) d m.date ∧ (mark = 'T' ∨ mark = 't' ∨ mark = ' ') ∧
      ClockText (Fixed 2) clock m ∧ FractionText f ∧ ZoneText z o ∧ m.later? (-o) = some r := by
  simp only [internet?, Option.bind_eq_bind, Option.bind_eq_some_iff, Prod.exists] at h
  obtain ⟨m, rest, full, z, read, o, zone, moved⟩ := h
  obtain ⟨valid, d, clock, mark, rfl, date, between, time⟩ := exists_fullMoment full
  obtain ⟨f, rfl, fraction⟩ := exists_fraction read
  exact ⟨d, clock, f, z, mark, m, o, rfl, valid, date, between, time, fraction,
    zoneText_of_zone? zone, moved⟩

theorem date_of_looseTime? {date : Date} {t rest : Text} {m : Moment}
    (h : looseTime? date t = some (m, rest)) : m.date = date := (exists_looseClock h).1

/-- What forms 2 and 3 have read before the zone, which has to be there in form 2 alone. -/
theorem looseMoment?_inv {t z : Text} {m : Moment} (h : looseMoment? t = some (m, z)) :
    ∃ u rest, looseDate? t = some (m.date, 'T' :: u) ∧ looseTime? m.date u = some (m, rest) ∧
      fraction? rest = some z := by
  simp only [looseMoment?, Option.bind_eq_bind, Option.bind_eq_some_iff, Prod.exists,
    Option.some.injEq, Prod.mk.injEq, mark?_eq_some_iff] at h
  obtain ⟨date, t₁, read, u, rfl, r, rest, time, z', fraction, rfl, rfl⟩ := h
  obtain rfl := date_of_looseTime? time
  exact ⟨u, rest, read, time, fraction⟩

theorem withOffset?_inv {t : Text} {r : Moment} (h : withOffset? t = some r) :
    ∃ m z o, looseMoment? t = some (m, z) ∧ looseOffset? z = some o ∧ m.later? (-o) = some r := by
  simp only [withOffset?, Option.bind_eq_bind, Option.bind_eq_some_iff, Prod.exists] at h
  obtain ⟨m, z, read, o, offset, moved⟩ := h
  exact ⟨m, z, o, read, offset, moved⟩

theorem withoutZone?_inv {t : Text} {m : Moment} (h : withoutZone? t = some m) :
    looseMoment? t = some (m, []) := by
  simp only [withoutZone?, Option.bind_eq_bind, Option.bind_eq_some_iff, Prod.exists,
    Option.ite_none_right_eq_some, List.isEmpty_iff, Option.some.injEq] at h
  obtain ⟨_, _, read, rfl, rfl⟩ := h
  exact read

/-- What form 4 has read: the time of day is the end. -/
theorem spaced?_inv {t : Text} {m : Moment} (h : spaced? t = some m) :
    ∃ u, looseDate? t = some (m.date, u) ∧ looseTime? m.date (Text.trimStart u) = some (m, []) := by
  simp only [spaced?, Option.bind_eq_bind, Option.bind_eq_some_iff, Prod.exists,
    Option.ite_none_right_eq_some, List.isEmpty_iff, Option.some.injEq] at h
  obtain ⟨date, u, read, r, _, time, rfl, rfl⟩ := h
  obtain rfl := date_of_looseTime? time
  exact ⟨u, read, time⟩

theorem exists_looseMoment {t z : Text} {m : Moment} (visible : Text.trimStart t = t)
    (h : looseMoment? t = some (m, z)) :
    m.isValid = true ∧ ∃ d clock f, t = d ++ 'T' :: (clock ++ (f ++ z)) ∧ LooseDate d m.date ∧
      LooseClock clock m ∧ FractionText f := by
  obtain ⟨u, rest, read, time, fraction⟩ := looseMoment?_inv h
  obtain ⟨d, rfl, date, -⟩ := exists_looseDate visible read
  obtain ⟨-, valid, clock, rfl, clockText⟩ := exists_looseClock time
  obtain ⟨f, rfl, fractionText⟩ := exists_fraction fraction
  exact ⟨valid, d, clock, f, rfl, date, clockText, fractionText⟩

/-- White space before a time of day belongs to it. -/
theorem looseClock_of_gap {gap t : Text} {m : Moment} (blank : Text.isBlank gap = true)
    (h : LooseClock t m) : LooseClock (gap ++ t) m := by
  obtain ⟨a, b, c, rfl, hour, minute, second⟩ := h
  exact ⟨gap ++ a, b, c, by rw [List.append_assoc], hour.of_gap blank, minute, second⟩

theorem spells_of_spaced? {t : Text} {m : Moment} (visible : Text.trimStart t = t)
    (h : spaced? t = some m) : m.isValid = true ∧ Spells t m 0 := by
  obtain ⟨u, read, time⟩ := spaced?_inv h
  obtain ⟨d, rfl, date, ends⟩ := exists_looseDate visible read
  obtain ⟨gap, whole, blank⟩ := exists_gap u
  obtain ⟨-, valid, clock, eq, clockText⟩ := exists_looseClock time
  rw [eq, List.append_nil] at whole
  have inText : LooseClock u m := whole ▸ looseClock_of_gap blank clockText
  rcases ends with full | ends
  · exact ⟨valid, .joined full inText⟩
  · exact ⟨valid, .spaced date inText ends⟩

/-- What a form accepts is a spelling, and the form has taken its offset off. -/
theorem spells_of_form {form : Text → Option Moment} (known : form ∈ forms) {t : Text}
    {r : Moment} (visible : Text.trimStart t = t) (h : form t = some r) :
    ∃ m o, Spells t m o ∧ m.isValid = true ∧ m.later? (-o) = some r := by
  simp only [forms, List.mem_cons, List.not_mem_nil, or_false] at known
  rcases known with rfl | rfl | rfl | rfl
  · obtain ⟨d, clock, f, z, mark, m, o, rfl, valid, date, between, time, fraction, zone, moved⟩ :=
      internet?_inv h
    exact ⟨m, o, .internet date between time fraction zone, valid, moved⟩
  · obtain ⟨m, z, o, read, offset, moved⟩ := withOffset?_inv h
    obtain ⟨valid, d, clock, f, rfl, date, time, fraction⟩ := exists_looseMoment visible read
    exact ⟨m, o, .withOffset date time fraction (looseOffset_of_looseOffset? offset), valid, moved⟩
  · obtain ⟨valid, d, clock, f, rfl, date, time, fraction⟩ :=
      exists_looseMoment visible (withoutZone?_inv h)
    rw [List.append_nil]
    exact ⟨r, 0, .withoutZone date time fraction, valid, r.later?_zero valid⟩
  · obtain ⟨valid, spells⟩ := spells_of_spaced? visible h
    exact ⟨r, 0, spells, valid, r.later?_zero valid⟩

end Wikidown.Timestamp
