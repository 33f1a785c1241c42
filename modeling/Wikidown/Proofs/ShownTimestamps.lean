/-
# Wikidown.Proofs.ShownTimestamps -- a timestamp that is shown is a timestamp

What is shown is read by other rules than it is written by: a year is shown in at least four
digits, with a sign exactly outside the years 0 to 9999, and read from at most four digits without
a sign; the other numbers are shown in two digits and read from one or two.  A number without
leading zeros is at least a power of ten (`pow_le_of_numeral`), so a year without a sign fills its
four digits and no more.  Hence each field as it is shown is a spelling of that field, and the
whole is a spelling without a zone (`spells_of_shown`).

What is read is in the calendar, whatever its offset has made of it (`isValid_of_read?`), so the
spelling is read back as the moment that it shows (`read?_of_shown`): showing a timestamp once more
changes nothing (`format?_stable`).
-/
import Wikidown.Proofs.Timestamps

namespace Wikidown.Timestamp

set_option autoImplicit false

open Calendar (Date Moment)
open Markup (Numeral)
open Text (endsRun_cons)

/-! ## The digits of a shown number -/

/-- A number without leading zeros is at least as large as its width says. -/
theorem pow_le_of_numeral {ds : Text} {n : Nat} (h : Numeral 10 ds n)
    (head : ds.head? ≠ some '0') : 10 ^ (ds.length - 1) ≤ n := by
  have positive : ∀ p ∈ Markup.digits, p.1 ≠ '0' → 1 ≤ p.2 := by decide
  induction h with
  | digit known small =>
      exact positive _ known fun zero => head (congrArg some zero)
  | @append t n c d front known small ih =>
      obtain ⟨first, more, rfl, -⟩ := exists_digit front
      have before : 10 ^ more.length ≤ n := ih head
      have width : (first :: more ++ [c]).length - 1 = more.length + 1 := by simp
      rw [width, Nat.pow_succ]
      omega

/-- Only a number that needs them has more digits than the width in which it is shown. -/
theorem upTo_of_atLeast {width n : Nat} {t : Text} (h : AtLeast width t n) (small : n < 10 ^ width) :
    UpTo width t n := by
  obtain ⟨number, -, unpadded⟩ := h
  refine ⟨Nat.not_lt.1 fun longer => ?_, number⟩
  have large : 10 ^ (t.length - 1) ≤ n := pow_le_of_numeral number (unpadded longer)
  have more : 10 ^ width ≤ 10 ^ (t.length - 1) := Nat.pow_le_pow_right (by decide) (by omega)
  omega

/-! ## What is shown as a spelling -/

theorem looseYear_of_shownYear {t : Text} {year : Int} (h : ShownYear t year) : LooseYear t year := by
  cases h with
  | unsigned shown last => exact .unsigned (upTo_of_atLeast shown (by omega))
  | plus shown _ => exact .plus shown.1
  | minus shown _ => exact .minus shown.1

/-- What is shown of a moment spells it, in the form that has neither a mark nor a zone. -/
theorem spells_of_shown {t : Text} {m : Moment} (h : Shown t m) : Spells t m 0 := by
  obtain ⟨d, clock, rfl, date, hour, minute, second, rfl, inHour, inMinute, inSecond⟩ := h
  have short : ∀ a n, Fixed 2 a n → Spaced (UpTo 2) a n := fun _ _ full =>
    spaced_of_written (upTo_of_fixed full)
  have looseDate : LooseDate d m.date :=
    date.mono (fun _ _ => looseYear_of_shownYear) short short
  -- The space in front of the time of day counts as white space in front of its hour.
  have looseHour : Spaced (UpTo 2) (' ' :: hour) m.hour :=
    ⟨[' '], hour, rfl, by decide, upTo_of_fixed inHour⟩
  have looseClock : LooseClock (' ' :: (hour ++ ':' :: (minute ++ ':' :: second))) m :=
    ⟨' ' :: hour, minute, second, rfl, looseHour, short _ _ inMinute, short _ _ inSecond⟩
  exact .spaced looseDate looseClock (endsRun_cons (by decide))

/-- What is shown of a moment in the calendar is read as that moment. -/
theorem read?_of_shown {t : Text} {m : Moment} (h : Shown t m) (valid : m.isValid = true) :
    read? t = some m := by
  have spells := spells_of_shown h
  have trimmed : Text.trim t = t := by
    have cut := @trim_around [] t [] rfl rfl spells.opensAt spells.endsVisibly
    rwa [List.append_nil, List.nil_append] at cut
  have still : m.later? (-0) = some m := m.later?_zero valid
  exact read?_eq_some_iff.2 ⟨m, 0, trimmed.symm ▸ spells, valid, still⟩

/-! ## What is read -/

/-- What is read is in the calendar, also where its offset has moved it to another day. -/
theorem isValid_of_read? {t : Text} {r : Moment} (h : read? t = some r) : r.isValid = true := by
  obtain ⟨m, o, spells, valid, moved⟩ := read?_eq_some_iff.1 h
  obtain ⟨above, below⟩ := spells.bounds
  obtain ⟨-, inCalendar⟩ := m.isValid_iff.1 valid
  obtain ⟨r', inCalendar', -, -, -, eq⟩ :=
    inCalendar.later?_eq (Int.neg_lt_neg below) (show -o < Moment.dayMinutes by omega)
  rw [eq] at moved
  split at moved
  · next inYears =>
    obtain rfl := Option.some.inj moved
    exact (Moment.isValid_iff _).2 ⟨((Date.isValid_iff _).1 inYears).1, inCalendar'⟩
  · cases moved

/-- **A shown timestamp is shown as it is.**  What is shown of a timestamp ends in its zone, and
without the zone it denotes the same moment as the timestamp, so that it is shown the same. -/
theorem format?_stable {t s : Text} (h : format? t = some s) :
    ∃ shown : Text, s = shown ++ " UTC" ∧ read? shown = read? t ∧ format? shown = some s := by
  obtain ⟨r, read, rfl⟩ := Option.map_eq_some_iff.1 h
  have valid : r.isValid = true := isValid_of_read? read
  have again : read? (showMoment r) = some r :=
    read?_of_shown (shown_showMoment (r.isValid_iff.1 valid).2) valid
  exact ⟨showMoment r, rfl, again.trans read.symm, by rw [format?, again, Option.map_some]⟩

/-- A leap second at the end of year 9999, which its offset moves to a year of five digits. -/
theorem format?_leapSecond :
    format? " +9999-12-31T23:59:60.5 -00:01" = some ("+10000-01-01 00:00:60".toList ++ " UTC") ∧
      ∃ shown : Text, "+10000-01-01 00:00:60".toList ++ " UTC" = shown ++ " UTC" ∧
        read? shown = read? " +9999-12-31T23:59:60.5 -00:01" ∧
        format? shown = some ("+10000-01-01 00:00:60".toList ++ " UTC") := by
  have shown : format? " +9999-12-31T23:59:60.5 -00:01" =
      some ("+10000-01-01 00:00:60".toList ++ " UTC") := by decide
  exact ⟨shown, format?_stable shown⟩

end Wikidown.Timestamp
