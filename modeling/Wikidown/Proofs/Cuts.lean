/-
# Wikidown.Proofs.Cuts -- where a text is taken apart

A scan takes a text apart in two ways.  A run of characters ends where a character stands
that it refuses (`EndsRun`); it is then what `takeWhile` takes, whatever stands behind it.

`Text.cut? mark` takes a text apart at the first occurrence of the mark.  Being first is
said without positions: `before ++ mark` ends with the mark and has no other, so that the
mark stands nowhere in it once its last character is gone (`cut?_eq_some_iff`); and
nothing is cut exactly where the mark does not occur (`cut?_eq_none_iff`).
-/
import Wikidown.Text

namespace Wikidown.Text

set_option autoImplicit false

/-! ## Runs of characters -/

section Runs

variable {p : Char → Bool} {run rest : Text}

/-- A text that is empty or goes on with a character that `p` refuses. -/
def EndsRun (p : Char → Bool) (rest : Text) : Prop := ∀ c ∈ rest.head?, p c = false

theorem endsRun_cons {c : Char} (refused : p c = false) : EndsRun p (c :: rest) := by
  intro d head
  obtain rfl := Option.some.inj head
  exact refused

theorem endsRun_dropWhile (p : Char → Bool) (t : Text) : EndsRun p (t.dropWhile p) := by
  intro c head
  have refused := List.head?_dropWhile_not p t
  rw [head] at refused
  simpa using refused

theorem takeWhile_run (all : ∀ c ∈ run, p c = true) (ends : EndsRun p rest) :
    (run ++ rest).takeWhile p = run := by
  rw [List.takeWhile_append_of_pos all]
  cases rest with
  | nil => simp
  | cons c rest => simp [ends c rfl]

theorem dropWhile_run (all : ∀ c ∈ run, p c = true) (ends : EndsRun p rest) :
    (run ++ rest).dropWhile p = rest := by
  rw [List.dropWhile_append_of_pos all]
  cases rest with
  | nil => rfl
  | cons c rest => simp [ends c rfl]

theorem isSpace_of_mem {gap : Text} (blank : isBlank gap = true) :
    ∀ c ∈ gap, isSpace c = true :=
  List.all_eq_true.1 blank

/-- White space ends a run of characters that are no white space. -/
theorem endsRun_blank {gap : Text} (spaces : ∀ c, isSpace c = true → p c = false)
    (blank : isBlank gap = true) (ends : EndsRun p rest) : EndsRun p (gap ++ rest) := by
  cases gap with
  | nil => exact ends
  | cons c gap => exact endsRun_cons (spaces c (isSpace_of_mem blank c List.mem_cons_self))

end Runs

/-! ## Cuts at a mark -/

theorem dropStart?_eq_some_iff {start t rest : Text} :
    dropStart? start t = some rest ↔ t = start ++ rest := by
  induction start generalizing t with
  | nil => simp [dropStart?]
  | cons s start ih =>
      cases t with
      | nil => simp [dropStart?]
      | cons c t =>
          simp only [dropStart?, List.cons_append, List.cons.injEq]
          split
          · next eq => simp [ih, eq]
          · next ne => simp [Ne.symm ne]

theorem dropStart?_eq_none_iff {start t : Text} :
    dropStart? start t = none ↔ ¬ start <+: t := by
  constructor
  · rintro none ⟨rest, rfl⟩
    rw [dropStart?_eq_some_iff.2 rfl] at none
    cases none
  · intro apart
    cases found : dropStart? start t with
    | none => rfl
    | some rest => exact absurd ⟨rest, (dropStart?_eq_some_iff.1 found).symm⟩ apart

variable {mark t before rest : Text}

/-- A mark is no part of itself less a character. -/
theorem not_infix_dropLast_self (ne : mark ≠ []) : ¬ mark <:+: mark.dropLast := by
  intro inside
  have le := inside.length_le
  have positive := List.length_pos_iff.2 ne
  rw [List.length_dropLast] at le
  omega

/-- The last character is the mark's, so what stands in front stays. -/
theorem dropLast_cons_append (ne : mark ≠ []) (c : Char) :
    (c :: before ++ mark).dropLast = c :: (before ++ mark).dropLast := by
  rw [List.cons_append, List.dropLast_cons_of_ne_nil (by simp [ne])]

/-- A cut takes the text apart at the first occurrence of the mark. -/
theorem cut?_eq_some_iff (ne : mark ≠ []) : cut? mark t = some (before, rest) ↔
    t = before ++ mark ++ rest ∧ ¬ mark <:+: (before ++ mark).dropLast := by
  induction t generalizing before with
  | nil => simp [cut?, ne]
  | cons c t ih =>
      simp only [cut?]
      split
      · next after found =>
        rw [dropStart?_eq_some_iff] at found
        constructor
        · intro h
          obtain ⟨rfl, rfl⟩ := Prod.mk.inj (Option.some.inj h)
          exact ⟨found, not_infix_dropLast_self ne⟩
        · rintro ⟨whole, first⟩
          cases before with
          | nil =>
              have same := List.append_cancel_left (found.symm.trans whole)
              rw [same]
          | cons d before =>
              -- the mark stands in front already, before the place of the cut
              refine absurd ?_ first
              have here : mark <+: (d :: before ++ mark) ++ rest := ⟨after, by rw [← found, whole]⟩
              have room : mark.length ≤ (d :: before ++ mark).dropLast.length := by simp
              have initial : (d :: before ++ mark).dropLast <+: (d :: before ++ mark) ++ rest :=
                (List.dropLast_prefix _).trans (List.prefix_append _ _)
              exact (List.prefix_of_prefix_length_le here initial room).isInfix
      · next apart =>
        rw [dropStart?_eq_none_iff] at apart
        constructor
        · intro h
          obtain ⟨⟨b, r⟩, found, eq⟩ := Option.map_eq_some_iff.1 h
          obtain ⟨rfl, rfl⟩ := Prod.mk.inj eq
          obtain ⟨rfl, first⟩ := ih.1 found
          refine ⟨by simp, ?_⟩
          rw [dropLast_cons_append ne, List.infix_cons_iff]
          rintro (front | later)
          · refine apart (front.trans ?_)
            rw [List.cons_prefix_cons]
            exact ⟨rfl, (List.dropLast_prefix _).trans (List.prefix_append _ _)⟩
          · exact first later
        · rintro ⟨whole, first⟩
          cases before with
          | nil => exact absurd ⟨rest, whole.symm⟩ apart
          | cons d before =>
              obtain ⟨rfl, rfl⟩ := List.cons.inj whole
              rw [dropLast_cons_append ne, List.infix_cons_iff, not_or] at first
              exact Option.map_eq_some_iff.2 ⟨(before, rest), ih.2 ⟨rfl, first.2⟩, rfl⟩

/-- Nothing is cut where the mark does not occur. -/
theorem cut?_eq_none_iff (ne : mark ≠ []) : cut? mark t = none ↔ ¬ mark <:+: t := by
  induction t with
  | nil => simp [cut?, ne]
  | cons c t ih =>
      rw [List.infix_cons_iff, not_or, ← ih, ← dropStart?_eq_none_iff]
      simp only [cut?]
      split
      · next found => simp [found]
      · next apart => simp [apart]

/-- A mark whose last character is not among the others occurs in a text with the rest of
the mark behind it only where it occurs in the text. -/
theorem infix_of_infix_append {x c : Text} {last : Char} (alone : last ∉ c)
    (inside : (x ++ [last]) <:+: before ++ c) : (x ++ [last]) <:+: before := by
  obtain ⟨a, b, eq⟩ := inside
  rw [List.append_eq_append_iff] at eq
  rcases eq with ⟨more, rfl, -⟩ | ⟨excess, eq, tail⟩
  · exact ⟨a, more, rfl⟩
  · rcases List.eq_nil_or_concat excess with rfl | ⟨excess, d, rfl⟩
    · exact ⟨a, [], by simpa using eq⟩
    · rw [List.concat_eq_append] at eq tail
      rw [← List.append_assoc, ← List.append_assoc] at eq
      have same := (List.append_inj' eq rfl).2
      obtain rfl := List.singleton_inj.1 same
      exact absurd (by simp [tail]) alone

end Wikidown.Text
