/-
# Wikidown.Proofs.JsonReaders -- readers of values

`Accepts read a t` says that a reader takes the whole of `t` off a text as `a`, with any white
space before it and anything behind it that can stand behind a value.  The readers of
strings, of values that may be `null` and of 32-bit numbers accept what the grammar writes
for them, and a reader of lists accepts whatever the reader of their elements does
(`accepts_list`).
-/
import Mathlib.Data.List.Forall2
import Wikidown.Proofs.JsonSkip

namespace Wikidown.Json

set_option autoImplicit false

/-- The reader takes the whole text as `a`, whatever stands around it. -/
structure Accepts {α : Type} (read : Reader α) (a : α) (t : Text) : Prop where
  opens : Opens t
  reads : ∀ g rest, Gap g → Delimited rest → Reads read (g ++ (t ++ rest)) a rest

/-! ## Values told apart by their first character -/

theorem reads_behindGap {α : Type}
    {read : (c : Char) → (rest : Text) → Except Fault (Step (c :: rest) α)} {c : Char}
    {g t rest : Text} {a : α} (gap : Gap g) (visible : isGap c = false)
    (h : ∃ step, read c t = .ok step ∧ step.value = a ∧ step.rest = rest) :
    Reads (behindGap read) (g ++ c :: t) a rest := by
  have start : dropGap (g ++ c :: t) = c :: t := dropGap_append gap (shown_cons visible _)
  obtain ⟨step, eq, value, after⟩ := h
  rw [Reads, outcome, behindGap]
  split
  · next found => rw [start] at found; cases found
  · next d more found =>
    obtain ⟨rfl, rfl⟩ := List.cons.inj (start.symm.trans found)
    simp only [eq, Except.map, Step.widen, value, after]

/-- A reader that wraps what another one reads. -/
theorem Reads.map {α β : Type} {read : Reader α} {t rest : Text} {a : α} (h : Reads read t a rest)
    (f : α → β) : Reads (fun t => (read t).map (Step.map f)) t (f a) rest := by
  obtain ⟨step, eq, value, after⟩ := h.exists_step
  simp only [Reads, outcome, eq, Except.map, Step.map, value, after]

theorem Accepts.map {α β : Type} {read : Reader α} {a : α} {t : Text} (h : Accepts read a t)
    (f : α → β) : Accepts (fun t => (read t).map (Step.map f)) (f a) t where
  opens := h.opens
  reads g rest gap delimited := (h.reads g rest gap delimited).map f

/-! ## Strings, numbers and options -/

theorem accepts_string {s t : Text} (h : StringText s t) : Accepts string s t where
  opens := h.opens
  reads g rest gap delimited := by
    obtain ⟨body, chars, rfl⟩ := h
    obtain ⟨step, eq, value, after⟩ := (reads_stringBody chars rest).exists_step
    have read : Reads string (g ++ '"' :: (body ++ '"' :: rest)) s rest := by
      refine reads_behindGap gap rfl ⟨step.widen (by simp), ?_, value, after⟩
      rw [if_pos rfl, eq]
      rfl
    simpa only [List.cons_append, List.append_assoc, List.nil_append] using read

/-- What is written for a string that may be missing: `null` or the string. -/
def NullableText (s? : Option Text) (t : Text) : Prop :=
  match s? with
  | none => t = "null"
  | some s => StringText s t

theorem accepts_nullable {s? : Option Text} {t : Text} (h : NullableText s? t) :
    Accepts (nullable string) s? t := by
  cases s? with
  | none =>
      obtain rfl : t = "null" := h
      refine ⟨⟨'n', _, rfl, rfl, by decide, by decide, by decide⟩, fun g rest gap delimited => ?_⟩
      refine reads_behindGap (c := 'n') gap rfl ?_
      rw [if_pos rfl]
      have found := word_append "ull" rest
      split
      · next after eq => exact ⟨_, rfl, rfl, Except.ok.inj (eq.symm.trans found)⟩
      · next eq => cases eq.symm.trans found
  | some s =>
      have quoted : StringText s t := h
      refine ⟨quoted.opens, fun g rest gap delimited => ?_⟩
      obtain ⟨step, eq, value, after⟩ :=
        ((accepts_string quoted).reads [] rest gap_nil delimited).exists_step
      obtain ⟨body, -, rfl⟩ := quoted
      refine reads_behindGap (c := '"') gap rfl ⟨step.map some, ?_, congrArg some value, after⟩
      rw [if_neg (by decide)]
      exact congrArg (Except.map (Step.map some)) eq

theorem reads_numeral {t rest : Text} {n : Numeral} (h : number t = .ok (n, rest)) :
    Reads numeral t n rest := by
  rw [Reads, outcome, numeral]
  split <;> rename_i eq <;> cases h.symm.trans eq
  rfl

theorem accepts_word32 (n : UInt32) : Accepts word32 n (Nat.toDigits 10 n.toNat) := by
  have small := n.toNat_lt
  have fits : n.toNat ≤ maxWord := by
    rw [maxWord]
    omega
  obtain ⟨ne, digits⟩ := digits_toDigits n.toNat
  have numbers : ∀ rest, Delimited rest →
      number (Nat.toDigits 10 n.toNat ++ rest) = .ok (.integer n.toNat, rest) :=
    fun _ => number_toDigits fits
  generalize Nat.toDigits 10 n.toNat = ds at *
  cases ds with
  | nil => exact absurd rfl ne
  | cons d ds =>
      have digit : d.isDigit = true := digits d List.mem_cons_self
      obtain ⟨c, more, eq, visible, apart⟩ := opens_of_isDigit digit ds
      obtain ⟨rfl, rfl⟩ := List.cons.inj eq
      refine ⟨⟨d, ds, rfl, visible, apart⟩, fun g rest gap delimited => ?_⟩
      obtain ⟨step, eq, value, after⟩ := (reads_numeral (numbers rest delimited)).exists_step
      refine reads_behindGap gap visible ⟨step.map fun _ => n, ?_, rfl, after⟩
      rw [if_pos (.inr digit)]
      have numeral : numeral (d :: ds.append rest) = .ok step := eq
      simp only [numeral, bind, Except.bind, value]
      rw [if_pos (by omega)]
      simp

/-! ## Lists -/

/-- What stands between an opening bracket or a value and the next value, but for the white
space before that. -/
def Lead (isFirst : Bool) (lead : Text) : Prop :=
  if isFirst then lead = [] else ∃ g, Gap g ∧ lead = g ++ [',']

theorem lead_first : Lead true [] := rfl

theorem lead_next {g : Text} (gap : Gap g) : Lead false (g ++ [',']) := ⟨g, gap, rfl⟩

theorem element?_some {isFirst : Bool} {lead g t : Text} (leads : Lead isFirst lead) (gap : Gap g)
    (opens : Opens t) : element? isFirst (lead ++ (g ++ t)) = .ok (some t) := by
  have start : dropGap (g ++ t) = t := by simpa using opens.dropGap gap []
  obtain ⟨c, more, rfl, visible, noComma, noList, noRecord⟩ := opens
  cases isFirst with
  | true =>
      obtain rfl : lead = [] := leads
      simp [element?, start, noList]
  | false =>
      obtain ⟨g', gap', rfl⟩ := leads
      have comma : dropGap (g' ++ ',' :: (g ++ c :: more)) = ',' :: (g ++ c :: more) :=
        dropGap_append gap' (shown_cons rfl _)
      simp [element?, comma, start, noList]

theorem element?_none (isFirst : Bool) {g : Text} (gap : Gap g) (rest : Text) :
    element? isFirst (g ++ ']' :: rest) = .ok none := by
  have closing : dropGap (g ++ ']' :: rest) = ']' :: rest := dropGap_closing .list gap rest
  simp only [element?, closing, if_true]

theorem reads_listEnd {g : Text} (gap : Gap g) (rest : Text) :
    Reads listEnd (g ++ ']' :: rest) () rest :=
  reads_behindGap gap rfl ⟨⟨(), rest, by simp⟩, if_pos rfl, rfl, rfl⟩

section

variable {α : Type} {read : Reader α}

theorem reads_elements_nil (isFirst : Bool) {g : Text} (gap : Gap g) (rest : Text) :
    Reads (elements read isFirst) (g ++ ']' :: rest) [] rest := by
  obtain ⟨step, eq, -, after⟩ := (reads_listEnd gap rest).exists_step
  have none := element?_none isFirst gap rest
  rw [Reads, outcome, elements]
  split <;> rename_i found <;> cases none.symm.trans found
  simp only [eq, Except.map, Step.map, after]

theorem reads_elements_cons {isFirst : Bool} {t next more rest : Text} {a : α} {as : List α}
    (found : element? isFirst t = .ok (some next)) (first : Reads read next a more)
    (others : Reads (elements read false) more as rest) :
    Reads (elements read isFirst) t (a :: as) rest := by
  obtain ⟨step, eq, value, rfl⟩ := first.exists_step
  obtain ⟨step', eq', value', after'⟩ := others.exists_step
  rw [Reads, outcome, elements]
  split
  · next found' => cases found.symm.trans found'
  · next found' => cases found.symm.trans found'
  · next u found' =>
    obtain rfl := Option.some.inj (Except.ok.inj (found.symm.trans found'))
    split
    · next error => cases eq.symm.trans error
    · next step'' ok =>
      obtain rfl := Except.ok.inj (eq.symm.trans ok)
      simp only [eq', Except.map, Step.map, Step.widen, value, value', after']

/-- The elements of a list are read up to its closing bracket. -/
theorem reads_elements {ts : List Text} {u : Text} (h : Separated ts u) {as : List α}
    (each : List.Forall₂ (Accepts read) as ts) {isFirst : Bool} {lead : Text}
    (leads : Lead isFirst lead) (rest : Text) :
    Reads (elements read isFirst) (lead ++ (u ++ ']' :: rest)) as rest := by
  induction h generalizing as isFirst lead with
  | @one t g g' before after =>
      obtain ⟨a, _, accepts, last, rfl⟩ := List.forall₂_cons_right_iff.1 each
      cases last
      have first := accepts.reads [] (g' ++ ']' :: rest) gap_nil
        (.of_gap after (delimited_bracket rest))
      have found := element?_some leads before (accepts.opens.append (g' ++ ']' :: rest))
      simpa only [List.append_assoc] using
        reads_elements_cons found first (reads_elements_nil false after rest)
  | @more t g g' u ts before after others ih =>
      obtain ⟨a, as, accepts, behind, rfl⟩ := List.forall₂_cons_right_iff.1 each
      have following := ih behind (lead_next after)
      rw [List.append_assoc, List.singleton_append] at following
      have first := accepts.reads [] (g' ++ ',' :: (u ++ ']' :: rest)) gap_nil
        (.of_gap after (delimited_comma _))
      have found := element?_some leads before
        (accepts.opens.append (g' ++ ',' :: (u ++ ']' :: rest)))
      simpa only [List.append_assoc, List.cons_append] using
        reads_elements_cons found first following

/-- A list is accepted if each of its elements is. -/
theorem accepts_list {ts : List Text} {t : Text} (h : Enclosed '[' ']' ts t) {as : List α}
    (each : List.Forall₂ (Accepts read) as ts) : Accepts (list read) as t := by
  refine ⟨h.opens (.inl rfl), fun g rest gap delimited => ?_⟩
  have inside : ∀ u : Text, Reads (elements read true) u as rest →
      Reads (list read) (g ++ '[' :: u) as rest := by
    intro u read
    obtain ⟨step, eq, value, after⟩ := read.exists_step
    refine reads_behindGap gap rfl ⟨step.widen (by simp), ?_, value, after⟩
    rw [if_pos rfl, eq]
    rfl
  cases h with
  | empty blank =>
      cases each
      have read := inside _ (reads_elements_nil true blank rest)
      simpa only [List.cons_append, List.append_assoc, List.nil_append] using read
  | filled separated =>
      have read := inside _ (reads_elements separated each lead_first rest)
      simpa only [List.cons_append, List.append_assoc, List.nil_append] using read

end

end Wikidown.Json
