/-
# Wikidown.Json.Skip -- values that are not looked at

A value under a key that nobody asked for is skipped: it has to be well-formed, and
it may be nested to any depth.  The loop keeps the brackets that are open around it.
-/
import Wikidown.Json.Lexeme

namespace Wikidown.Json

set_option autoImplicit false

/-- A bracket that is open around a skipped value. -/
inductive Bracket where
  | list
  | record

/-- The character that closes a bracket. -/
def Bracket.closing : Bracket → Char
  | list => ']'
  | record => '}'

/-- What a skipped text has to go on with. -/
inductive Turn where
  /-- A value begins. -/
  | value
  /-- A value has ended. -/
  | next

/-- Behind the key of a skipped value, up to its value; its opening quote is the next
character behind white space. -/
def skipKey (t : Text) : Except Fault Text :=
  match dropGap t with
  | [] => .error .truncated
  | c :: rest =>
      if c = '"' then do
        let step ← skipString rest
        match dropGap step.rest with
        | [] => .error .truncated
        | c :: rest => if c = ':' then .ok rest else .error .malformed
      else .error .malformed

/-- Behind a value that has no brackets and starts with `c`. -/
def skipScalar (c : Char) (rest : Text) : Except Fault Text :=
  match c with
  | 'n' => word "ull" rest
  | 't' => word "rue" rest
  | 'f' => word "alse" rest
  | '-' => skipNumber rest
  | '"' => (skipString rest).map Step.rest
  | _ => if c.isDigit then skipNumber (c :: rest) else .error .malformed

/-- Behind an opening bracket: behind the bracket that closes it at once, or else where its
first value begins. -/
def skipOpening (b : Bracket) (t : Text) : Except Fault (Turn × Text) :=
  match dropGap t with
  | [] => .error .truncated
  | c :: rest =>
      if c = b.closing then .ok (.next, rest)
      else
        match b with
        | .list => .ok (.value, c :: rest)
        | .record => (skipKey (c :: rest)).map fun rest => (.value, rest)

/-- Behind a value in a bracket: behind the closing bracket, or where the next value
begins. -/
def skipBetween (b : Bracket) (t : Text) : Except Fault (Turn × Text) :=
  match dropGap t with
  | [] => .error .truncated
  | c :: rest =>
      if c = b.closing then .ok (.next, rest)
      else if c = ',' then
        match b with
        | .list => .ok (.value, rest)
        | .record => (skipKey rest).map fun rest => (.value, rest)
      else .error .malformed

/-! ## Every reader leaves a shorter rest -/

theorem length_of_word {w t rest : Text} (h : word w t = .ok rest) :
    rest.length ≤ t.length := by
  induction w generalizing t with
  | nil => simp only [word, Except.ok.injEq] at h; subst h; exact Nat.le_refl _
  | cons c w ih =>
      cases t with
      | nil => simp [word] at h
      | cons d t =>
          simp only [word] at h
          split at h
          · exact Nat.le_succ_of_le (ih h)
          · simp at h

theorem length_of_skipExponent {t rest : Text} (h : skipExponent t = .ok rest) :
    rest.length ≤ t.length := by
  simp only [skipExponent] at h
  split at h
  · next c after =>
    split at h
    · split at h
      · next d digits eq =>
        split at h
        · simp only [Except.ok.injEq] at h
          subst h
          have le := length_dropWhile_le Char.isDigit digits
          split at eq <;> simp_all <;> omega
        · simp at h
      · simp at h
    · simp only [Except.ok.injEq] at h
      exact h ▸ Nat.le_refl _
  · simp only [Except.ok.injEq] at h
    exact h ▸ Nat.le_refl _

theorem length_of_skipFraction {t rest : Text} (h : skipFraction t = .ok rest) :
    rest.length ≤ t.length := by
  simp only [skipFraction] at h
  split at h
  · next d after =>
    split at h
    · have := length_of_skipExponent h
      have := length_dropWhile_le Char.isDigit after
      simp only [List.length_cons]
      omega
    · simp at h
  · simp at h
  · exact length_of_skipExponent h

theorem length_of_skipNumber {t rest : Text} (h : skipNumber t = .ok rest) :
    rest.length < t.length := by
  simp only [skipNumber] at h
  split at h
  · next after =>
    split at h
    · split at h
      · simp at h
      · exact Nat.lt_succ_of_le (length_of_skipFraction h)
    · simp only [Except.ok.injEq] at h
      subst h
      simp
  · next d after _ =>
    split at h
    · have := length_of_skipFraction h
      have := length_dropWhile_le Char.isDigit after
      simp only [List.length_cons]
      omega
    · simp at h
  · simp at h

theorem length_of_skipScalar {c : Char} {t rest : Text} (h : skipScalar c t = .ok rest) :
    rest.length ≤ t.length := by
  simp only [skipScalar] at h
  split at h
  · exact length_of_word h
  · exact length_of_word h
  · exact length_of_word h
  · exact Nat.le_of_lt (length_of_skipNumber h)
  · cases eq : skipString t with
    | error fault => simp [eq, Except.map] at h
    | ok step =>
        simp only [eq, Except.map, Except.ok.injEq] at h
        exact h ▸ Nat.le_of_lt step.shorter
  · split at h
    · exact Nat.le_of_lt_succ (length_of_skipNumber h)
    · simp at h

theorem length_of_skipKey {t rest : Text} (h : skipKey t = .ok rest) :
    rest.length < t.length := by
  have gap := length_dropGap_le t
  simp only [skipKey] at h
  split at h
  · simp at h
  · next c after eq =>
    rw [eq, List.length_cons] at gap
    split at h
    · cases read : skipString after with
      | error fault => simp [read, bind, Except.bind] at h
      | ok step =>
          have := step.shorter
          have gap' := length_dropGap_le step.rest
          simp only [read, bind, Except.bind] at h
          split at h
          · simp at h
          · next eq' =>
            rw [eq', List.length_cons] at gap'
            split at h
            · simp only [Except.ok.injEq] at h
              subst h
              omega
            · simp at h
    · simp at h

theorem length_of_map_skipKey {t rest : Text} {turn : Turn}
    (h : ((skipKey t).map fun rest => (Turn.value, rest)) = .ok (turn, rest)) :
    rest.length < t.length := by
  cases read : skipKey t with
  | error fault => simp [read, Except.map] at h
  | ok after =>
      simp only [read, Except.map, Except.ok.injEq, Prod.mk.injEq] at h
      exact h.2 ▸ length_of_skipKey read

theorem length_of_skipOpening {b : Bracket} {t rest : Text} {turn : Turn}
    (h : skipOpening b t = .ok (turn, rest)) : rest.length ≤ t.length := by
  have gap := length_dropGap_le t
  simp only [skipOpening] at h
  split at h
  · simp at h
  · next c after eq =>
    rw [eq] at gap
    split at h
    · simp only [Except.ok.injEq, Prod.mk.injEq] at h
      rw [h.2, List.length_cons] at gap
      omega
    · split at h
      · simp only [Except.ok.injEq, Prod.mk.injEq] at h
        exact h.2 ▸ gap
      · have := length_of_map_skipKey h
        omega

theorem length_of_skipBetween {b : Bracket} {t rest : Text} {turn : Turn}
    (h : skipBetween b t = .ok (turn, rest)) : rest.length < t.length := by
  have gap := length_dropGap_le t
  simp only [skipBetween] at h
  split at h
  · simp at h
  · next c after eq =>
    rw [eq, List.length_cons] at gap
    split at h
    · simp only [Except.ok.injEq, Prod.mk.injEq] at h
      rw [h.2] at gap
      omega
    · split at h
      · split at h
        · simp only [Except.ok.injEq, Prod.mk.injEq] at h
          rw [h.2] at gap
          omega
        · have := length_of_map_skipKey h
          omega
      · simp at h

/-! ## The loop -/

/-- Behind the skipped value that the open brackets stand around. -/
def skip (turn : Turn) (opened : List Bracket) (t : Text) : Except Fault Text :=
  match turn, opened with
  | .next, [] => .ok t
  | .next, b :: outer =>
      match _h : skipBetween b t with
      | .error fault => .error fault
      | .ok (.next, rest) => skip .next outer rest
      | .ok (.value, rest) => skip .value (b :: outer) rest
  | .value, opened =>
      match _eq : dropGap t with
      | [] => .error .truncated
      | c :: rest =>
          if c = '[' ∨ c = '{' then
            let b := if c = '[' then Bracket.list else .record
            match _h : skipOpening b rest with
            | .error fault => .error fault
            | .ok (.next, rest) => skip .next opened rest
            | .ok (.value, rest) => skip .value (b :: opened) rest
          else
            match _h : skipScalar c rest with
            | .error fault => .error fault
            | .ok rest => skip .next opened rest
termination_by t.length
decreasing_by
  · exact length_of_skipBetween _h
  · exact length_of_skipBetween _h
  · have gap := length_dropGap_le t
    have := length_of_skipOpening _h
    rw [_eq, List.length_cons] at gap
    omega
  · have gap := length_dropGap_le t
    have := length_of_skipOpening _h
    rw [_eq, List.length_cons] at gap
    omega
  · have gap := length_dropGap_le t
    have := length_of_skipScalar _h
    rw [_eq, List.length_cons] at gap
    omega

theorem length_of_skip {turn : Turn} {opened : List Bracket} {t rest : Text}
    (h : skip turn opened t = .ok rest) : rest.length ≤ t.length := by
  fun_induction skip turn opened t with
  | case1 => simp only [Except.ok.injEq] at h; exact h ▸ Nat.le_refl _
  | case2 => simp at h
  | case3 t b outer after found ih =>
      have := length_of_skipBetween found
      have := ih h
      omega
  | case4 t b outer after found ih =>
      have := length_of_skipBetween found
      have := ih h
      omega
  | case5 => simp at h
  | case6 => simp at h
  | case7 t opened c after eq _ b after' found ih =>
      have gap := length_dropGap_le t
      have := length_of_skipOpening found
      have := ih h
      rw [eq, List.length_cons] at gap
      omega
  | case8 t opened c after eq _ b after' found ih =>
      have gap := length_dropGap_le t
      have := length_of_skipOpening found
      have := ih h
      rw [eq, List.length_cons] at gap
      omega
  | case9 => simp at h
  | case10 t opened c after eq _ after' found ih =>
      have gap := length_dropGap_le t
      have := length_of_skipScalar found
      have := ih h
      rw [eq, List.length_cons] at gap
      omega

/-- The text behind a value. -/
def skipValue (t : Text) : Except Fault Text := skip .value [] t

end Wikidown.Json
