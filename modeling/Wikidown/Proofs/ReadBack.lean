/-
# Wikidown.Proofs.ReadBack -- code spans and links as a Markdown reader takes them

Two readers, written from the rules of Markdown and not from the writers.

`readSpan?` ends a code span at the first later run of exactly as many backticks as it began
with.  A run inside the code is shorter than the fence (`untilRun?_append`), and the padding that
the writer puts around code with a backtick at an end is the one that the reader takes off; so
all code is read back but the empty one and code between spaces of its own
(`readSpan?_codeSpan_iff`).

`readLink?` ends a text or a destination at the first mark without a backslash.  Where the end
mark and the backslash are escaped, the reader gets the text back (`readUntil?_escapeWhere`).  It
takes a destination that starts with `<` for one between angle brackets, and there the writer
and the reader part: without white space in it a `<` is written bare (`readLink?_link_iff`).
-/
import Wikidown.Proofs.Cuts
import Wikidown.Proofs.FencedCode

namespace Wikidown.Markdown

set_option autoImplicit false

open Text (EndsRun endsRun_dropWhile takeWhile_run dropWhile_run)

/-! ## Reading a code span -/

/-- What stands before the first run of exactly `n` backticks, and what stands behind it. -/
def untilRun? (n : Nat) : Text → Option (Text × Text)
  | [] => none
  | c :: rest =>
      if c = tick then
        let run := c :: rest.takeWhile (· == tick)
        let behind := rest.dropWhile (· == tick)
        if run.length = n then some ([], behind)
        else (untilRun? n behind).map fun (content, after) => (run ++ content, after)
      else (untilRun? n rest).map fun (content, after) => (c :: content, after)
termination_by t => t.length
decreasing_by
  · have := length_dropWhile_le (· == tick) rest
    simp only [List.length_cons]
    omega
  · simp

/-- Content that starts and ends with a space, and has something else, loses both. -/
def unpad (content : Text) : Text :=
  if content.head? = some ' ' ∧ content.getLast? = some ' ' ∧ content.all (· == ' ') = false then
    content.tail.dropLast
  else content

/-- A code span at the start of a text: its code, and the text behind it. -/
def readSpan? (t : Text) : Option (Text × Text) :=
  let fence := t.takeWhile (· == tick)
  if fence.isEmpty then none
  else (untilRun? fence.length (t.dropWhile (· == tick))).map fun (content, after) =>
    (unpad content, after)

/-! ## Runs of backticks in code -/

theorem infix_longestRunFrom (k : Nat) (t : Text) :
    ticks (longestRunFrom k t) <:+: ticks k ++ t := by
  induction t generalizing k with
  | nil => simp [longestRunFrom]
  | cons c t ih =>
      simp only [longestRunFrom]
      split
      · next eq =>
        subst eq
        have same : ticks (k + 1) ++ t = ticks k ++ tick :: t := by
          simp [ticks, List.replicate_succ']
        exact same ▸ ih (k + 1)
      · rcases Nat.le_total (longestRunFrom 0 t) k with le | le
        · rw [Nat.max_eq_left le]
          exact (List.prefix_append _ _).isInfix
        · rw [Nat.max_eq_right le]
          have within : ticks (longestRunFrom 0 t) <:+: t := by simpa [ticks] using ih 0
          exact within.trans ((List.suffix_cons c t).trans (List.suffix_append _ _)).isInfix

/-- The longest run of backticks in a text has length `n`. -/
def IsLongestRun (n : Nat) (t : Text) : Prop :=
  ticks n <:+: t ∧ ∀ m, ticks m <:+: t → m ≤ n

theorem isLongestRun_longestRun (t : Text) : IsLongestRun (longestRun t) t :=
  ⟨infix_longestRunFrom 0 t, fun _ inside => le_longestRun inside⟩

theorem all_ticks (n : Nat) : ∀ c ∈ ticks n, (c == tick) = true := by
  intro c mem
  rw [List.eq_of_mem_replicate mem, beq_self_eq_true]

theorem length_ticks (n : Nat) : (ticks n).length = n := List.length_replicate

theorem endsRun_tick {t : Text} (h : t.head? ≠ some tick) : EndsRun (· == tick) t := by
  intro c head
  have ne : c ≠ tick := fun eq => h (eq ▸ head)
  simpa using ne

/-- A text starts with a run of backticks, perhaps an empty one. -/
theorem exists_run (t : Text) : ∃ r others, t = ticks r ++ others ∧ others.head? ≠ some tick := by
  refine ⟨(t.takeWhile (· == tick)).length, t.dropWhile (· == tick), ?_, fun head => ?_⟩
  · rw [← eq_ticks List.all_takeWhile, List.takeWhile_append_dropWhile]
  · exact absurd (endsRun_dropWhile (· == tick) t tick head) (by decide)

/-- A run of backticks is looked at as a whole. -/
theorem untilRun?_ticks {k : Nat} {rest : Text} (positive : 0 < k)
    (behind : rest.head? ≠ some tick) (n : Nat) :
    untilRun? n (ticks k ++ rest) = if k = n then some ([], rest)
      else (untilRun? n rest).map fun (content, after) => (ticks k ++ content, after) := by
  obtain ⟨m, rfl⟩ : ∃ m, k = m + 1 := ⟨k - 1, by omega⟩
  have cons : ticks (m + 1) = tick :: ticks m := rfl
  have run := takeWhile_run (all_ticks m) (endsRun_tick behind)
  have after := dropWhile_run (all_ticks m) (endsRun_tick behind)
  rw [cons, List.cons_append, untilRun?, if_pos rfl]
  simp only [run, after, List.length_cons, length_ticks, List.cons_append]

/-- Content whose runs are shorter than the fence ends at the fence. -/
theorem untilRun?_append {n : Nat} {content rest : Text} (positive : 0 < n)
    (shorter : ∀ m, ticks m <:+: content → m < n) (ends : content.getLast? ≠ some tick)
    (behind : rest.head? ≠ some tick) :
    untilRun? n (content ++ (ticks n ++ rest)) = some (content, rest) := by
  induction length : content.length using Nat.strongRecOn generalizing content with
  | _ k ih =>
    have step : ∀ {front more : Text}, content = front ++ more → front ≠ [] →
        untilRun? n (more ++ (ticks n ++ rest)) = some (more, rest) := by
      rintro front more rfl ne
      refine ih more.length ?_ (fun m inside => ?_) (fun last => ends ?_) rfl
      · have := List.length_pos_iff.2 ne
        simp only [List.length_append] at length
        omega
      · exact shorter m (inside.trans (List.suffix_append _ _).isInfix)
      · rw [List.getLast?_append, last, Option.some_or]
    cases content with
    | nil => rw [List.nil_append, untilRun?_ticks positive behind, if_pos rfl]
    | cons c more =>
        by_cases isTick : c = tick
        · -- The run that starts here ends in the content, since the content ends otherwise.
          obtain ⟨r, others, run, stops⟩ := exists_run (c :: more)
          have starts : 0 < r := by
            refine Nat.pos_of_ne_zero fun none => stops ?_
            rw [none, ticks, List.replicate_zero, List.nil_append] at run
            rw [← run, isTick, List.head?_cons]
          have filled : others ≠ [] := by
            intro none
            rw [run, none, List.append_nil, ticks, List.getLast?_replicate,
              if_neg (by omega)] at ends
            exact ends rfl
          have short : r ≠ n := fun eq =>
            absurd (shorter r ⟨[], others, by rw [run]; rfl⟩) (by omega)
          have front : ticks r ≠ [] := List.ne_nil_of_length_pos (by rwa [length_ticks])
          rw [run, List.append_assoc, untilRun?_ticks starts, if_neg short, step run front]
          · rfl
          · cases others with
            | nil => exact absurd rfl filled
            | cons d others => exact stops
        · have others : untilRun? n (more ++ (ticks n ++ rest)) = some (more, rest) :=
            step (List.singleton_append ..).symm (List.cons_ne_nil c [])
          rw [List.cons_append, untilRun?, if_neg isTick, others]
          rfl

/-! ## Code spans -/

/-- Code as it stands between its fences. -/
def fenced (code : Text) : Text :=
  if code.head? = some tick ∨ code.getLast? = some tick then ' ' :: (code ++ [' ']) else code

theorem codeSpan_eq (code : Text) : codeSpan code =
    ticks (longestRun code + 1) ++ (fenced code ++ ticks (longestRun code + 1)) := by
  unfold codeSpan fenced
  split <;> simp

theorem fenced_ne_nil {code : Text} (text : code ≠ []) : fenced code ≠ [] := by
  unfold fenced
  split
  · simp
  · exact text

theorem head?_fenced (code : Text) : (fenced code).head? ≠ some tick := by
  unfold fenced
  split
  · exact fun head => absurd (Option.some.inj head) (by decide)
  · next bare => exact fun head => bare (.inl head)

theorem getLast?_fenced (code : Text) : (fenced code).getLast? ≠ some tick := by
  unfold fenced
  split
  · rw [← List.cons_append, List.getLast?_concat]
    decide
  · next bare => exact fun last => bare (.inr last)

/-- The padding of the code adds nothing to a run of backticks. -/
theorem infix_of_infix_fenced {m : Nat} {code : Text} (h : ticks m <:+: fenced code) :
    ticks m <:+: code := by
  have apart : ' ' ∉ ticks m := fun mem => absurd (List.eq_of_mem_replicate mem) (by decide)
  have none : ∀ {t : Text}, ticks m <:+: [] → ticks m <:+: t := fun inside => by
    rw [List.infix_nil.1 inside]
    exact List.nil_infix
  unfold fenced at h
  split at h
  · rcases Text.infix_of_notMem (a := []) apart h with before | inside
    · exact none before
    · rcases Text.infix_of_notMem apart inside with here | after
      · exact here
      · exact none after
  · exact h

/-- The reader takes off the padding that the writer has put on; it takes spaces of the code
itself where the code has them at both ends. -/
theorem unpad_fenced_iff {code : Text} (text : code ≠ []) : unpad (fenced code) = code ↔
    (code.head? = some ' ' → code.getLast? = some ' ' → code.all (· == ' ') = true) := by
  unfold fenced
  split
  · next padded =>
    have ticked : tick ∈ code := by
      rcases padded with head | last
      · exact List.mem_of_mem_head? head
      · exact List.mem_of_mem_getLast? last
    have shown : (' ' :: (code ++ [' '])).all (· == ' ') = false := by
      rw [List.all_eq_false]
      exact ⟨tick, by simp [ticked], by decide⟩
    have off : unpad (' ' :: (code ++ [' '])) = code := by
      rw [unpad, if_pos ⟨rfl, by rw [← List.cons_append, List.getLast?_concat], shown⟩,
        List.tail_cons, List.dropLast_concat]
    refine ⟨fun _ head last => ?_, fun _ => off⟩
    rw [head, last] at padded
    exact absurd padded (by decide)
  · unfold unpad
    split
    · next spaced =>
      obtain ⟨head, last, shown⟩ := spaced
      have shorter : code.tail.dropLast ≠ code := fun eq => by
        have := congrArg List.length eq
        have := List.length_pos_iff.2 text
        simp only [List.length_dropLast, List.length_tail] at *
        omega
      refine ⟨fun eq => absurd eq shorter, fun all => ?_⟩
      rw [all head last] at shown
      cases shown
    · next bare =>
      refine ⟨fun _ head last => ?_, fun _ => rfl⟩
      exact Bool.not_eq_false _ ▸ fun shown => bare ⟨head, last, shown⟩

/-- A span is read up to its second fence. -/
theorem readSpan?_append {n : Nat} {content rest : Text} (positive : 0 < n)
    (shorter : ∀ m, ticks m <:+: content → m < n) (text : content ≠ [])
    (starts : content.head? ≠ some tick) (ends : content.getLast? ≠ some tick)
    (behind : rest.head? ≠ some tick) :
    readSpan? (ticks n ++ (content ++ (ticks n ++ rest))) = some (unpad content, rest) := by
  have stops : EndsRun (· == tick) (content ++ (ticks n ++ rest)) := by
    cases content with
    | nil => exact absurd rfl text
    | cons c content => exact endsRun_tick starts
  have filled : ticks n ≠ [] := List.ne_nil_of_length_pos (by rwa [length_ticks])
  simp only [readSpan?, takeWhile_run (all_ticks n) stops, dropWhile_run (all_ticks n) stops,
    List.isEmpty_iff, if_neg filled, length_ticks, untilRun?_append positive shorter ends behind,
    Option.map_some]

theorem readSpan?_codeSpan {code : Text} (text : code ≠ []) :
    readSpan? (codeSpan code) = some (unpad (fenced code), []) := by
  have shorter : ∀ m, ticks m <:+: fenced code → m < longestRun code + 1 := fun m inside =>
    Nat.lt_succ_of_le (le_longestRun (infix_of_infix_fenced inside))
  have nothing : ([] : Text).head? ≠ some tick := by simp
  have read := readSpan?_append (Nat.succ_pos _) shorter (fenced_ne_nil text)
    (head?_fenced code) (getLast?_fenced code) nothing
  rwa [List.append_nil, ← codeSpan_eq] at read

/-- Without code the two fences are one. -/
theorem readSpan?_codeSpan_nil : readSpan? (codeSpan []) = none := by
  have fences : codeSpan [] = [tick, tick] := by decide
  rw [fences, readSpan?]
  simp [untilRun?]

/-- A code span is read back, up to its end and as the code that was written, exactly if there is
code and it does not both start and end with a space, unless it is all spaces.  Its fence is one
longer than the longest run of backticks in the code. -/
theorem readSpan?_codeSpan_iff (code : Text) :
    (readSpan? (codeSpan code) = some (code, []) ↔ code ≠ [] ∧
      (code.head? = some ' ' → code.getLast? = some ' ' → code.all (· == ' ') = true)) ∧
    (code ≠ [] → ∃ n, IsLongestRun n code ∧
      (codeSpan code).takeWhile (· == tick) = ticks (n + 1)) := by
  constructor
  · by_cases text : code = []
    · subst text
      simp [readSpan?_codeSpan_nil]
    · simp [readSpan?_codeSpan text, unpad_fenced_iff text, text]
  · intro text
    refine ⟨longestRun code, isLongestRun_longestRun code, ?_⟩
    rw [codeSpan_eq]
    refine takeWhile_run (all_ticks _) (endsRun_tick ?_)
    rw [List.head?_append, Option.or_of_isSome]
    · exact head?_fenced code
    · exact List.isSome_head?.2 (fenced_ne_nil text)

/-- Code with a backtick at its start, a run of two inside and a space at its end. -/
theorem readSpan?_codeSpan_ticked :
    readSpan? (codeSpan "\x60a\x60\x60b ") = some ("\x60a\x60\x60b ".toList, []) ∧
      ∃ n, IsLongestRun n "\x60a\x60\x60b " ∧
        (codeSpan "\x60a\x60\x60b ").takeWhile (· == tick) = ticks (n + 1) := by
  obtain ⟨readable, fence⟩ := readSpan?_codeSpan_iff "\x60a\x60\x60b "
  exact ⟨readable.2 ⟨by decide, by decide⟩, fence (by decide)⟩

/-! ## Reading a link -/

/-- The characters that lose a backslash before them. -/
def escapable : Text := "\\[]()<>"

/-- What stands before the first `stop` without a backslash, less the backslashes of escapes,
and what stands behind it. -/
def readUntil? (stop : Char) : Text → Option (Text × Text)
  | [] => none
  | '\\' :: c :: rest =>
      if c ∈ escapable then (readUntil? stop rest).map fun (t, after) => (c :: t, after)
      else (readUntil? stop (c :: rest)).map fun (t, after) => ('\\' :: t, after)
  | c :: rest =>
      if c = stop then some ([], rest)
      else (readUntil? stop rest).map fun (t, after) => (c :: t, after)

/-- A destination up to the parenthesis that closes its link: one that starts with `<` ends at a
`>`, any other at the parenthesis. -/
def readDestination? (t : Text) : Option (Text × Text) :=
  match t with
  | '<' :: inside => do
      let (destination, rest) ← readUntil? '>' inside
      let rest ← Text.dropStart? [')'] rest
      some (destination, rest)
  | _ => readUntil? ')' t

/-- A link at the start of a text: its text, its destination and what stands behind it. -/
def readLink? (t : Text) : Option (Text × Text × Text) := do
  let t ← Text.dropStart? ['['] t
  let (text, t) ← readUntil? ']' t
  let t ← Text.dropStart? ['('] t
  let (destination, rest) ← readDestination? t
  some (text, destination, rest)

theorem readUntil?_escape {stop c : Char} (h : c ∈ escapable) (t : Text) :
    readUntil? stop ('\\' :: c :: t) =
      (readUntil? stop t).map fun (u, after) => (c :: u, after) := by
  rw [readUntil?, if_pos h]

theorem readUntil?_plain {stop c : Char} (plain : c ≠ '\\') (ne : c ≠ stop) (t : Text) :
    readUntil? stop (c :: t) = (readUntil? stop t).map fun (u, after) => (c :: u, after) := by
  rw [readUntil?.eq_3 _ _ _ (by simp_all), if_neg ne]

theorem readUntil?_stop {stop : Char} (plain : stop ≠ '\\') (t : Text) :
    readUntil? stop (stop :: t) = some ([], t) := by
  rw [readUntil?.eq_3 _ _ _ (by simp_all), if_pos rfl]

/-! ## Escaped texts -/

section

variable {p : Char → Bool} {stop : Char}

theorem escapeWhere_cons (p : Char → Bool) (c : Char) (t : Text) :
    escapeWhere p (c :: t) =
      if p c then '\\' :: c :: escapeWhere p t else c :: escapeWhere p t := by
  rw [escapeWhere, List.flatMap_cons]
  split <;> rfl

/-- A text in which the end mark and the backslash are escaped is read back, up to the end mark
behind it. -/
theorem readUntil?_escapeWhere (slash : p '\\' = true) (marked : p stop = true)
    (known : ∀ c, p c = true → c ∈ escapable) (plain : stop ≠ '\\') (t rest : Text) :
    readUntil? stop (escapeWhere p t ++ stop :: rest) = some (t, rest) := by
  induction t with
  | nil => exact readUntil?_stop plain rest
  | cons c t ih =>
      rw [escapeWhere_cons]
      split
      · next escaped =>
        rw [List.cons_append, List.cons_append, readUntil?_escape (known c escaped), ih,
          Option.map_some]
      · next bare =>
        have noSlash : c ≠ '\\' := fun eq => bare (eq ▸ slash)
        have noStop : c ≠ stop := fun eq => bare (eq ▸ marked)
        rw [List.cons_append, readUntil?_plain noSlash noStop, ih, Option.map_some]

/-- Where the end mark is not escaped, what is read up to one inside a text is no longer than
the text. -/
theorem length_of_readUntil? {t behind u rest : Text} (slash : p '\\' = true)
    (known : ∀ c, p c = true → c ∈ escapable) (outside : readUntil? stop behind = none)
    (h : readUntil? stop (escapeWhere p t ++ behind) = some (u, rest)) : u.length ≤ t.length := by
  induction t generalizing u with
  | nil =>
      rw [escapeWhere, List.flatMap_nil, List.nil_append, outside] at h
      cases h
  | cons c t ih =>
      have longer : (readUntil? stop (escapeWhere p t ++ behind)).map
          (fun (v, after) => (c :: v, after)) = some (u, rest) → u.length ≤ (c :: t).length := by
        intro read
        obtain ⟨⟨v, after⟩, inner, eq⟩ := Option.map_eq_some_iff.1 read
        obtain ⟨rfl, rfl⟩ := Prod.mk.inj eq
        exact Nat.succ_le_succ (ih inner)
      rw [escapeWhere_cons] at h
      split at h
      · next escaped =>
        rw [List.cons_append, List.cons_append, readUntil?_escape (known c escaped)] at h
        exact longer h
      · next bare =>
        have noSlash : c ≠ '\\' := fun eq => bare (eq ▸ slash)
        by_cases isStop : c = stop
        · subst isStop
          rw [List.cons_append, readUntil?_stop noSlash] at h
          rw [← (Prod.mk.inj (Option.some.inj h)).1]
          exact Nat.zero_le _
        · rw [List.cons_append, readUntil?_plain noSlash isStop] at h
          exact longer h

end

/-! ## Links -/

theorem dropStart?_cons (c : Char) (t : Text) : Text.dropStart? [c] (c :: t) = some t := by
  simp [Text.dropStart?]

/-- The marks of each of the three escapes lose their backslash again. -/
theorem mem_escapable {a b c d : Char} (known : [a, b, c] ⊆ escapable)
    (h : (d == a || d == b || d == c) = true) : d ∈ escapable := by
  simp only [Bool.or_eq_true, beq_iff_eq] at h
  exact known (by simpa [or_assoc] using h)

theorem readUntil?_linkText (t rest : Text) :
    readUntil? ']' (linkText t ++ ']' :: rest) = some (t, rest) :=
  readUntil?_escapeWhere rfl rfl (fun _ => mem_escapable (by decide)) (by decide) t rest

/-- The text of a link is always read back, so that the destination decides. -/
theorem readLink?_link (t destination : Text) :
    readLink? (link t destination) = (readDestination? (linkDestination destination ++ [')'])).map
      fun (d, rest) => (t, d, rest) := by
  have whole : link t destination =
      '[' :: (linkText t ++ ']' :: '(' :: (linkDestination destination ++ [')'])) := by
    simp [link]
  simp only [readLink?, whole, dropStart?_cons, readUntil?_linkText, Option.bind_eq_bind,
    Option.bind_some]
  cases readDestination? (linkDestination destination ++ [')']) <;> rfl

/-- A destination with white space is read back from between its angle brackets, on one line. -/
theorem readDestination?_spaced {h : Text} (spaced : h.any isSpace = true) :
    readDestination? (linkDestination h ++ [')']) = some (h.map spaceForLineEnd, []) := by
  have read : readUntil? '>' (escapeWhere (fun c => c == '<' || c == '>' || c == '\\')
      (h.map spaceForLineEnd) ++ '>' :: [')']) = some (h.map spaceForLineEnd, [')']) :=
    readUntil?_escapeWhere rfl rfl (fun _ => mem_escapable (by decide)) (by decide) _ _
  rw [linkDestination, if_pos spaced, List.cons_append, List.append_assoc, List.singleton_append,
    readDestination?, read]
  rfl

/-- Any other one is read back up to the parenthesis behind it, unless it starts like one
between angle brackets. -/
theorem readDestination?_bare {h : Text} (bare : h.any isSpace = false)
    (opening : h.head? ≠ some '<') :
    readDestination? (linkDestination h ++ [')']) = some (h, []) := by
  have read : readUntil? ')' (escapeWhere (fun c => c == '\\' || c == '(' || c == ')') h
      ++ ')' :: []) = some (h, []) :=
    readUntil?_escapeWhere rfl rfl (fun _ => mem_escapable (by decide)) (by decide) h []
  have written :
      linkDestination h = escapeWhere (fun c => c == '\\' || c == '(' || c == ')') h := by
    rw [linkDestination, bare]
    rfl
  rw [written]
  unfold readDestination?
  split
  · next inside eq =>
    cases h with
    | nil => cases eq
    | cons c h =>
        rw [escapeWhere_cons] at eq
        split at eq
        · cases eq
        · exact absurd (congrArg some (List.cons.inj eq).1) opening
  · exact read

/-- A `<` at the start of a destination without white space is taken for an angle bracket, and
less than the destination is read. -/
theorem readDestination?_angle {h d rest : Text} (bare : ('<' :: h).any isSpace = false)
    (read : readDestination? (linkDestination ('<' :: h) ++ [')']) = some (d, rest)) :
    d.length ≤ h.length := by
  have written : linkDestination ('<' :: h) =
      '<' :: escapeWhere (fun c => c == '\\' || c == '(' || c == ')') h := by
    rw [linkDestination, bare]
    rfl
  rw [written, List.cons_append, readDestination?] at read
  obtain ⟨⟨u, after⟩, inner, eq⟩ := Option.bind_eq_some_iff.1 read
  obtain ⟨_, -, eq⟩ := Option.bind_eq_some_iff.1 eq
  obtain ⟨rfl, -⟩ := Prod.mk.inj (Option.some.inj eq)
  exact length_of_readUntil? rfl (fun _ => mem_escapable (by decide)) (by decide) inner

theorem map_spaceForLineEnd {h : Text} (bare : h.any isSpace = false) :
    h.map spaceForLineEnd = h := by
  have each : ∀ c ∈ h, spaceForLineEnd c = c := by
    intro c mem
    have visible : isSpace c = false := by simpa using List.any_eq_false.1 bare c mem
    refine if_neg ?_
    rintro (rfl | rfl) <;> cases visible
  rw [List.map_congr_left each, List.map_id']

/-- A link is read back, up to its end, with its text and with its destination on one line,
exactly if the destination does not start with `<` or has white space in it. -/
theorem readLink?_link_iff (t h : Text) :
    readLink? (link t h) = some (t, h.map spaceForLineEnd, []) ↔
      (h.head? = some '<' → h.any isSpace = true) := by
  rw [readLink?_link]
  by_cases spaced : h.any isSpace = true
  · simp [readDestination?_spaced spaced, spaced]
  · rw [Bool.not_eq_true] at spaced
    rw [map_spaceForLineEnd spaced, spaced]
    by_cases opening : h.head? = some '<'
    · obtain ⟨rest, rfl⟩ := List.head?_eq_some_iff.1 opening
      refine iff_of_false (fun read => ?_) (by simp)
      obtain ⟨⟨d, after⟩, found, eq⟩ := Option.map_eq_some_iff.1 read
      have short := readDestination?_angle spaced found
      rw [(Prod.mk.inj (Prod.mk.inj eq).2).1, List.length_cons] at short
      omega
    · simp [readDestination?_bare spaced opening, opening]

/-- An address in angle brackets loses them. -/
theorem link_loses_angle_brackets :
    readLink? (link "x" "<a>") = some ("x".toList, "a".toList, []) ∧
      readLink? (link "x" "<a>") ≠ some ("x".toList, "<a>".toList, []) := by
  decide

end Wikidown.Markdown
