/-
# Wikidown.Proofs.Lines -- a text and its lines

A text is its segments with a line feed between each two, and a list of lines without
line feeds is the segments of the text they join to.  A reader's lines differ from the
segments at two places only: a segment that a line feed ends loses a carriage return,
and an empty last segment is no line (`lines_terminated`, `lines_eq_segments`).
-/
import Wikidown.Text

namespace Wikidown.Text

set_option autoImplicit false

/-! ## Segments -/

@[simp] theorem segments_nil : segments [] = [[]] := rfl

theorem segments_ne_nil (t : Text) : segments t ≠ [] := List.splitOn_ne_nil _ _

theorem segments_append_newline (a b : Text) :
    segments (a ++ '\n' :: b) = segments a ++ segments b :=
  List.splitOn_append_cons_self a b

theorem segments_of_notMem {t : Text} (h : '\n' ∉ t) : segments t = [t] :=
  List.splitOn_eq_singleton h

theorem segments_joinLines {ls : List Text} (ne : ls ≠ []) (h : ∀ l ∈ ls, '\n' ∉ l) :
    segments (joinLines ls) = ls :=
  List.splitOn_intercalate '\n' h ne

/-- A line feed starts a new segment; any other character belongs to the first one. -/
theorem segments_cons (c : Char) (t : Text) :
    segments (c :: t) = if c = '\n' then [] :: segments t else (segments t).modifyHead (c :: ·) := by
  simpa [segments] using List.splitOn_cons_eq_if_modifyHead (a := '\n') c t

theorem mem_of_mem_segments {t l : Text} (h : l ∈ segments t) : ∀ c ∈ l, c ∈ t ∧ c ≠ '\n' := by
  induction t generalizing l with
  | nil => simp_all [segments_nil]
  | cons d t ih =>
      rw [segments_cons] at h
      split at h
      · rcases List.mem_cons.1 h with rfl | h
        · simp
        · intro c hc
          exact ⟨List.mem_cons_of_mem _ (ih h c hc).1, (ih h c hc).2⟩
      · next ne =>
        cases eq : segments t with
        | nil => exact absurd eq (segments_ne_nil t)
        | cons first rest =>
            rw [eq] at h ih
            rcases List.mem_cons.1 h with rfl | h
            · intro c hc
              rcases List.mem_cons.1 hc with rfl | hc
              · exact ⟨List.mem_cons_self, ne⟩
              · have := ih List.mem_cons_self c hc
                exact ⟨List.mem_cons_of_mem _ this.1, this.2⟩
            · intro c hc
              have := ih (List.mem_cons_of_mem _ h) c hc
              exact ⟨List.mem_cons_of_mem _ this.1, this.2⟩

theorem newline_notMem_of_mem_segments {t l : Text} (h : l ∈ segments t) : '\n' ∉ l :=
  fun m => (mem_of_mem_segments h _ m).2 rfl

theorem isBlank_of_mem_segments {t l : Text} (h : l ∈ segments t) (blank : isBlank t = true) :
    isBlank l = true :=
  List.all_eq_true.2 fun c inLine =>
    List.all_eq_true.1 blank c (mem_of_mem_segments h c inLine).1

/-- Every segment with a line feed behind it: the text with one more line feed. -/
theorem flatMap_segments (t : Text) : (segments t).flatMap (· ++ ['\n']) = t ++ ['\n'] := by
  induction t with
  | nil => rfl
  | cons c t ih =>
      rw [segments_cons]
      split
      · next eq => simp [eq, ih]
      · cases eq : segments t with
        | nil => exact absurd eq (segments_ne_nil t)
        | cons first rest => simpa [eq] using ih

theorem intercalate_cons {α : Type} (sep x : List α) (xs : List (List α)) :
    List.intercalate sep (x :: xs) = x ++ xs.flatMap (sep ++ ·) := by
  induction xs generalizing x with
  | nil => simp
  | cons y ys ih => simp [List.intercalate_cons_cons, ih]

/-- A separator behind each list: one between each two, and one at the end. -/
theorem flatMap_append_eq_intercalate {α : Type} (sep : List α) {xs : List (List α)}
    (ne : xs ≠ []) : xs.flatMap (· ++ sep) = List.intercalate sep xs ++ sep := by
  induction xs with
  | nil => exact absurd rfl ne
  | cons x xs ih =>
      cases xs with
      | nil => simp
      | cons y ys =>
          rw [List.flatMap_cons, ih (by simp), List.intercalate_cons_cons]
          simp

theorem mem_intercalate {α : Type} {sep : List α} {xs : List (List α)} {a : α}
    (h : a ∈ List.intercalate sep xs) : a ∈ sep ∨ ∃ x ∈ xs, a ∈ x := by
  cases xs with
  | nil => simp at h
  | cons x xs =>
      simp only [intercalate_cons, List.mem_append, List.mem_flatMap] at h
      rcases h with h | ⟨y, mem, h | h⟩
      · exact .inr ⟨x, List.mem_cons_self, h⟩
      · exact .inl h
      · exact .inr ⟨y, List.mem_cons_of_mem _ mem, h⟩

/-- Lists that are not empty, with a separator between each two, end as the last of them. -/
theorem getLast?_intercalate {α : Type} (sep : List α) {xs : List (List α)} (ne : xs ≠ [])
    (h : ∀ x ∈ xs, x ≠ []) :
    ∃ x ∈ xs, (List.intercalate sep xs).getLast? = x.getLast? := by
  induction xs with
  | nil => exact absurd rfl ne
  | cons x xs ih =>
      cases xs with
      | nil => exact ⟨x, List.mem_cons_self, by simp⟩
      | cons y ys =>
          obtain ⟨z, mem, last⟩ := ih (by simp) fun w hw => h w (List.mem_cons_of_mem _ hw)
          refine ⟨z, List.mem_cons_of_mem _ mem, ?_⟩
          have filled := h z (List.mem_cons_of_mem _ mem)
          rw [List.intercalate_cons_cons, List.getLast?_append, last,
            List.getLast?_eq_some_getLast filled, Option.some_or]

theorem joinLines_append {a b : List Text} (ha : a ≠ []) (hb : b ≠ []) :
    joinLines (a ++ b) = joinLines a ++ '\n' :: joinLines b := by
  have whole := flatMap_append_eq_intercalate ['\n'] (List.append_ne_nil_of_left_ne_nil ha b)
  rw [List.flatMap_append, flatMap_append_eq_intercalate _ ha,
    flatMap_append_eq_intercalate _ hb, ← List.append_assoc] at whole
  have joined := List.append_cancel_right whole
  simpa [joinLines] using joined.symm

theorem joinLines_concat (ls : List Text) (last : Text) :
    joinLines (ls ++ [last]) = ls.flatMap (· ++ ['\n']) ++ last := by
  have filled : ls ++ [last] ≠ [] := by simp
  have whole := flatMap_append_eq_intercalate ['\n'] filled
  rw [List.flatMap_append, List.flatMap_singleton, ← List.append_assoc] at whole
  exact (List.append_cancel_right whole).symm

theorem joinLines_intercalate_blank {parts : List (List Text)} (h : ∀ part ∈ parts, part ≠ []) :
    joinLines (List.intercalate [[]] parts) =
      List.intercalate ['\n', '\n'] (parts.map joinLines) := by
  induction parts with
  | nil => rfl
  | cons a parts ih =>
      cases parts with
      | nil => simp
      | cons b parts =>
          have tail := ih fun part hp => h part (List.mem_cons_of_mem _ hp)
          have first := h a List.mem_cons_self
          have filled : List.intercalate [[]] (b :: parts) ≠ [] := by
            simp [intercalate_cons, h b (by simp)]
          rw [List.intercalate_cons_cons, List.append_assoc, joinLines_append first (by simp),
            joinLines_append (by simp) filled, tail]
          simp [joinLines]

/-- A character that stands in no separator. -/
theorem count_intercalate {α : Type} [BEq α] [LawfulBEq α] {sep : List α} {a : α} (h : a ∉ sep)
    (xs : List (List α)) : (List.intercalate sep xs).count a = xs.flatten.count a := by
  induction xs with
  | nil => rfl
  | cons x xs ih =>
      cases xs with
      | nil => simp
      | cons y ys =>
          have later : (x :: y :: ys).flatten = x ++ (y :: ys).flatten := rfl
          rw [later, List.intercalate_cons_cons, List.count_append, List.count_append,
            List.count_append, ih, List.count_eq_zero.2 h, Nat.add_zero]

theorem segments_intercalate_blank {ts : List Text} (ne : ts ≠ []) :
    segments (List.intercalate ['\n', '\n'] ts) = List.intercalate [[]] (ts.map segments) := by
  induction ts with
  | nil => exact absurd rfl ne
  | cons t ts ih =>
      cases ts with
      | nil => simp
      | cons u us =>
          have tail := ih (by simp)
          simp only [List.map_cons] at tail ⊢
          rw [List.intercalate_cons_cons, List.intercalate_cons_cons, ← tail]
          have split := segments_append_newline t ('\n' :: List.intercalate ['\n', '\n'] (u :: us))
          rw [segments_cons, if_pos rfl] at split
          simpa using split

/-! ## Lines -/

theorem dropReturn_eq_self {l : Text} (h : l.getLast? ≠ some '\r') : dropReturn l = l := by
  unfold dropReturn
  split
  · next before eq =>
    refine absurd ?_ h
    rw [← List.head?_reverse, eq]
    rfl
  · rfl

theorem mem_dropReturn {l : Text} {c : Char} (h : c ∈ dropReturn l) : c ∈ l := by
  unfold dropReturn at h
  split at h
  · next before eq =>
    have : c ∈ l.reverse := eq ▸ List.mem_cons_of_mem _ (List.mem_reverse.1 h)
    exact List.mem_reverse.1 this
  · exact h

theorem isBlank_dropReturn (l : Text) : isBlank (dropReturn l) = isBlank l := by
  unfold dropReturn
  split
  · next before eq =>
    have whole : l = before.reverse ++ ['\r'] := by
      rw [← List.reverse_reverse l, eq, List.reverse_cons]
    simp [whole, isBlank, isSpace]
  · rfl

theorem linesOfSegments_append (ls : List Text) {rest : List Text} (ne : rest ≠ []) :
    linesOfSegments (ls ++ rest) = ls.map dropReturn ++ linesOfSegments rest := by
  induction ls with
  | nil => rfl
  | cons l ls ih =>
      have more : ls ++ rest ≠ [] := by simp [ne]
      cases eq : ls ++ rest with
      | nil => exact absurd eq more
      | cons m ms => simpa [linesOfSegments, eq] using ih

/-- Lines that are each ended by a line feed. -/
theorem lines_terminated {ls : List Text} (h : ∀ l ∈ ls, '\n' ∉ l) :
    lines (ls.flatMap (· ++ ['\n'])) = ls.map dropReturn := by
  have cut : segments (ls.flatMap (· ++ ['\n'])) = ls ++ [[]] := by
    induction ls with
    | nil => rfl
    | cons l ls ih =>
        have here := segments_append_newline l (ls.flatMap (· ++ ['\n']))
        rw [segments_of_notMem (h l List.mem_cons_self),
          ih fun m hm => h m (List.mem_cons_of_mem _ hm)] at here
        simpa using here
  rw [lines, cut, linesOfSegments_append ls (by simp)]
  simp [linesOfSegments]

/-- A text is its terminated lines with what stands behind the last line feed. -/
theorem exists_terminated (t : Text) :
    ∃ ls last, segments t = ls ++ [last] ∧ t = ls.flatMap (· ++ ['\n']) ++ last := by
  rcases List.eq_nil_or_concat (segments t) with nil | ⟨ls, last, cut⟩
  · exact absurd nil (segments_ne_nil t)
  · rw [List.concat_eq_append] at cut
    refine ⟨ls, last, cut, ?_⟩
    have terminated := flatMap_segments t
    rw [cut, List.flatMap_append, List.flatMap_singleton, ← List.append_assoc] at terminated
    exact (List.append_cancel_right terminated).symm

/-- A text is a line, or a line with a line feed and a text behind it. -/
theorem induction_lines {P : Text → Prop} (last : ∀ l, '\n' ∉ l → P l)
    (more : ∀ l t, '\n' ∉ l → P t → P (l ++ '\n' :: t)) (t : Text) : P t := by
  obtain ⟨ls, final, cut, whole⟩ := exists_terminated t
  have noFeed : ∀ l ∈ ls ++ [final], '\n' ∉ l := fun l mem =>
    newline_notMem_of_mem_segments (cut ▸ mem)
  rw [whole]
  clear cut whole
  induction ls with
  | nil => exact last final (noFeed final (by simp))
  | cons l ls ih =>
      have later := ih fun m mem => noFeed m (List.mem_cons_of_mem _ mem)
      have both := more l _ (noFeed l (by simp)) later
      simpa using both

theorem segments_line_append {l : Text} (noFeed : '\n' ∉ l) (t : Text) :
    segments (l ++ '\n' :: t) = l :: segments t := by
  rw [segments_append_newline, segments_of_notMem noFeed]
  rfl

/-- A line feed at the end starts a segment; any other character belongs to the last one. -/
theorem segments_concat {t : Text} {ls : List Text} {last : Text} (h : segments t = ls ++ [last])
    (c : Char) :
    segments (t ++ [c]) = if c = '\n' then ls ++ [last, []] else ls ++ [last ++ [c]] := by
  have noFeed : ∀ l ∈ ls ++ [last], '\n' ∉ l := fun l mem =>
    newline_notMem_of_mem_segments (h ▸ mem)
  have whole : t = joinLines (ls ++ [last]) := by rw [← h, joinLines_segments]
  split
  · next feed =>
    have cut := segments_append_newline t []
    rw [feed, cut, h]
    simp
  · next ne =>
    have joined : t ++ [c] = joinLines (ls ++ [last ++ [c]]) := by
      rw [whole, joinLines_concat, joinLines_concat, List.append_assoc]
    rw [joined, segments_joinLines (by simp)]
    intro l mem
    rcases List.mem_append.1 mem with mem | mem
    · exact noFeed l (List.mem_append_left _ mem)
    · rw [List.mem_singleton.1 mem, List.mem_append, not_or]
      exact ⟨noFeed last (by simp), by simpa using Ne.symm ne⟩

theorem newline_notMem_of_mem_lines {t l : Text} (h : l ∈ lines t) : '\n' ∉ l := by
  obtain ⟨ls, last, cut, -⟩ := exists_terminated t
  have noBreak : ∀ m ∈ ls ++ [last], '\n' ∉ m := fun m hm =>
    newline_notMem_of_mem_segments (cut ▸ hm)
  rw [lines, cut, linesOfSegments_append ls (by simp), List.mem_append, List.mem_map] at h
  rcases h with ⟨m, hm, rfl⟩ | h
  · exact fun mem => noBreak m (List.mem_append_left _ hm) (mem_dropReturn mem)
  · simp only [linesOfSegments] at h
    split at h
    · simp at h
    · rw [List.mem_singleton.1 h]
      exact noBreak last (by simp)

/-- A line holds characters of its text only. -/
theorem mem_of_mem_lines {t l : Text} (h : l ∈ lines t) {c : Char} (mem : c ∈ l) : c ∈ t := by
  obtain ⟨ls, last, cut, -⟩ := exists_terminated t
  have inside : ∀ m ∈ ls ++ [last], c ∈ m → c ∈ t := fun m hm hc =>
    (mem_of_mem_segments (cut ▸ hm) c hc).1
  rw [lines, cut, linesOfSegments_append ls (by simp), List.mem_append, List.mem_map] at h
  rcases h with ⟨m, hm, rfl⟩ | h
  · exact inside m (List.mem_append_left _ hm) (mem_dropReturn mem)
  · simp only [linesOfSegments] at h
    split at h
    · cases h
    · rw [List.mem_singleton.1 h] at mem
      exact inside last (by simp) mem

theorem count_dropReturn_lt {l : Text} (h : l.getLast? = some '\r') :
    (dropReturn l).count '\r' < l.count '\r' := by
  obtain ⟨before, rfl⟩ := List.getLast?_eq_some_iff.1 h
  have dropped : dropReturn (before ++ ['\r']) = before := by simp [dropReturn]
  simp [dropped]

theorem count_dropReturn_le (l : Text) : (dropReturn l).count '\r' ≤ l.count '\r' := by
  by_cases h : l.getLast? = some '\r'
  · exact Nat.le_of_lt (count_dropReturn_lt h)
  · exact Nat.le_of_eq (congrArg (List.count '\r') (dropReturn_eq_self h))

/-- Lines that lose no carriage return end with none. -/
theorem getLast?_ne_of_count_le {ls : List Text}
    (h : ls.flatten.count '\r' ≤ (ls.map dropReturn).flatten.count '\r') :
    ∀ l ∈ ls, l.getLast? ≠ some '\r' := by
  induction ls with
  | nil => simp
  | cons l ls ih =>
      have fewer : (ls.map dropReturn).flatten.count '\r' ≤ ls.flatten.count '\r' := by
        clear h ih
        induction ls with
        | nil => simp
        | cons m ls ih =>
            have := count_dropReturn_le m
            simp only [List.map_cons, List.flatten_cons, List.count_append]
            omega
      have here := count_dropReturn_le l
      simp only [List.map_cons, List.flatten_cons, List.count_append] at h
      intro m hm
      rcases List.mem_cons.1 hm with rfl | hm
      · intro last
        have := count_dropReturn_lt last
        omega
      · exact ih (by omega) m hm

theorem map_dropReturn_of_plain {ls : List Text} (h : ∀ l ∈ ls, l.getLast? ≠ some '\r') :
    ls.map dropReturn = ls :=
  (List.map_congr_left fun l hl => dropReturn_eq_self (h l hl)).trans (List.map_id ls)

/-- A text that neither ends with a line feed nor has a carriage return before one. -/
theorem lines_eq_segments {t : Text} (plain : ∀ l ∈ segments t, l.getLast? ≠ some '\r')
    (ends : (segments t).getLast? ≠ some []) : lines t = segments t := by
  rcases List.eq_nil_or_concat (segments t) with nil | ⟨ls, last, cut⟩
  · exact absurd nil (segments_ne_nil t)
  · rw [List.concat_eq_append] at cut
    rw [cut] at plain ends
    have nonempty : last ≠ [] := by simpa using ends
    rw [lines, cut, linesOfSegments_append ls (by simp),
      map_dropReturn_of_plain fun l hl => plain l (List.mem_append_left _ hl)]
    simp [linesOfSegments, nonempty]

/-! ## Parts of a text that hold no line feed -/

/-- A text without `c` stands on one side of it. -/
theorem infix_of_notMem {α : Type} {x a b : List α} {c : α} (h : c ∉ x)
    (inside : x <:+: a ++ c :: b) : x <:+: a ∨ x <:+: b := by
  obtain ⟨before, behind, eq⟩ := inside
  rw [List.append_assoc, List.append_eq_append_iff] at eq
  rcases eq with ⟨a', rfl, eq⟩ | ⟨c', rfl, eq⟩
  · rw [List.append_eq_append_iff] at eq
    rcases eq with ⟨more, eq, -⟩ | ⟨more, rfl, eq⟩
    · exact .inl ⟨before, more, by rw [eq, List.append_assoc]⟩
    · cases more with
      | nil => exact .inl ⟨before, [], by simp⟩
      | cons d more =>
          obtain ⟨rfl, -⟩ := List.cons.inj eq
          exact absurd (List.mem_append_right _ List.mem_cons_self) h
  · cases c' with
    | nil =>
        cases x with
        | nil => exact .inr ⟨[], b, rfl⟩
        | cons d x =>
            obtain ⟨rfl, -⟩ := List.cons.inj eq
            exact absurd List.mem_cons_self h
    | cons d c' =>
        obtain ⟨-, rfl⟩ := List.cons.inj eq
        exact .inr ⟨c', behind, by simp⟩

theorem infix_of_mem_segments {t l : Text} (h : l ∈ segments t) : l <:+: t := by
  obtain ⟨ls, last, cut, whole⟩ := exists_terminated t
  rw [cut, List.mem_append] at h
  rw [whole]
  rcases h with h | h
  · obtain ⟨before, behind, rfl⟩ := List.append_of_mem h
    exact ⟨before.flatMap (· ++ ['\n']), '\n' :: behind.flatMap (· ++ ['\n']) ++ last, by simp⟩
  · rw [List.mem_singleton.1 h]
    exact (List.suffix_append _ _).isInfix

/-- A part of a text that holds no line feed stands in one segment. -/
theorem exists_segment_of_infix {x t : Text} (h : '\n' ∉ x) (inside : x <:+: t) :
    ∃ l ∈ segments t, x <:+: l := by
  obtain ⟨ls, last, cut, whole⟩ := exists_terminated t
  rw [cut]
  rw [whole] at inside
  clear cut whole
  induction ls with
  | nil => exact ⟨last, by simp, by simpa using inside⟩
  | cons l ls ih =>
      have shape : (l :: ls).flatMap (· ++ ['\n']) ++ last =
          l ++ '\n' :: (ls.flatMap (· ++ ['\n']) ++ last) := by simp
      rw [shape] at inside
      rcases infix_of_notMem h inside with here | later
      · exact ⟨l, by simp, here⟩
      · obtain ⟨m, mem, found⟩ := ih later
        exact ⟨m, List.mem_cons_of_mem _ mem, found⟩

end Wikidown.Text
