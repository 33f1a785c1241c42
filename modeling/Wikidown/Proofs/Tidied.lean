/-
# Wikidown.Proofs.Tidied -- lines that `tidy` leaves as they are

Lines without backticks open no code block and close none, so that `tidy` looks at their
white space only.  What `tidy` has kept of any lines it keeps again
(`tidyLines_tidyLines`), its kept lines are the segments of what it writes
(`segments_tidy`), and it writes no character that it has not read (`count_tidyLines_le`).
-/
import Wikidown.Proofs.FencedCode

namespace Wikidown.Markdown

set_option autoImplicit false

/-! ## Lines without backticks -/

theorem dropQuotes_suffix (limit : Nat) (l : Text) : dropQuotes limit l <:+ l := by
  induction l generalizing limit with
  | nil => exact List.suffix_refl _
  | cons c l ih =>
      simp only [dropQuotes]
      split
      · exact (ih limit).trans (List.suffix_cons c l)
      · split
        · split
          · exact List.suffix_refl _
          · exact (ih _).trans (List.suffix_cons c l)
        · exact List.suffix_refl _

/-- Without its markers a line is a part of itself at its end. -/
theorem dropMarkersFrom_suffix {number? : Option Text} {l whole : Text} (here : l <:+ whole)
    (number : ∀ n, number? = some n → n <:+ whole) : dropMarkersFrom number? l <:+ whole := by
  induction l generalizing number? with
  | nil =>
      cases number? with
      | none => exact List.nil_suffix
      | some n => exact number n rfl
  | cons c rest ih =>
      have tail : rest <:+ whole := (List.suffix_cons c rest).trans here
      cases number? with
      | none =>
          simp only [dropMarkersFrom]
          split
          · exact ih tail number
          · split
            · exact ih tail fun n h => Option.some.inj h ▸ here
            · split
              · exact ih tail number
              · exact here
      | some n =>
          simp only [dropMarkersFrom]
          split
          · exact ih tail number
          · split
            · exact ih tail (by simp)
            · exact number n rfl

namespace Fence

theorem open?_of_notMem {l : Text} (h : tick ∉ l) : open? l = none := by
  have body : dropMarkers (dropQuotes (quoteDepth l) l) <:+ l :=
    (dropMarkersFrom_suffix (List.suffix_refl _) (by simp)).trans (dropQuotes_suffix _ l)
  have none : (dropMarkers (dropQuotes (quoteDepth l) l)).takeWhile (· == tick) = [] := by
    cases eq : dropMarkers (dropQuotes (quoteDepth l) l) with
    | nil => rfl
    | cons c rest =>
        have ne : c ≠ tick := by
          rintro rfl
          exact h (body.subset (eq ▸ List.mem_cons_self))
        simp [ne]
  simp [open?, none]

theorem isClosedBy_of_notMem {fence : Fence} {l : Text} (enough : 0 < fence.ticks)
    (h : tick ∉ l) : fence.isClosedBy l = false := by
  cases closes : fence.isClosedBy l with
  | false => rfl
  | true =>
      simp only [isClosedBy, Bool.and_eq_true, decide_eq_true_eq] at closes
      obtain ⟨long, all⟩ := closes
      cases eq : Text.trim (dropQuotes fence.quotes l) with
      | nil => simp [eq] at long; omega
      | cons c rest =>
          have inside : c ∈ l := by
            have mem : c ∈ Text.trim (dropQuotes fence.quotes l) := eq ▸ List.mem_cons_self
            exact (dropQuotes_suffix _ l).subset ((Text.isInfix_trim _).subset mem)
          simp only [eq, List.all_cons, Bool.and_eq_true, beq_iff_eq] at all
          exact absurd (all.1 ▸ inside) h

end Fence

/-- A line of words: not blank and without backticks. -/
structure Worded (l : Text) : Prop where
  text : Text.isBlank l = false
  noTick : tick ∉ l

namespace Scan

theorem next_worded {place : Scan} {l : Text} (words : Worded l) (out : place.inCode = false)
    (following : List Text) : place.next l following = .line := by
  have opens := Fence.open?_of_notMem words.noTick
  cases place with
  | code fence => simp [inCode] at out
  | _ => simp [next, words.text, after, opens]

/-- Lines of words are kept as they are, and none of them leaves a fence loose. -/
theorem keepAll_worded {place : Scan} (here : place = start ∨ place = .line) {ls : List Text}
    (words : ∀ l ∈ ls, Worded l) :
    place.keepAll ls [] = ls ∧ place.looseFences ls = [] := by
  induction ls generalizing place with
  | nil => exact ⟨rfl, rfl⟩
  | cons l ls ih =>
      have word := words l List.mem_cons_self
      have out : place.inCode = false := by
        rcases here with rfl | rfl <;> rfl
      have kept : place.keep l = [l] := by
        rcases here with rfl | rfl <;> simp [keep, word.text, separator]
      obtain ⟨later, loose⟩ := @ih .line (.inr rfl) fun m hm => words m (List.mem_cons_of_mem _ hm)
      constructor
      · rw [keepAll, next_worded word out, kept, later]
        rfl
      · rw [looseFences, next_worded word out, loose, opened?, Fence.open?_of_notMem word.noTick]
        simp

/-! ## Cleanup is done once -/

/-- Where the scan of kept lines stands: a gap is not written before the line behind it. -/
def settle : Scan → Scan
  | gap => .line
  | place => place

theorem mem_keep {place : Scan} {l kept : Text} (h : kept ∈ place.keep l) :
    kept = l ∨ kept = [] := by
  cases place with
  | code fence => exact .inl (List.mem_singleton.1 h)
  | gap =>
      simp only [keep] at h
      split at h
      · simp at h
      · simpa [separator, or_comm] using h
  | _ =>
      simp only [keep] at h
      split at h
      · simp at h
      · exact .inl (by simpa [separator] using h)

/-- What is kept was there, or parts what was there. -/
theorem mem_keepAll {place : Scan} {ls following : List Text} {l : Text}
    (h : l ∈ place.keepAll ls following) : l ∈ ls ∨ l = [] := by
  induction ls generalizing place with
  | nil => simp [keepAll] at h
  | cons m ls ih =>
      rw [keepAll, List.mem_append] at h
      rcases h with h | h
      · rcases mem_keep h with rfl | h
        · exact .inl List.mem_cons_self
        · exact .inr h
      · exact (ih h).imp (List.mem_cons_of_mem _) id

/-- A line that is not blank is kept. -/
theorem mem_keep_of_text {l : Text} (text : Text.isBlank l = false) (place : Scan) :
    l ∈ place.keep l := by
  cases place <;> simp [keep, text]

theorem mem_keepAll_of_text {ls following : List Text} {l : Text} (mem : l ∈ ls)
    (text : Text.isBlank l = false) (place : Scan) : l ∈ place.keepAll ls following := by
  induction ls generalizing place with
  | nil => simp at mem
  | cons m ls ih =>
      rw [keepAll, List.mem_append]
      rcases List.mem_cons.1 mem with rfl | later
      · exact .inl (mem_keep_of_text text place)
      · exact .inr (ih later _)

/-- Inside a code block the line that closes it is kept. -/
theorem any_keepAll_code {fence : Fence} {ls : List Text}
    (h : ls.any fence.isClosedBy = true) :
    ((code fence).keepAll ls []).any fence.isClosedBy = true := by
  induction ls with
  | nil => simp at h
  | cons l ls ih =>
      rw [keepAll, List.any_append]
      cases closes : fence.isClosedBy l with
      | true => simp [keep, closes]
      | false =>
          have later : ls.any fence.isClosedBy = true := by simpa [closes] using h
          simp [next, closes, ih later]

/-- A line of text that was kept is followed by the same code as before. -/
theorem after_keepAll (l : Text) (ls : List Text) :
    after l ((after l ls).keepAll ls []) = after l ls := by
  cases opens : Fence.open? l with
  | none => simp [after, opens]
  | some fence =>
      cases closes : ls.any fence.isClosedBy with
      | true =>
          have behind : after l ls = code fence := by simp [after, opens, closes]
          rw [behind]
          simp [after, opens, any_keepAll_code closes]
      | false =>
          have behind : after l ls = .line := by simp [after, opens, closes]
          have still : (Scan.line.keepAll ls []).any fence.isClosedBy = false := by
            rw [List.any_eq_false] at closes ⊢
            intro m hm
            rcases mem_keepAll hm with hm | rfl
            · exact closes m hm
            · have blank : fence.isClosedBy [] = false := Fence.isClosedBy_of_isBlank opens rfl
              simp [blank]
          rw [behind]
          simp [after, opens, still]

theorem settle_after (l : Text) (ls : List Text) : (after l ls).settle = after l ls := by
  unfold after
  split
  · split <;> rfl
  · rfl

/-- A line of text is kept behind its separator, with what is kept behind it. -/
theorem keepAll_text {place : Scan} (out : place.inCode = false) {l : Text}
    (text : Text.isBlank l = false) (ls : List Text) :
    place.keepAll (l :: ls) [] = place.separator ++ l :: (after l ls).keepAll ls [] := by
  cases place with
  | code fence => simp [inCode] at out
  | _ => simp [keepAll, keep, next, text]

/-- One line outside of code, where what is kept of the later lines is kept again. -/
theorem keepAll_keepAll_flow {place : Scan} (flow : place = start ∨ place = .line ∨ place = gap)
    {l : Text} {ls : List Text}
    (ih : ∀ behind : Scan, behind.settle.keepAll (behind.keepAll ls []) [] =
      behind.keepAll ls []) :
    place.settle.keepAll (place.keepAll (l :: ls) []) [] = place.keepAll (l :: ls) [] := by
  cases blank : Text.isBlank l with
  | true =>
      have skipped : place.keepAll (l :: ls) [] = place.blank.keepAll ls [] := by
        rcases flow with rfl | rfl | rfl <;> simp [keepAll, keep, next, blank]
      have settled : place.blank.settle = place.settle := by
        rcases flow with rfl | rfl | rfl <;> rfl
      rw [skipped, ← settled]
      exact ih place.blank
  | false =>
      have out : place.inCode = false := by
        rcases flow with rfl | rfl | rfl <;> rfl
      have later := ih (after l ls)
      rw [settle_after] at later
      have again : ∀ place' : Scan, place'.inCode = false →
          place'.keepAll (l :: (after l ls).keepAll ls []) [] =
            place'.separator ++ l :: (after l ls).keepAll ls [] := by
        intro place' out'
        rw [keepAll_text out' blank, after_keepAll, later]
      rw [keepAll_text out blank]
      rcases flow with rfl | rfl | rfl
      · exact again start rfl
      · exact again .line rfl
      · exact again gap rfl

/-- What a scan has kept it keeps again. -/
theorem keepAll_keepAll (place : Scan) (ls : List Text) :
    place.settle.keepAll (place.keepAll ls []) [] = place.keepAll ls [] := by
  induction ls generalizing place with
  | nil => rfl
  | cons l ls ih =>
      cases place with
      | code fence =>
          have same : ∀ following, (code fence).next l following = (code fence).next l ls :=
            fun _ => rfl
          have settled : ((code fence).next l ls).settle = (code fence).next l ls := by
            simp only [next]
            split <;> rfl
          have later := ih ((code fence).next l ls)
          rw [settled] at later
          simp only [keepAll, keep, settle, List.append_nil, List.singleton_append, same, later]
      | start => exact keepAll_keepAll_flow (.inl rfl) ih
      | line => exact keepAll_keepAll_flow (.inr (.inl rfl)) ih
      | gap => exact keepAll_keepAll_flow (.inr (.inr rfl)) ih

end Scan

/-- What `tidy` has kept it keeps again. -/
theorem tidyLines_tidyLines (ls : List Text) :
    tidyLines .start (tidyLines .start ls) = tidyLines .start ls := by
  rw [Scan.tidyLines_eq_keepAll, Scan.tidyLines_eq_keepAll]
  exact Scan.keepAll_keepAll .start ls

/-- A line that is kept was there, or it is empty. -/
theorem mem_tidyLines {place : Scan} {ls : List Text} {l : Text} (h : l ∈ tidyLines place ls) :
    l ∈ ls ∨ l = [] := by
  rw [Scan.tidyLines_eq_keepAll] at h
  exact Scan.mem_keepAll h

theorem newline_notMem_tidyLines {t l : Text} (h : l ∈ tidyLines .start (Text.lines t)) :
    '\n' ∉ l := by
  rcases mem_tidyLines h with mem | rfl
  · exact Text.newline_notMem_of_mem_lines mem
  · simp

/-- The kept lines are the segments of the text that they make, unless there are none. -/
theorem segments_tidy {t : Text} (some : tidyLines .start (Text.lines t) ≠ []) :
    Text.segments (tidy t) = tidyLines .start (Text.lines t) := by
  apply Text.segments_joinLines some
  intro l mem
  exact newline_notMem_tidyLines mem

/-- A character stands in what is kept no more often than in the lines. -/
theorem count_tidyLines_le (c : Char) (place : Scan) (ls : List Text) :
    (tidyLines place ls).flatten.count c ≤ ls.flatten.count c := by
  rw [Scan.tidyLines_eq_keepAll]
  induction ls generalizing place with
  | nil => simp [Scan.keepAll]
  | cons l ls ih =>
      have here : (place.keep l).flatten.count c ≤ l.count c := by
        cases place with
        | code fence => simp [Scan.keep]
        | _ =>
            simp only [Scan.keep]
            split <;> simp [Scan.separator]
      rw [Scan.keepAll, List.flatten_append, List.flatten_cons, List.count_append,
        List.count_append, List.append_nil]
      exact Nat.add_le_add here (ih _)

end Wikidown.Markdown
