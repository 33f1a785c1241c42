/-
# Wikidown.Proofs.TidyScan -- the scan behind `tidy`, one line after the other

`tidy` looks ahead: whether a line opens a code block depends on the lines behind it.
Here the scan is a run over lines with the lines that `following` them as a parameter:
`Scan.next` is one step, `Scan.run` several, `Scan.keepAll` what they keep, and
`Scan.marks` says for each line whether the scan stands inside a code block behind it.

A `document` is a list of parts with a blank line behind each.  The scan of a document
falls into the scans of its parts exactly where no part ends with a loose fence that a
later part closes (`marks_document_iff`); then every part is kept as it would be on its
own (`tidyLines_document`).
-/
import Wikidown.Markdown.Tidy
import Wikidown.Proofs.Lines

namespace Wikidown.Markdown

set_option autoImplicit false

/-! ## Fences and blank lines -/

theorem dropQuotes_of_isBlank {limit : Nat} {l : Text} (h : Text.isBlank l = true) :
    dropQuotes limit l = [] := by
  induction l with
  | nil => rfl
  | cons c l ih =>
      simp only [Text.isBlank, List.all_cons, Bool.and_eq_true] at h
      simpa [dropQuotes, h.1] using ih h.2

namespace Fence

theorem three_le_ticks {l : Text} {fence : Fence} (h : open? l = some fence) : 3 ≤ fence.ticks := by
  unfold open? at h
  simp only at h
  split at h
  · next enough =>
    obtain rfl := Option.some.inj h
    exact enough.1
  · simp at h

/-- A blank line opens no code block. -/
theorem isBlank_of_open? {l : Text} {fence : Fence} (h : open? l = some fence) :
    Text.isBlank l = false := by
  cases blank : Text.isBlank l with
  | false => rfl
  | true =>
      have nothing : dropMarkers [] = [] := rfl
      simp only [open?, dropQuotes_of_isBlank blank, nothing, List.takeWhile_nil,
        List.length_nil] at h
      simp at h

/-- A blank line closes no code block. -/
theorem isClosedBy_of_isBlank {l opening : Text} {fence : Fence}
    (h : open? opening = some fence) (blank : Text.isBlank l = true) :
    fence.isClosedBy l = false := by
  have enough := three_le_ticks h
  have short : ¬ fence.ticks ≤ 0 := by omega
  simp [isClosedBy, dropQuotes_of_isBlank blank, Text.trim, Text.trimStart, Text.trimEnd,
    Text.dropEndWhile, short]

end Fence

open Fence (isBlank_of_open?)

namespace Scan

/-! ## One line -/

/-- Whether the scan stands inside a code block. -/
def inCode : Scan → Bool
  | code _ => true
  | _ => false

/-- Where the scan stands behind a line. -/
def next (place : Scan) (line : Text) (following : List Text) : Scan :=
  match place with
  | code fence => if fence.isClosedBy line then .line else code fence
  | _ => if Text.isBlank line then place.blank else after line following

/-- What the scan keeps for a line. -/
def keep (place : Scan) (line : Text) : List Text :=
  match place with
  | code _ => [line]
  | _ => if Text.isBlank line then [] else place.separator ++ [line]

/-- The fence that a line opens for a scan that stands outside of code. -/
def opened? (place : Scan) (line : Text) : Option Fence :=
  if place.inCode then none else Fence.open? line

/-! ## Several lines -/

/-- Where the scan stands behind several lines. -/
def run (place : Scan) : (ls following : List Text) → Scan
  | [], _ => place
  | l :: ls, following => run (place.next l (ls ++ following)) ls following

/-- What the scan keeps for several lines. -/
def keepAll (place : Scan) : (ls following : List Text) → List Text
  | [], _ => []
  | l :: ls, following => place.keep l ++ keepAll (place.next l (ls ++ following)) ls following

/-- For each line, whether the scan stands inside a code block behind it. -/
def marks (place : Scan) : (ls following : List Text) → List Bool
  | [], _ => []
  | l :: ls, following =>
      let behind := place.next l (ls ++ following)
      behind.inCode :: marks behind ls following

/-- The fences that lines would open and that none of the later lines closes. -/
def looseFences (place : Scan) : List Text → List Fence
  | [] => []
  | l :: ls =>
      (place.opened? l).toList.filter (fun fence => !ls.any fence.isClosedBy)
        ++ looseFences (place.next l ls) ls

theorem tidyLines_eq_keepAll (place : Scan) (ls : List Text) :
    tidyLines place ls = place.keepAll ls [] := by
  induction ls generalizing place with
  | nil => cases place <;> rfl
  | cons l ls ih =>
      cases place <;> simp only [tidyLines, keepAll, keep, next, List.append_nil] <;>
        (try split) <;> simp [ih]

theorem run_append (place : Scan) (a b following : List Text) :
    place.run (a ++ b) following = (place.run a (b ++ following)).run b following := by
  induction a generalizing place with
  | nil => rfl
  | cons l a ih => simp only [List.cons_append, run, List.append_assoc, ih]

theorem keepAll_append (place : Scan) (a b following : List Text) :
    place.keepAll (a ++ b) following =
      place.keepAll a (b ++ following) ++ (place.run a (b ++ following)).keepAll b following := by
  induction a generalizing place with
  | nil => rfl
  | cons l a ih => simp only [List.cons_append, keepAll, run, List.append_assoc, ih]

theorem marks_append (place : Scan) (a b following : List Text) :
    place.marks (a ++ b) following =
      place.marks a (b ++ following) ++ (place.run a (b ++ following)).marks b following := by
  induction a generalizing place with
  | nil => rfl
  | cons l a ih => simp only [List.cons_append, marks, run, List.append_assoc, ih]

@[simp] theorem length_marks (place : Scan) (ls following : List Text) :
    (place.marks ls following).length = ls.length := by
  induction ls generalizing place with
  | nil => rfl
  | cons l ls ih => simp [marks, ih]

/-! ## Lines on their own and lines with others behind them -/

theorem opened?_eq_some {place : Scan} {l : Text} {fence : Fence}
    (h : place.opened? l = some fence) : place.inCode = false ∧ Fence.open? l = some fence := by
  unfold opened? at h
  split at h
  · simp at h
  · next out => exact ⟨by simpa using out, h⟩

theorem mem_looseFences_cons {place : Scan} {l : Text} {ls : List Text} {fence : Fence} :
    fence ∈ place.looseFences (l :: ls) ↔
      (place.opened? l = some fence ∧ ls.any fence.isClosedBy = false) ∨
        fence ∈ (place.next l ls).looseFences ls := by
  simp only [looseFences, List.mem_append, List.mem_filter, Option.mem_toList,
    Bool.not_eq_eq_eq_not, Bool.not_true]

theorem next_of_opened? {place : Scan} {l : Text} {fence : Fence} (following : List Text)
    (text : Text.isBlank l = false) (h : place.opened? l = some fence) :
    place.next l following = if following.any fence.isClosedBy then code fence else .line := by
  obtain ⟨out, opens⟩ := opened?_eq_some h
  cases place <;> simp_all [next, after, inCode]

/-- Lines that come later change a step only by closing a fence that stays loose without
them. -/
theorem next_append {place : Scan} {l : Text} {ls following : List Text}
    (h : ∀ fence, place.opened? l = some fence → ls.any fence.isClosedBy = false →
      following.any fence.isClosedBy = false) :
    place.next l (ls ++ following) = place.next l ls := by
  cases place with
  | code fence => rfl
  | _ =>
      simp only [next, after]
      split
      · rfl
      · split
        · next fence opens =>
          cases here : ls.any fence.isClosedBy with
          | true => simp [here]
          | false => simp [here, h fence opens here]
        · rfl

/-- Lines whose loose fences stay unclosed are scanned as they are on their own. -/
theorem alone {place : Scan} {ls following : List Text}
    (h : ∀ fence ∈ place.looseFences ls, following.any fence.isClosedBy = false) :
    place.keepAll ls following = place.keepAll ls [] ∧
      place.run ls following = place.run ls [] ∧
      place.marks ls following = place.marks ls [] := by
  induction ls generalizing place with
  | nil => exact ⟨rfl, rfl, rfl⟩
  | cons l ls ih =>
      have same : place.next l (ls ++ following) = place.next l ls :=
        next_append fun fence opens loose => h fence (mem_looseFences_cons.2 (.inl ⟨opens, loose⟩))
      obtain ⟨kept, ended, marked⟩ :=
        @ih (place.next l ls) fun fence m => h fence (mem_looseFences_cons.2 (.inr m))
      refine ⟨?_, ?_, ?_⟩
      · simp only [keepAll, same, kept, List.append_nil]
      · simp only [run, same, ended, List.append_nil]
      · simp only [marks, same, marked, List.append_nil]

/-- The converse: lines that are marked as they are on their own leave no loose fence
that a later line closes. -/
theorem loose_of_marks_eq {place : Scan} {ls following : List Text}
    (h : place.marks ls following = place.marks ls []) :
    ∀ fence ∈ place.looseFences ls, following.any fence.isClosedBy = false := by
  induction ls generalizing place with
  | nil => simp [looseFences]
  | cons l ls ih =>
      simp only [marks, List.append_nil, List.cons.injEq] at h
      obtain ⟨here, later⟩ := h
      have unclosed : ∀ fence, place.opened? l = some fence → ls.any fence.isClosedBy = false →
          following.any fence.isClosedBy = false := by
        intro fence opens loose
        cases closes : following.any fence.isClosedBy with
        | false => rfl
        | true =>
            have text := isBlank_of_open? (opened?_eq_some opens).2
            rw [next_of_opened? _ text opens, next_of_opened? _ text opens] at here
            simp [loose, closes, inCode] at here
      have same := next_append unclosed
      rw [same] at later
      intro fence m
      rcases mem_looseFences_cons.1 m with ⟨opens, loose⟩ | m
      · exact unclosed fence opens loose
      · exact ih later fence m

/-- A scan enters a code block only where a later line closes it, so it never ends inside
one. -/
theorem inCode_run {place : Scan} {ls : List Text}
    (h : ∀ fence, place = code fence → ls.any fence.isClosedBy = true) :
    (place.run ls []).inCode = false := by
  induction ls generalizing place with
  | nil =>
      cases place with
      | code fence => simpa using h fence rfl
      | _ => rfl
  | cons l ls ih =>
      apply ih
      intro fence behind
      rw [List.append_nil] at behind
      cases place with
      | code opened =>
          have closed := h opened rfl
          simp only [next] at behind
          split at behind
          · simp at behind
          · next still =>
            obtain rfl : opened = fence := by simpa using behind
            simpa [still] using closed
      | _ =>
          simp only [next, after] at behind
          split at behind
          · simp [blank] at behind
          · split at behind
            · split at behind
              · next closed =>
                simp only [code.injEq] at behind
                exact behind ▸ closed
              · simp at behind
            · simp at behind

/-! ## Between two parts -/

/-- A scan that waits for the first kept line of a part. -/
def Waits (place : Scan) : Prop := place = start ∨ place = gap

/-- The kept lines of a part behind what separates them from the part before. -/
def separated (place : Scan) (kept : List Text) : List Text :=
  if kept.isEmpty then [] else place.separator ++ kept

theorem next_of_waits {place : Scan} (waits : place.Waits) (l : Text) (following : List Text) :
    place.next l following = if Text.isBlank l then place else after l following := by
  rcases waits with rfl | rfl <;> rfl

theorem keep_of_waits {place : Scan} (waits : place.Waits) (l : Text) :
    place.keep l = if Text.isBlank l then [] else place.separator ++ [l] := by
  rcases waits with rfl | rfl <;> rfl

theorem inCode_of_waits {place : Scan} (waits : place.Waits) : place.inCode = false := by
  rcases waits with rfl | rfl <;> rfl

/-- Scans that wait differ in the separator that they write and in nothing else. -/
theorem keepAll_of_waits {place : Scan} (waits : place.Waits) (ls following : List Text) :
    place.keepAll ls following = place.separated (start.keepAll ls following) := by
  induction ls with
  | nil => rfl
  | cons l ls ih =>
      simp only [keepAll, next_of_waits waits, next_of_waits (.inl rfl), keep_of_waits waits,
        keep_of_waits (.inl rfl)]
      split
      · exact ih
      · simp [separated, separator]

theorem marks_of_waits {place : Scan} (waits : place.Waits) (ls following : List Text) :
    place.marks ls following = start.marks ls following := by
  induction ls with
  | nil => rfl
  | cons l ls ih =>
      simp only [marks, next_of_waits waits, next_of_waits (.inl rfl)]
      split
      · rw [ih, inCode_of_waits waits]
        rfl
      · rfl

theorem looseFences_of_waits {place : Scan} (waits : place.Waits) (ls : List Text) :
    place.looseFences ls = start.looseFences ls := by
  induction ls with
  | nil => rfl
  | cons l ls ih =>
      have same : place.opened? l = start.opened? l := by
        simp [opened?, inCode_of_waits waits, inCode_of_waits (.inl rfl)]
      simp only [looseFences, same, next_of_waits waits, next_of_waits (.inl rfl)]
      split
      · rw [ih]
      · rfl

theorem next_ne_start {place : Scan} (h : place ≠ start) (l : Text) (following : List Text) :
    place.next l following ≠ start := by
  cases place with
  | start => exact absurd rfl h
  | code fence =>
      simp only [next]
      split <;> simp
  | _ =>
      simp only [next, after]
      split
      · simp [blank]
      · split
        · split <;> simp
        · simp

theorem run_ne_start {place : Scan} (h : place ≠ start) (ls following : List Text) :
    place.run ls following ≠ start := by
  induction ls generalizing place with
  | nil => exact h
  | cons l ls ih => exact ih (next_ne_start h l _)

theorem after_ne_start (l : Text) (following : List Text) : after l following ≠ start := by
  unfold after
  split
  · split <;> simp
  · simp

/-- Behind a blank line outside of code the scan waits again. -/
theorem waits_blank {place : Scan} (h : place ≠ start) (out : place.inCode = false) :
    place.next [] [] = gap := by
  cases place with
  | start => exact absurd rfl h
  | code fence => simp [inCode] at out
  | _ => rfl

theorem next_blank (place : Scan) (following : List Text) :
    place.next [] following = place.next [] [] := by
  cases place <;> rfl

theorem keepAll_blank {place : Scan} (out : place.inCode = false) (following : List Text) :
    place.keepAll [[]] following = [] := by
  cases place with
  | code fence => simp [inCode] at out
  | _ => rfl

theorem marks_blank {place : Scan} (out : place.inCode = false) (following : List Text) :
    place.marks [[]] following = [false] := by
  cases place with
  | code fence => simp [inCode] at out
  | _ => rfl

/-- Behind a part and a blank line the scan waits as before, if nothing of the part was
kept, and in a gap otherwise. -/
theorem run_blank_of_waits {place : Scan} (waits : place.Waits) {ls following : List Text}
    (out : (place.run ls ([] :: following)).inCode = false) :
    place.run (ls ++ [[]]) following =
      if (start.keepAll ls ([] :: following)).isEmpty then place else gap := by
  induction ls with
  | nil => rcases waits with rfl | rfl <;> rfl
  | cons l ls ih =>
      simp only [run, keepAll, next_of_waits waits, next_of_waits (.inl rfl),
        keep_of_waits (.inl rfl), List.cons_append] at out ⊢
      cases blank : Text.isBlank l with
      | true =>
          simp only [blank, if_true, List.nil_append] at out ⊢
          exact ih out
      | false =>
          simp only [blank, Bool.false_eq_true, if_false, List.append_assoc,
            List.singleton_append] at out ⊢
          rw [run_append]
          simp only [List.singleton_append, run, next_blank _ ([] ++ following)]
          exact waits_blank (run_ne_start (after_ne_start _ _) _ _) out

end Scan

/-! ## Documents -/

/-- Parts with a blank line behind each. -/
def document (parts : List (List Text)) : List Text := parts.flatMap (· ++ [[]])

/-- No part ends with a loose fence that a later part closes. -/
def Apart (parts : List (List Text)) : Prop :=
  parts.Pairwise fun a b =>
    ∀ fence ∈ Scan.start.looseFences a, b.any fence.isClosedBy = false

instance (parts : List (List Text)) : Decidable (Apart parts) :=
  inferInstanceAs (Decidable (parts.Pairwise fun a b =>
    ∀ fence ∈ Scan.start.looseFences a, b.any fence.isClosedBy = false))

namespace Scan

theorem exists_opening {place : Scan} {ls : List Text} {fence : Fence}
    (h : fence ∈ place.looseFences ls) : ∃ l ∈ ls, Fence.open? l = some fence := by
  induction ls generalizing place with
  | nil => simp [looseFences] at h
  | cons l ls ih =>
      rcases mem_looseFences_cons.1 h with ⟨opens, -⟩ | h
      · exact ⟨l, List.mem_cons_self, (opened?_eq_some opens).2⟩
      · obtain ⟨m, mem, opens⟩ := ih h
        exact ⟨m, List.mem_cons_of_mem _ mem, opens⟩

theorem loose_isClosedBy_nil {place : Scan} {ls : List Text} {fence : Fence}
    (h : fence ∈ place.looseFences ls) : fence.isClosedBy [] = false := by
  obtain ⟨l, -, opens⟩ := exists_opening h
  exact Fence.isClosedBy_of_isBlank opens rfl

/-- A document closes a loose fence exactly if one of its parts does. -/
theorem any_document {place : Scan} {ls : List Text} {fence : Fence}
    (h : fence ∈ place.looseFences ls) {parts : List (List Text)} :
    (document parts).any fence.isClosedBy = false ↔
      ∀ b ∈ parts, b.any fence.isClosedBy = false := by
  have blank := loose_isClosedBy_nil h
  simp only [document, List.any_flatMap, List.any_append, List.any_cons, List.any_nil, blank,
    Bool.or_false, List.any_eq_false, Bool.not_eq_true]

/-- What the scan makes of the first part of a document, if no later part meddles. -/
theorem scan_part {place : Scan} (waits : place.Waits) {a : List Text} {parts : List (List Text)}
    (h : ∀ b ∈ parts, ∀ fence ∈ start.looseFences a, b.any fence.isClosedBy = false) :
    place.keepAll (a ++ [[]]) (document parts) = place.separated (tidyLines start a) ∧
      place.run (a ++ [[]]) (document parts) =
        (if (tidyLines start a).isEmpty then place else gap) ∧
      place.marks (a ++ [[]]) (document parts) = start.marks a [] ++ [false] := by
  have unclosed : ∀ fence ∈ start.looseFences a,
      ([] :: document parts).any fence.isClosedBy = false := by
    intro fence loose
    rw [List.any_cons, loose_isClosedBy_nil loose, Bool.false_or, any_document loose]
    exact fun b hb => h b hb fence loose
  have unclosed' : ∀ fence ∈ place.looseFences a,
      ([] :: document parts).any fence.isClosedBy = false := by
    rwa [looseFences_of_waits waits]
  obtain ⟨kept, -, -⟩ := alone unclosed
  obtain ⟨-, ended, marked⟩ := alone unclosed'
  have out : (place.run a ([] :: document parts)).inCode = false := by
    rw [ended]
    exact inCode_run fun fence here => by simp [here, Waits] at waits
  have behind := run_blank_of_waits waits out
  rw [kept, ← tidyLines_eq_keepAll] at behind
  refine ⟨?_, behind, ?_⟩
  · rw [keepAll_append, List.singleton_append, keepAll_blank out, List.append_nil,
      keepAll_of_waits waits, kept, tidyLines_eq_keepAll]
  · rw [marks_append, List.singleton_append, marks_blank out, marked, marks_of_waits waits]

end Scan

theorem Apart.head {a : List Text} {parts : List (List Text)} (h : Apart (a :: parts)) :
    ∀ b ∈ parts, ∀ fence ∈ Scan.start.looseFences a, b.any fence.isClosedBy = false :=
  (List.pairwise_cons.1 h).1

theorem Apart.tail {a : List Text} {parts : List (List Text)} (h : Apart (a :: parts)) :
    Apart parts :=
  (List.pairwise_cons.1 h).2

theorem document_cons (a : List Text) (parts : List (List Text)) :
    document (a :: parts) = (a ++ [[]]) ++ document parts := rfl

/-- What is kept of a document is kept part by part. -/
theorem keepAll_document {place : Scan} (waits : place.Waits) {parts : List (List Text)}
    (apart : Apart parts) :
    place.keepAll (document parts) [] =
      place.separated
        (List.intercalate [[]] ((parts.map (tidyLines .start)).filter (!·.isEmpty))) := by
  induction parts generalizing place with
  | nil => rfl
  | cons a parts ih =>
      obtain ⟨kept, behind, -⟩ := Scan.scan_part waits apart.head
      rw [document_cons, Scan.keepAll_append, List.append_nil, kept, behind, List.map_cons]
      cases none : (tidyLines .start a).isEmpty with
      | true =>
          rw [List.filter_cons_of_neg (by simp [none]), if_pos rfl, ih waits apart.tail]
          simp [Scan.separated, none]
      | false =>
          rw [List.filter_cons_of_pos (by simp [none]), if_neg (by simp), ih (.inr rfl) apart.tail,
            Text.intercalate_cons]
          have later : Scan.gap.separated
                (List.intercalate [[]] ((parts.map (tidyLines .start)).filter (!·.isEmpty))) =
              ((parts.map (tidyLines .start)).filter (!·.isEmpty)).flatMap ([[]] ++ ·) := by
            have nonempty : ∀ p ∈ (parts.map (tidyLines .start)).filter (!·.isEmpty),
                p.isEmpty = false := fun p hp => by simpa using (List.mem_filter.1 hp).2
            cases eq : (parts.map (tidyLines .start)).filter (!·.isEmpty) with
            | nil => rfl
            | cons p ps =>
                rw [eq] at nonempty
                have := nonempty p List.mem_cons_self
                rw [Text.intercalate_cons]
                simp [Scan.separated, Scan.separator, List.isEmpty_eq_false_iff.1 this]
          rw [later]
          simp [Scan.separated, List.isEmpty_eq_false_iff.1 none]

/-- **Cleanup goes part by part.**  A document without meddling parts is tidied by tidying
its parts. -/
theorem tidyLines_document {parts : List (List Text)} (apart : Apart parts) :
    tidyLines .start (document parts) =
      List.intercalate [[]] ((parts.map (tidyLines .start)).filter (!·.isEmpty)) := by
  rw [Scan.tidyLines_eq_keepAll, keepAll_document (.inl rfl) apart]
  unfold Scan.separated
  split
  · next none => exact (List.isEmpty_iff.1 none).symm
  · rfl

/-- **Exactly then the scan goes part by part.**  The scan of a document stands inside
code where the scans of its parts do if and only if no part ends with a loose fence that
a later part closes. -/
theorem marks_document_iff {place : Scan} (waits : place.Waits) {parts : List (List Text)} :
    place.marks (document parts) [] = parts.flatMap (fun a => Scan.start.marks a [] ++ [false]) ↔
      Apart parts := by
  induction parts generalizing place with
  | nil => exact ⟨fun _ => List.Pairwise.nil, fun _ => rfl⟩
  | cons a parts ih =>
      rw [document_cons, Scan.marks_append, List.append_nil, List.flatMap_cons]
      have waits' : (if (tidyLines .start a).isEmpty then place else Scan.gap).Waits := by
        split
        · exact waits
        · exact .inr rfl
      constructor
      · intro h
        obtain ⟨here, later⟩ := List.append_inj h (by simp)
        rw [Scan.marks_append] at here
        obtain ⟨inside, -⟩ := List.append_inj here (by simp)
        rw [← Scan.marks_of_waits waits a []] at inside
        have head : ∀ b ∈ parts, ∀ fence ∈ Scan.start.looseFences a,
            b.any fence.isClosedBy = false := by
          intro b hb fence loose
          have loose' : fence ∈ place.looseFences a := by rwa [Scan.looseFences_of_waits waits]
          have unclosed := Scan.loose_of_marks_eq inside fence loose'
          rw [List.singleton_append, List.any_cons, Bool.or_eq_false_iff] at unclosed
          exact (Scan.any_document loose).1 unclosed.2 b hb
        obtain ⟨-, behind, -⟩ := Scan.scan_part waits head
        rw [behind] at later
        exact List.pairwise_cons.2 ⟨head, (ih waits').1 later⟩
      · intro apart
        obtain ⟨-, behind, marked⟩ := Scan.scan_part waits apart.head
        rw [marked, behind, (ih waits').2 apart.tail]

/-! ## Parts with a blank line between each two -/

theorem document_eq_intercalate {parts : List (List Text)} (ne : parts ≠ []) :
    document parts = List.intercalate [[]] parts ++ [[]] :=
  Text.flatMap_append_eq_intercalate [[]] ne

/-- A blank line behind the last line changes nothing. -/
theorem Scan.append_blank (ls : List Text) :
    tidyLines .start (ls ++ [[]]) = tidyLines .start ls ∧
      start.marks (ls ++ [[]]) [] = start.marks ls [] ++ [false] := by
  have unclosed : ∀ fence ∈ start.looseFences ls, [[]].any fence.isClosedBy = false := by
    intro fence loose
    simp [loose_isClosedBy_nil loose]
  obtain ⟨kept, ended, marked⟩ := alone unclosed
  have out : (start.run ls []).inCode = false := inCode_run fun fence here => by simp at here
  constructor
  · simp only [tidyLines_eq_keepAll, keepAll_append, List.append_nil, kept, ended,
      keepAll_blank out]
  · simp only [marks_append, List.append_nil, marked, ended, marks_blank out]

/-- Cleanup goes part by part also where no blank line stands at the end. -/
theorem tidyLines_intercalate {parts : List (List Text)} (apart : Apart parts) :
    tidyLines .start (List.intercalate [[]] parts) =
      List.intercalate [[]] ((parts.map (tidyLines .start)).filter (!·.isEmpty)) := by
  by_cases ne : parts = []
  · subst ne
    rfl
  · rw [← (Scan.append_blank _).1, ← document_eq_intercalate ne]
    exact tidyLines_document apart

/-- The scan goes part by part exactly if no part meddles, also where no blank line stands
at the end. -/
theorem marks_intercalate_iff {parts : List (List Text)} :
    Scan.start.marks (List.intercalate [[]] parts) [] =
        List.intercalate [false] (parts.map (Scan.start.marks · [])) ↔
      Apart parts := by
  by_cases ne : parts = []
  · subst ne
    exact ⟨fun _ => List.Pairwise.nil, fun _ => rfl⟩
  · have whole := Text.flatMap_append_eq_intercalate [false]
      (mt List.map_eq_nil_iff.1 ne : parts.map (Scan.start.marks · []) ≠ [])
    rw [List.flatMap_map] at whole
    rw [← marks_document_iff (.inl rfl), document_eq_intercalate ne, (Scan.append_blank _).2, whole,
      List.append_left_inj]

end Wikidown.Markdown
