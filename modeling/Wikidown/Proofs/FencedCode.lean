/-
# Wikidown.Proofs.FencedCode -- code blocks and their fences

The fence of a code block is longer than any run of backticks in the code, so that no
line of the code closes the block (`isClosedBy_line_of_code`).  Hence the scan of `tidy`
goes through a block as a reader does: it enters at the first fence, keeps every line of
the code and leaves at the second fence (`scan_block`).
-/
import Wikidown.Markdown.Block
import Wikidown.Proofs.Spacing
import Wikidown.Proofs.TidyScan

namespace Wikidown.Markdown

set_option autoImplicit false

/-! ## Runs of backticks -/

theorem le_longestRunFrom {m k : Nat} {t : Text} (h : ticks m <:+: ticks k ++ t) :
    m ≤ longestRunFrom k t := by
  induction t generalizing k with
  | nil => simpa [ticks, longestRunFrom] using h.length_le
  | cons c t ih =>
      simp only [longestRunFrom]
      split
      · next eq =>
        subst eq
        apply ih
        have : ticks (k + 1) ++ t = ticks k ++ tick :: t := by
          simp [ticks, List.replicate_succ']
        rwa [this]
      · next ne =>
        have apart : c ∉ ticks m := fun mem => ne (List.eq_of_mem_replicate mem)
        rcases Text.infix_of_notMem apart h with h | h
        · have := h.length_le
          simp only [ticks, List.length_replicate] at this
          omega
        · have := ih (k := 0) (by simpa [ticks] using h)
          omega

theorem le_longestRun {m : Nat} {t : Text} (h : ticks m <:+: t) : m ≤ longestRun t :=
  le_longestRunFrom (by simpa [ticks] using h)

/-! ## Lines of backticks -/

theorem dropQuotes_zero_suffix (l : Text) : dropQuotes 0 l <:+ l := by
  induction l with
  | nil => exact List.suffix_refl _
  | cons c l ih =>
      simp only [dropQuotes]
      split
      · exact ih.trans (List.suffix_cons c l)
      · split <;> exact List.suffix_refl _

theorem eq_ticks {t : Text} (h : t.all (· == tick) = true) : t = ticks t.length :=
  List.eq_replicate_iff.2 ⟨rfl, fun c hc => by simpa using List.all_eq_true.1 h c hc⟩

theorem quoteDepth_ticks (n : Nat) : quoteDepth (ticks n) = 0 := by
  cases n <;> rfl

theorem dropQuotes_ticks (limit n : Nat) : dropQuotes limit (ticks n) = ticks n := by
  cases n <;> rfl

theorem dropMarkers_ticks (n : Nat) : dropMarkers (ticks n) = ticks n := by
  cases n <;> rfl

theorem trim_ticks (n : Nat) : Text.trim (ticks n) = ticks n := by
  have space : ∀ m, (ticks m).dropWhile isSpace = ticks m := by
    intro m
    cases m <;> rfl
  have back : (ticks n).reverse = ticks n := List.reverse_replicate
  simp [Text.trim, Text.trimStart, Text.trimEnd, Text.dropEndWhile, space, back]

/-- A line of three or more backticks opens a code block. -/
theorem open?_ticks {n : Nat} (h : 3 ≤ n) : Fence.open? (ticks n) = some ⟨n, 0⟩ := by
  have whole : (ticks n).takeWhile (· == tick) = ticks n := by simp [ticks]
  have length : (ticks n).length = n := List.length_replicate
  simp only [Fence.open?, quoteDepth_ticks, dropQuotes_ticks, dropMarkers_ticks, whole, length]
  simp [h, ticks]

/-- A line of backticks closes the blocks that have no longer fence. -/
theorem isClosedBy_ticks (fence : Fence) (n : Nat) :
    fence.isClosedBy (ticks n) = decide (fence.ticks ≤ n) := by
  simp only [Fence.isClosedBy, dropQuotes_ticks, trim_ticks]
  simp [ticks]

/-! ## The scan of a code block -/

/-- The fence of a code block. -/
def fenceOf (code : Text) : Fence := ⟨max (longestRun code) 2 + 1, 0⟩

/-- The lines of a code block: the code between two lines with its fence. -/
def blockLines (code : Text) : List Text :=
  codeFence code :: (Text.segments code ++ [codeFence code])

theorem open?_codeFence (code : Text) : Fence.open? (codeFence code) = some (fenceOf code) :=
  open?_ticks (by omega)

theorem isClosedBy_codeFence (fence : Fence) (code : Text) :
    fence.isClosedBy (codeFence code) = decide (fence.ticks ≤ (fenceOf code).ticks) :=
  isClosedBy_ticks fence _

/-- No line of the code closes its block. -/
theorem isClosedBy_line_of_code {code l : Text} (h : l ∈ Text.segments code) :
    (fenceOf code).isClosedBy l = false := by
  cases closes : (fenceOf code).isClosedBy l with
  | false => rfl
  | true =>
      simp only [Fence.isClosedBy, Bool.and_eq_true, decide_eq_true_eq] at closes
      obtain ⟨enough, all⟩ := closes
      have inside : Text.trim (dropQuotes (fenceOf code).quotes l) <:+: code :=
        ((Text.isInfix_trim _).trans (dropQuotes_zero_suffix l).isInfix).trans
          (Text.infix_of_mem_segments h)
      rw [eq_ticks all] at inside
      have := le_longestRun inside
      simp only [fenceOf] at enough this
      omega

namespace Scan

/-- Inside a code block every line that does not close it is kept. -/
theorem code_lines {fence : Fence} {ls : List Text} (rest : List Text)
    (h : ∀ l ∈ ls, fence.isClosedBy l = false) :
    (code fence).keepAll ls rest = ls ∧ (code fence).run ls rest = code fence ∧
      (code fence).marks ls rest = List.replicate ls.length true ∧
      (code fence).looseFences (ls ++ rest) = (code fence).looseFences rest := by
  induction ls with
  | nil => exact ⟨rfl, rfl, rfl, rfl⟩
  | cons l ls ih =>
      have stays : ∀ more, (code fence).next l more = code fence := fun more => by
        simp [next, h l List.mem_cons_self]
      obtain ⟨kept, ended, marked, loose⟩ := ih fun m hm => h m (List.mem_cons_of_mem _ hm)
      refine ⟨?_, ?_, ?_, ?_⟩
      · rw [keepAll, stays, kept]
        rfl
      · rw [run, stays, ended]
      · rw [marks, stays, marked]
        rfl
      · rw [List.cons_append, looseFences, stays, loose]
        simp [opened?, inCode]

/-- A code block on its own is kept line by line, the scan stands inside it from its first
fence to its second, and it leaves no fence loose. -/
theorem block_lines (content : Text) :
    start.keepAll (blockLines content) [] = blockLines content ∧
      start.marks (blockLines content) [] =
        List.replicate ((Text.segments content).length + 1) true ++ [false] ∧
      start.looseFences (blockLines content) = [] := by
  have text := Fence.isBlank_of_open? (open?_codeFence content)
  have closes : (fenceOf content).isClosedBy (codeFence content) = true := by
    simp [isClosedBy_codeFence]
  have closesLater : (Text.segments content ++ [codeFence content]).any
      (fenceOf content).isClosedBy = true := by simp [closes]
  have enter : start.next (codeFence content) (Text.segments content ++ [codeFence content]) =
      code (fenceOf content) := by
    simp [next, after, text, open?_codeFence, closesLater]
  have stays : ∀ l ∈ Text.segments content, (fenceOf content).isClosedBy l = false :=
    fun l hl => isClosedBy_line_of_code hl
  obtain ⟨kept, ended, marked, loose⟩ := code_lines [codeFence content] stays
  refine ⟨?_, ?_, ?_⟩
  · simp only [blockLines, keepAll, List.append_nil]
    rw [enter, keepAll_append, List.append_nil, kept, ended]
    simp [keep, text, separator, keepAll]
  · simp only [blockLines, marks, List.append_nil]
    rw [enter, marks_append, List.append_nil, marked, ended]
    simp [inCode, marks, next, closes, List.replicate_succ]
  · simp only [blockLines, looseFences]
    rw [enter, loose]
    simp [opened?, inCode, open?_codeFence, closes, looseFences]

end Scan

end Wikidown.Markdown
