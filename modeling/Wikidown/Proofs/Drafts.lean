/-
# Wikidown.Proofs.Drafts -- text put on a draft

A draft remembers one thing about what was put on it before: whether it ends with white
space (`Draft.spaced`).  Text is folded from there on (`join_collapse`), so that where a
text is cut into pieces makes no difference to the draft (`writeForest_texts`).  A forest is
written and laid out one part after the other (`writeForest_append`, `layForest_append`).
-/
import Wikidown.Markdown.Block
import Wikidown.Proofs.Lines

namespace Wikidown

set_option autoImplicit false

namespace Text

/-- Behind white space, a text is folded without its leading space. -/
theorem dropWhile_collapseFrom_true (t : Text) :
    (collapseFrom true t).dropWhile (· == ' ') = collapseFrom true t := by
  induction t with
  | nil => rfl
  | cons c t ih =>
      simp only [collapseFrom, if_true]
      split
      · exact ih
      · next visible =>
        have ne : c ≠ ' ' := by
          rintro rfl
          exact visible rfl
        simp [ne]

theorem dropWhile_collapse (t : Text) : (collapse t).dropWhile (· == ' ') = collapseFrom true t := by
  cases t with
  | nil => rfl
  | cons c t =>
      simp only [collapse, collapseFrom, Bool.false_eq_true, if_false, if_true]
      split
      · simpa using dropWhile_collapseFrom_true t
      · next visible =>
        have ne : c ≠ ' ' := by
          rintro rfl
          exact visible rfl
        simp [ne]

/-- A text without white space is folded already. -/
theorem collapse_of_visible {t : Text} (h : ∀ c ∈ t, isSpace c = false) : collapse t = t := by
  rw [collapse]
  induction t with
  | nil => rfl
  | cons c t ih =>
      have here := h c List.mem_cons_self
      have later := ih fun d mem => h d (List.mem_cons_of_mem _ mem)
      rw [collapseFrom, here, later]
      rfl

/-- Folded text holds no white space but single spaces. -/
theorem mem_collapseFrom {within : Bool} {t : Text} {c : Char} (h : c ∈ collapseFrom within t) :
    c = ' ' ∨ isSpace c = false := by
  induction t generalizing within with
  | nil => simp [collapseFrom] at h
  | cons d t ih =>
      simp only [collapseFrom] at h
      split at h
      · split at h
        · exact ih h
        · exact (List.mem_cons.1 h).elim .inl ih
      · next visible =>
        rcases List.mem_cons.1 h with rfl | h
        · exact .inr (by simpa using visible)
        · exact ih h

/-- Folded text has no characters but spaces and those of the text. -/
theorem mem_of_mem_collapseFrom {within : Bool} {t : Text} {c : Char}
    (h : c ∈ collapseFrom within t) : c = ' ' ∨ c ∈ t := by
  induction t generalizing within with
  | nil => cases h
  | cons d t ih =>
      have later : ∀ within, c ∈ collapseFrom within t → c = ' ' ∨ c ∈ d :: t := fun _ mem =>
        (ih mem).imp_right (List.mem_cons_of_mem d)
      simp only [collapseFrom] at h
      split at h
      · split at h
        · exact later _ h
        · exact (List.mem_cons.1 h).elim .inl (later _)
      · rcases List.mem_cons.1 h with rfl | mem
        · exact .inr List.mem_cons_self
        · exact later _ mem

/-- Folded text stands in one line. -/
theorem newline_notMem_collapse (t : Text) : '\n' ∉ collapse t := by
  intro h
  rcases mem_collapseFrom h with eq | visible
  · simp at eq
  · simp [isSpace] at visible

end Text

namespace Markdown

open Document (Node Forest)

namespace Draft

/-- Whether a draft ends with a space or a line feed. -/
def spaced : Draft → Bool
  | ' ' :: _ | '\n' :: _ => true
  | _ => false

theorem spaced_cons_of_visible {c : Char} (visible : isSpace c = false) (out : Draft) :
    spaced (c :: out) = false := by
  unfold spaced
  split
  · next eq => simp_all [isSpace]
  · next eq => simp_all [isSpace]
  · rfl

theorem text_put (out : Draft) (piece : Text) : (out.put piece).text = out.text ++ piece := by
  simp [put, text]

theorem join_eq (out : Draft) (piece : Text) :
    out.join piece = out.put (if out.spaced then piece.dropWhile (· == ' ') else piece) := by
  unfold join
  split
  · rfl
  · rfl
  · next notSpace notBreak =>
    have out : out.spaced = false := by
      unfold spaced
      split
      · exact absurd rfl (notSpace _)
      · exact absurd rfl (notBreak _)
      · rfl
    simp [out]

/-- Text goes on where the draft stands: a run of white space across the seam is one. -/
theorem join_collapse (out : Draft) (t : Text) :
    out.join (Text.collapse t) = out.put (Text.collapseFrom out.spaced t) := by
  rw [join_eq]
  cases out.spaced with
  | true => rw [if_pos rfl, Text.dropWhile_collapse]
  | false => rfl

/-- What each character of a text keeps, a text keeps: a visible one is written, and white space
is written as a space, unless the draft ends with white space. -/
theorem join_collapse_run {P : Text → Draft → Prop}
    (visible : ∀ {read out} (c : Char), isSpace c = false → P read out → P (read ++ [c]) (c :: out))
    (space : ∀ {read out} (c : Char), isSpace c = true → P read out →
      P (read ++ [c]) (if spaced out then out else ' ' :: out))
    {read : Text} {out : Draft} (h : P read out) (t : Text) :
    P (read ++ t) (out.join (Text.collapse t)) := by
  rw [join_collapse]
  induction t generalizing read out with
  | nil => simpa [Text.collapseFrom, put] using h
  | cons c t ih =>
      cases white : isSpace c with
      | false =>
          have later := ih (visible c white h)
          rw [spaced_cons_of_visible white] at later
          simpa [Text.collapseFrom, white, put] using later
      | true =>
          have later := ih (space c white h)
          cases spaced : out.spaced with
          | true =>
              rw [spaced, if_pos rfl, spaced] at later
              simpa [Text.collapseFrom, white] using later
          | false =>
              rw [spaced, if_neg (by simp)] at later
              simpa [Text.collapseFrom, white, put, Draft.spaced] using later

/-- The draft behind a text ends with white space where the text does. -/
theorem collapseFrom_append (out : Draft) (a b : Text) :
    (out.put (Text.collapseFrom out.spaced a)).put
        (Text.collapseFrom (out.put (Text.collapseFrom out.spaced a)).spaced b) =
      out.put (Text.collapseFrom out.spaced (a ++ b)) := by
  induction a generalizing out with
  | nil => rfl
  | cons c a ih =>
      simp only [List.cons_append, Text.collapseFrom]
      split
      · split
        · next spaced => simpa [spaced] using ih out
        · simpa [put, spaced] using ih (' ' :: out)
      · next visible =>
        have notSpaced := spaced_cons_of_visible (Bool.eq_false_iff.2 visible) out
        simpa [put, notSpaced] using ih (c :: out)

end Draft

theorem escapeFenceOpeners_of_notMem {t : Text} (h : '\n' ∉ t) :
    escapeFenceOpeners t = escapeFenceOpener t := by
  simp [escapeFenceOpeners, Text.segments_of_notMem h, Text.joinLines]

/-- Where no paragraph is being written there is none to end. -/
theorem Flow.close_nil (parts : List Text) : Flow.close ⟨parts, []⟩ = ⟨parts, []⟩ := rfl

theorem layForest_append (language : Language) (a b : Forest) (f : Flow) :
    layForest language (a ++ b) f = layForest language b (layForest language a f) := by
  induction a generalizing f with
  | nil => rfl
  | cons n ns ih => exact ih _

theorem writeForest_append (language : Language) (a b : Forest) (out : Draft) :
    writeForest language (a ++ b) out = writeForest language b (writeForest language a out) := by
  induction a generalizing out with
  | nil => rfl
  | cons n ns ih => exact ih _

/-- Text nodes that follow each other are written as one text. -/
theorem writeForest_texts (language : Language) (texts : List Text) (out : Draft) :
    writeForest language (texts.map .text) out =
      out.put (Text.collapseFrom out.spaced texts.flatten) := by
  induction texts generalizing out with
  | nil => rfl
  | cons t texts ih =>
      simp only [List.map_cons, writeForest, writeNode, List.flatten_cons]
      rw [ih, Draft.join_collapse, Draft.collapseFrom_append]

end Markdown

end Wikidown
