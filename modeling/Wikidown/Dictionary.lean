/-
# Wikidown.Dictionary -- finite maps from names to texts

The attributes of a tag, the parameters of a macro and the files of a folder are all
finite maps from names to texts.  A `Dictionary` keeps its entries in strictly
increasing order of names, so two dictionaries with the same contents are equal, and
the order in which the entries were written leaves no trace.  Putting an entry
replaces the entry of that name (`get?_insert`).
-/
import Wikidown.Text

namespace Wikidown

set_option autoImplicit false

/-- Entries are in increasing order of names, each name once. -/
def Ascending (entries : List (Text × Text)) : Prop :=
  entries.Pairwise fun a b => a.1 < b.1

/-- A finite map from names to texts. -/
structure Dictionary where
  entries : List (Text × Text)
  ascending : Ascending entries
  deriving DecidableEq

namespace Dictionary

/-- An entry put in its place; it replaces the entry of its name. -/
def place (name value : Text) : List (Text × Text) → List (Text × Text)
  | [] => [(name, value)]
  | (n, v) :: rest =>
      if name < n then (name, value) :: (n, v) :: rest
      else if name = n then (name, value) :: rest
      else (n, v) :: place name value rest

theorem mem_place {name value : Text} {entries : List (Text × Text)} {e : Text × Text}
    (h : e ∈ place name value entries) : e = (name, value) ∨ e ∈ entries := by
  induction entries with
  | nil => simpa [place] using h
  | cons head rest ih =>
      obtain ⟨n, v⟩ := head
      simp only [place] at h
      split at h
      · simpa using h
      · split at h
        · rcases List.mem_cons.1 h with h | h
          · exact .inl h
          · exact .inr (List.mem_cons_of_mem _ h)
        · rcases List.mem_cons.1 h with h | h
          · exact .inr (h ▸ List.mem_cons_self)
          · exact (ih h).imp id (List.mem_cons_of_mem _)

theorem lt_of_not_lt_of_ne {a b : Text} (h : ¬ a < b) (ne : a ≠ b) : b < a :=
  Decidable.by_contra fun nlt => ne (List.le_antisymm (List.not_lt.1 nlt) (List.not_lt.1 h))

theorem ascending_place (name value : Text) {entries : List (Text × Text)}
    (h : Ascending entries) : Ascending (place name value entries) := by
  induction entries with
  | nil => simp [place, Ascending]
  | cons head rest ih =>
      obtain ⟨n, v⟩ := head
      obtain ⟨above, tail⟩ := List.pairwise_cons.1 h
      simp only [place]
      split
      · next lt =>
        refine List.pairwise_cons.2 ⟨fun e he => ?_, h⟩
        rcases List.mem_cons.1 he with rfl | he
        · exact lt
        · exact List.lt_trans lt (above e he)
      · next nlt =>
        split
        · next eq => subst eq; exact List.pairwise_cons.2 ⟨above, tail⟩
        · next ne =>
          refine List.pairwise_cons.2 ⟨fun e he => ?_, ih tail⟩
          rcases mem_place he with rfl | he
          · exact lt_of_not_lt_of_ne nlt ne
          · exact above e he

/-- The dictionary without entries. -/
def empty : Dictionary := ⟨[], List.Pairwise.nil⟩

/-- The dictionary with one more entry, in place of any entry of the same name. -/
def insert (d : Dictionary) (name value : Text) : Dictionary :=
  ⟨place name value d.entries, ascending_place name value d.ascending⟩

/-- The entries put in one after the other, so that of two with one name the later stays. -/
def ofList (entries : List (Text × Text)) : Dictionary :=
  entries.foldl (fun d e => d.insert e.1 e.2) empty

/-- The text that stands under a name. -/
def get? (d : Dictionary) (name : Text) : Option Text := d.entries.lookup name

theorem lookup_place (name value other : Text) (entries : List (Text × Text)) :
    (place name value entries).lookup other =
      if other = name then some value else entries.lookup other := by
  induction entries with
  | nil =>
      by_cases h : other = name
      · simp [place, h]
      · simp [place, List.lookup_cons, h, beq_eq_false_iff_ne.2 h]
  | cons head rest ih =>
      obtain ⟨n, v⟩ := head
      simp only [place]
      by_cases h : other = name
      · subst h
        split
        · simp
        · split
          · simp
          · next ne => simp [List.lookup_cons, beq_eq_false_iff_ne.2 ne, ih]
      · split
        · simp [List.lookup_cons, beq_eq_false_iff_ne.2 h]
        · split
          · next eq => subst eq; simp [List.lookup_cons, beq_eq_false_iff_ne.2 h]
          · simp only [List.lookup_cons, ih, if_neg h]

/-- Putting an entry changes what stands under its name and nothing else. -/
@[simp] theorem get?_insert (d : Dictionary) (name value other : Text) :
    (d.insert name value).get? other = if other = name then some value else d.get? other :=
  lookup_place name value other d.entries

@[simp] theorem get?_empty (name : Text) : empty.get? name = none := rfl

/-! ## The order of writing -/

theorem eq_of_entries_eq {a b : Dictionary} (h : a.entries = b.entries) : a = b := by
  cases a
  cases b
  simpa using h

theorem perm_place {name value : Text} {entries : List (Text × Text)}
    (fresh : ∀ e ∈ entries, name ≠ e.1) :
    (place name value entries).Perm ((name, value) :: entries) := by
  induction entries with
  | nil => exact List.Perm.refl _
  | cons head rest ih =>
      obtain ⟨n, v⟩ := head
      have ne : name ≠ n := fresh (n, v) List.mem_cons_self
      simp only [place]
      split
      · exact List.Perm.refl _
      · exact ((ih fun e he => fresh e (List.mem_cons_of_mem _ he)).cons _).trans
          (List.Perm.swap _ _ _)

/-- Entries of different names that are put into a dictionary are all in it. -/
theorem perm_foldl_insert {listed : List (Text × Text)} {d : Dictionary}
    (distinct : (listed ++ d.entries).Pairwise fun a b => a.1 ≠ b.1) :
    (listed.foldl (fun d e => d.insert e.1 e.2) d).entries.Perm (listed ++ d.entries) := by
  induction listed generalizing d with
  | nil => exact List.Perm.refl _
  | cons e listed ih =>
      obtain ⟨fresh, others⟩ := List.pairwise_cons.1 distinct
      have placed : (d.insert e.1 e.2).entries.Perm (e :: d.entries) :=
        perm_place fun other mem => fresh other (List.mem_append_right _ mem)
      have moved : (listed ++ (d.insert e.1 e.2).entries).Perm (e :: (listed ++ d.entries)) :=
        (placed.append_left listed).trans List.perm_middle
      have distinct' := (moved.pairwise_iff fun ne eq => ne eq.symm).2 distinct
      exact (ih distinct').trans moved

/-- A dictionary is what its entries make, in whatever order they are written. -/
theorem ofList_of_perm {listed : List (Text × Text)} {d : Dictionary}
    (all : listed.Perm d.entries) : ofList listed = d := by
  have names : d.entries.Pairwise fun a b => a.1 ≠ b.1 := by
    refine d.ascending.imp fun {a b} lt eq => ?_
    rw [eq] at lt
    exact List.lt_irrefl b.1 lt
  have distinct : (listed ++ empty.entries).Pairwise fun a b => a.1 ≠ b.1 := by
    rw [show empty.entries = [] from rfl, List.append_nil]
    exact (all.pairwise_iff fun ne eq => ne eq.symm).2 names
  have same : (ofList listed).entries.Perm d.entries := by
    have put := perm_foldl_insert distinct
    rw [show empty.entries = [] from rfl, List.append_nil] at put
    exact put.trans all
  exact eq_of_entries_eq (same.eq_of_pairwise
    (fun a b _ _ lt gt => absurd gt (List.lt_asymm lt)) (ofList listed).ascending d.ascending)

instance : Inhabited Dictionary := ⟨empty⟩

end Dictionary

end Wikidown
