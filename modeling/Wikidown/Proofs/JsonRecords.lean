/-
# Wikidown.Proofs.JsonRecords -- records are read however they are written

The fields of a record are given by their names, by what is written for each and by when it
may be left out (`FieldForm`).  An `ObjectText` has its fields under their names in any order
and among unknown keys; an `ArrayText` has them in their order.  A shape that follows the
fields (`Shape.Follows`) accepts every `RecordText`: what was read of the record so far is
known from the names that were read (`reads_member` and `reads_members`, `reads_fieldElements`).
-/
import Wikidown.Proofs.JsonReaders

namespace Wikidown.Json

set_option autoImplicit false

/-! ## Records and their texts -/

/-- A field of a record: its name, what is written for its value, and when it may be left
out. -/
structure FieldForm (α : Type) where
  name : Text
  Spells : α → Text → Prop
  Optional : α → Prop

/-- The fields among the members of an object. -/
def knownNames (items : List (Option Text × Text)) : List Text := items.filterMap Prod.fst

section

variable {α : Type} (forms : List (FieldForm α)) (a : α)

/-- A member of an object: a field under its name, or a well-formed value under a key that is
no field's name. -/
inductive MemberText : Option Text → Text → Prop
  | known (form : FieldForm α) {key before after value : Text} (isField : form ∈ forms)
      (quoted : StringText form.name key) (blank : Gap before) (blank' : Gap after)
      (spelled : form.Spells a value) :
      MemberText (some form.name) (memberText key before after value)
  | unknown {name key before after value : Text} (fresh : ∀ form ∈ forms, form.name ≠ name)
      (quoted : StringText name key) (blank : Gap before) (blank' : Gap after)
      (wellFormed : WellFormed value) :
      MemberText none (memberText key before after value)

/-- A record as an object: no field twice, and every field that is not there may be left
out. -/
def ObjectText (t : Text) : Prop :=
  ∃ items : List (Option Text × Text), (∀ x ∈ items, MemberText forms a x.1 x.2) ∧
    (knownNames items).Nodup ∧ (∀ form ∈ forms, form.name ∉ knownNames items → form.Optional a) ∧
    Enclosed '{' '}' (items.map Prod.snd) t

/-- A record as an array of its fields, but for some at the end that may be left out. -/
def ArrayText (t : Text) : Prop :=
  ∃ present missing values, forms = present ++ missing ∧
    List.Forall₂ (fun form value => form.Spells a value) present values ∧
    (∀ form ∈ missing, form.Optional a) ∧ Enclosed '[' ']' values t

/-- A record in one of its two ways. -/
def RecordText (t : Text) : Prop := ObjectText forms a t ∨ ArrayText forms a t

end

/-! ## Shapes -/

/-- A field of a shape reads what is written for it, and puts its name among those that were
read. -/
structure Field.Follows {σ α : Type} (state : α → List Text → σ) (field : Field σ)
    (form : FieldForm α) : Prop where
  name : field.name = form.name
  isSet : ∀ a names, field.isSet (state a names) = decide (form.name ∈ names)
  read : ∀ a names t, form.Spells a t →
    Accepts (field.read (state a names)) (state a (form.name :: names)) t

/-- The shape has the given fields; `state a names` is what was read of the record `a` with
the fields of these names. -/
structure Shape.Follows {σ α : Type} (shape : Shape σ α) (forms : List (FieldForm α))
    (state : α → List Text → σ) : Prop where
  start : ∀ a, state a [] = shape.start
  fields : List.Forall₂ (Field.Follows state) shape.fields forms
  distinct : (forms.map FieldForm.name).Nodup
  finish : ∀ a names, (∀ form ∈ forms, form.name ∉ names → form.Optional a) →
    shape.finish (state a names) = .ok a

/-! ## Members -/

theorem MemberText.opens {α : Type} {forms : List (FieldForm α)} {a : α} {name? : Option Text}
    {t : Text} (h : MemberText forms a name? t) : Opens t := by
  cases h with
  | known _ _ quoted _ _ _ | unknown _ quoted _ _ _ => exact quoted.opens.member _ _ _

/-- What stands behind a key up to its value. -/
theorem reads_colon {g : Text} (gap : Gap g) (rest : Text) : Reads colon (g ++ ':' :: rest) () rest :=
  reads_behindGap gap rfl ⟨⟨(), rest, by simp⟩, if_pos rfl, rfl, rfl⟩

section

variable {σ : Type} {fields : List (Field σ)} {state after : σ} {name t value rest : Text}

theorem reads_member_known {field : Field σ} (key : Reads stringBody t name value)
    (found : fields.find? (·.name == name) = some field) (fresh : field.isSet state = false)
    {more : Text} (behind : Reads colon value () more)
    (read : Reads (field.read state) more after rest) :
    Reads (member fields state) t after rest := by
  obtain ⟨step, eq, rfl, rfl⟩ := key.exists_step
  obtain ⟨step', eq', -, rfl⟩ := behind.exists_step
  obtain ⟨step'', eq'', value'', after''⟩ := read.exists_step
  simp only [Reads, outcome, member, eq, bind, Except.bind, found, fresh, Bool.false_eq_true, if_false,
    eq', eq'', Except.map, Step.widen, value'', after'']

theorem reads_member_unknown (key : Reads stringBody t name value)
    (found : fields.find? (·.name == name) = none) {more : Text} (behind : Reads colon value () more)
    (skipped : skipValue more = .ok rest) : Reads (member fields state) t state rest := by
  obtain ⟨step, eq, rfl, rfl⟩ := key.exists_step
  obtain ⟨step', eq', -, rfl⟩ := behind.exists_step
  simp only [Reads, outcome, member, eq, bind, Except.bind, found, eq']
  split <;> rename_i skipped' <;> cases skipped.symm.trans skipped'
  rfl

/-! ## Objects -/

theorem reads_memberStart {isFirst : Bool} {lead g : Text} (leads : Lead isFirst lead) (gap : Gap g)
    (rest : Text) : Reads (memberStart isFirst) (lead ++ (g ++ '"' :: rest)) true rest := by
  cases isFirst with
  | true =>
      obtain rfl : lead = [] := leads
      exact reads_behindGap (c := '"') gap rfl ⟨⟨true, rest, by simp⟩, rfl, rfl, rfl⟩
  | false =>
      obtain ⟨g', gap', rfl⟩ := leads
      have quote : Reads keyStart (g ++ '"' :: rest) () rest :=
        reads_behindGap (c := '"') gap rfl ⟨⟨(), rest, by simp⟩, rfl, rfl, rfl⟩
      obtain ⟨step, eq, -, after⟩ := quote.exists_step
      rw [List.append_assoc]
      refine reads_behindGap (c := ',') gap' rfl
        ⟨(step.map fun _ => true).widen (by simp), ?_, rfl, after⟩
      have quoted : keyStart ([].append (g ++ '"' :: rest)) = .ok step := eq
      rw [if_neg (by decide), if_neg (by decide), if_pos rfl, quoted]
      rfl

theorem reads_members_nil (isFirst : Bool) {g : Text} (gap : Gap g) (rest : Text) :
    Reads (members fields isFirst state) (g ++ '}' :: rest) state rest := by
  have brace : Reads (memberStart isFirst) (g ++ '}' :: rest) false rest :=
    reads_behindGap (c := '}') gap rfl ⟨⟨false, rest, by simp⟩, if_pos rfl, rfl, rfl⟩
  obtain ⟨step, eq, value, after⟩ := brace.exists_step
  rw [Reads, outcome, members]
  split <;> rename_i found <;> cases eq.symm.trans found
  simp only [value, Bool.false_eq_true, if_false, Except.map, Step.map, after]

theorem reads_members_cons {isFirst : Bool} {middle : σ} {next more : Text}
    (start : Reads (memberStart isFirst) t true next)
    (first : Reads (member fields state) next middle more)
    (others : Reads (members fields false middle) more after rest) :
    Reads (members fields isFirst state) t after rest := by
  obtain ⟨step, eq, value, rfl⟩ := start.exists_step
  obtain ⟨step', eq', rfl, rfl⟩ := first.exists_step
  obtain ⟨step'', eq'', value'', after''⟩ := others.exists_step
  rw [Reads, outcome, members]
  split
  · next error => cases eq.symm.trans error
  · next ok =>
    obtain rfl := Except.ok.inj (eq.symm.trans ok)
    simp only [value, if_true]
    split
    · next error => cases eq'.symm.trans error
    · next ok' =>
      obtain rfl := Except.ok.inj (eq'.symm.trans ok')
      simp only [eq'', Except.map, Step.widen, value'', after'']

end

section

variable {σ α : Type} {shape : Shape σ α} {forms : List (FieldForm α)} {state : α → List Text → σ}

/-- The field of a name is found. -/
theorem find?_eq_some {fields : List (Field σ)}
    (rows : List.Forall₂ (Field.Follows state) fields forms)
    (distinct : (forms.map FieldForm.name).Nodup) {form : FieldForm α} (isField : form ∈ forms) :
    ∃ field, fields.find? (·.name == form.name) = some field ∧ Field.Follows state field form := by
  induction rows with
  | nil => cases isField
  | @cons field form' fields forms follows rows ih =>
      obtain ⟨fresh, distinct⟩ := List.nodup_cons.1 distinct
      rcases List.mem_cons.1 isField with rfl | isField
      · exact ⟨field, List.find?_cons_of_pos (by simp [follows.name]), follows⟩
      · have apart : field.name ≠ form.name := fun eq =>
          fresh (List.mem_map.2 ⟨form, isField, (follows.name.symm.trans eq).symm⟩)
        rw [List.find?_cons_of_neg (by simpa using apart)]
        exact ih distinct isField

/-- A key that is no field's name finds none. -/
theorem find?_eq_none {fields : List (Field σ)}
    (rows : List.Forall₂ (Field.Follows state) fields forms) {name : Text}
    (fresh : ∀ form ∈ forms, form.name ≠ name) : fields.find? (·.name == name) = none := by
  induction rows with
  | nil => rfl
  | @cons field form fields forms follows rows ih =>
      have apart : field.name ≠ name := follows.name ▸ fresh form List.mem_cons_self
      rw [List.find?_cons_of_neg (by simpa using apart)]
      exact ih fun form mem => fresh form (List.mem_cons_of_mem _ mem)

/-- A member adds its field to those that were read, and an unknown one adds none. -/
theorem Shape.Follows.reads_member (follows : shape.Follows forms state) {a : α}
    {name? : Option Text} {t : Text} (h : MemberText forms a name? t) {names : List Text}
    (fresh : ∀ name ∈ name?, name ∉ names) :
    ∃ more, t = '"' :: more ∧ ∀ rest, Delimited rest →
      Reads (member shape.fields (state a names)) (more ++ rest) (state a (name?.toList ++ names))
        rest := by
  cases h with
  | @known form key before after value isField quoted blank blank' spelled =>
      obtain ⟨body, chars, rfl⟩ := quoted
      refine ⟨body ++ '"' :: (before ++ ':' :: (after ++ value)), by simp [memberText],
        fun rest delimited => ?_⟩
      obtain ⟨field, found, reads⟩ := find?_eq_some follows.fields follows.distinct isField
      have unset : field.isSet (state a names) = false := by
        rw [reads.isSet, decide_eq_false (fresh form.name rfl)]
      have key := reads_stringBody chars (before ++ ':' :: (after ++ (value ++ rest)))
      have read := (reads.read a names value spelled).reads after rest blank' delimited
      simpa only [List.append_assoc, List.cons_append, Option.toList_some, List.nil_append] using
        reads_member_known key found unset (reads_colon blank _) read
  | @unknown name key before after value unknown quoted blank blank' wellFormed =>
      obtain ⟨body, chars, rfl⟩ := quoted
      refine ⟨body ++ '"' :: (before ++ ':' :: (after ++ value)), by simp [memberText],
        fun rest delimited => ?_⟩
      have key := reads_stringBody chars (before ++ ':' :: (after ++ (value ++ rest)))
      have skipped := skipValue_append wellFormed blank' delimited
      simpa only [List.append_assoc, List.cons_append, Option.toList_none, List.nil_append] using
        reads_member_unknown key (find?_eq_none follows.fields unknown) (reads_colon blank _) skipped

theorem knownNames_cons (item : Option Text × Text) (items : List (Option Text × Text)) :
    knownNames (item :: items) = item.1.toList ++ knownNames items := by
  obtain ⟨_ | name, t⟩ := item <;> rfl

theorem nodup_knownNames_cons {item : Option Text × Text} {others : List (Option Text × Text)}
    {names : List Text} (once : (knownNames (item :: others) ++ names).Nodup) :
    (∀ name ∈ item.1, name ∉ names) ∧ (knownNames others ++ (item.1.toList ++ names)).Nodup := by
  rw [knownNames_cons, List.append_assoc] at once
  refine ⟨fun name member known => ?_, ?_⟩
  · exact (List.nodup_append.1 once).2.2 name (Option.mem_toList.2 member) name
      (List.mem_append_right _ known) rfl
  · have order : (item.1.toList ++ (knownNames others ++ names)).Perm
        (knownNames others ++ (item.1.toList ++ names)) := List.perm_append_comm_assoc _ _ _
    exact order.nodup_iff.1 once

/-- The members of an object are read up to its closing brace: each adds its field to those
that were read before it. -/
theorem Shape.Follows.reads_members (follows : shape.Follows forms state) {a : α}
    {ts : List Text} {u : Text} (h : Separated ts u) {items : List (Option Text × Text)}
    (texts : items.map Prod.snd = ts) (each : ∀ x ∈ items, MemberText forms a x.1 x.2)
    {names : List Text} (once : (knownNames items ++ names).Nodup) {isFirst : Bool} {lead : Text}
    (leads : Lead isFirst lead) (rest : Text) :
    Reads (members shape.fields isFirst (state a names)) (lead ++ (u ++ '}' :: rest))
      (state a ((knownNames items).reverse ++ names)) rest := by
  induction h generalizing items names isFirst lead with
  | @one t g g' before after =>
      obtain ⟨item, others, rfl, rfl, none⟩ := List.map_eq_cons_iff.1 texts
      obtain rfl := List.map_eq_nil_iff.1 none
      obtain ⟨fresh, -⟩ := nodup_knownNames_cons once
      obtain ⟨more, quote, read⟩ := follows.reads_member (each item List.mem_cons_self) fresh
      have first := read (g' ++ '}' :: rest) (.of_gap after (delimited_brace rest))
      have start := reads_memberStart leads before (more ++ (g' ++ '}' :: rest))
      have members := reads_members_cons start first (reads_members_nil false after rest)
      have names : (knownNames [item]).reverse = item.1.toList := by
        obtain ⟨_ | name, t⟩ := item <;> rfl
      simpa only [quote, names, List.append_assoc, List.cons_append] using members
  | @more t g g' u ts before after others ih =>
      obtain ⟨item, items, rfl, rfl, behind⟩ := List.map_eq_cons_iff.1 texts
      obtain ⟨fresh, once⟩ := nodup_knownNames_cons once
      obtain ⟨more, quote, read⟩ := follows.reads_member (each item List.mem_cons_self) fresh
      have first := read (g' ++ ',' :: (u ++ '}' :: rest)) (.of_gap after (delimited_comma _))
      have start := reads_memberStart leads before (more ++ (g' ++ ',' :: (u ++ '}' :: rest)))
      have following := ih behind (fun x mem => each x (List.mem_cons_of_mem _ mem)) once
        (lead_next after)
      rw [List.append_assoc, List.singleton_append] at following
      have members := reads_members_cons start first following
      have names : (knownNames (item :: items)).reverse
          = (knownNames items).reverse ++ item.1.toList := by
        obtain ⟨_ | name, t⟩ := item <;> simp [knownNames]
      simpa only [quote, names, List.append_assoc, List.cons_append] using members

/-! ## Arrays -/

/-- The fields of an array are read as far as they are there. -/
def ReadsFields (fields : List (Field σ)) (isFirst : Bool) (count : Nat) (s : σ) (t : Text) (s' : σ)
    (rest : Text) : Prop :=
  (fieldElements isFirst count s fields t).map (fun r => (r.2.1, r.1.1)) = .ok (s', rest)

theorem readsFields_nil (fields : List (Field σ)) (isFirst : Bool) (count : Nat) (s : σ) {g : Text}
    (gap : Gap g) (rest : Text) :
    ReadsFields fields isFirst count s (g ++ ']' :: rest) s (g ++ ']' :: rest) := by
  cases fields with
  | nil => rfl
  | cons field fields =>
      have none := element?_none isFirst gap rest
      rw [ReadsFields, fieldElements]
      split <;> rename_i found <;> cases none.symm.trans found
      rfl

theorem readsFields_cons {field : Field σ} {fields : List (Field σ)} {isFirst : Bool} (count : Nat)
    {s s' s'' : σ} {t next more rest : Text} (found : element? isFirst t = .ok (some next))
    (first : Reads (field.read s) next s' more)
    (others : ReadsFields fields false (count + 1) s' more s'' rest) :
    ReadsFields (field :: fields) isFirst count s t s'' rest := by
  obtain ⟨step, eq, rfl, rfl⟩ := first.exists_step
  rw [ReadsFields, fieldElements]
  split
  · next found' => cases found.symm.trans found'
  · next found' => cases found.symm.trans found'
  · next u found' =>
    obtain rfl := Option.some.inj (Except.ok.inj (found.symm.trans found'))
    simp only [eq, bind, Except.bind]
    unfold ReadsFields at others
    cases read : fieldElements false (count + 1) step.value fields step.rest with
    | error fault => rw [read] at others; cases others
    | ok r =>
        rw [read] at others
        exact others

/-- The values of an array are read up to its closing bracket, each as the next field. -/
theorem reads_fieldElements {fields : List (Field σ)} {a : α} {present missing : List (FieldForm α)}
    (rows : List.Forall₂ (Field.Follows state) fields (present ++ missing))
    {ts : List Text} {u : Text} (h : Separated ts u)
    (values : List.Forall₂ (fun form value => form.Spells a value) present ts)
    (names : List Text) {isFirst : Bool} (count : Nat) {lead : Text} (leads : Lead isFirst lead)
    (rest : Text) :
    ∃ g, Gap g ∧ ReadsFields fields isFirst count (state a names) (lead ++ (u ++ ']' :: rest))
      (state a ((present.map FieldForm.name).reverse ++ names)) (g ++ ']' :: rest) := by
  induction h generalizing fields present names isFirst count lead with
  | @one t g g' before after =>
      obtain ⟨form, others, spelled, last, rfl⟩ := List.forall₂_cons_right_iff.1 values
      cases last
      obtain ⟨field, fields, follows, -, rfl⟩ := List.forall₂_cons_right_iff.1 rows
      have accepts := follows.read a names t spelled
      have first := accepts.reads [] (g' ++ ']' :: rest) gap_nil
        (.of_gap after (delimited_bracket rest))
      have found := element?_some leads before (accepts.opens.append (g' ++ ']' :: rest))
      have read := readsFields_cons count found first
        (readsFields_nil fields false (count + 1) _ after rest)
      refine ⟨g', after, ?_⟩
      simpa only [List.append_assoc, List.map_cons, List.map_nil, List.reverse_singleton,
        List.cons_append, List.nil_append] using read
  | @more t g g' u ts before after others ih =>
      obtain ⟨form, present, spelled, behind, rfl⟩ := List.forall₂_cons_right_iff.1 values
      obtain ⟨field, fields, follows, rows', rfl⟩ := List.forall₂_cons_right_iff.1 rows
      have accepts := follows.read a names t spelled
      have first := accepts.reads [] (g' ++ ',' :: (u ++ ']' :: rest)) gap_nil
        (.of_gap after (delimited_comma _))
      have found := element?_some leads before
        (accepts.opens.append (g' ++ ',' :: (u ++ ']' :: rest)))
      obtain ⟨last, blank, following⟩ := ih rows' behind (form.name :: names) (count + 1)
        (lead_next after)
      rw [List.append_assoc, List.singleton_append] at following
      have read := readsFields_cons count found first following
      refine ⟨last, blank, ?_⟩
      simpa only [List.append_assoc, List.cons_append, List.map_cons, List.reverse_cons,
        List.nil_append] using read

/-! ## Records -/

theorem reads_object {s : σ} {a : α} {t rest : Text}
    (read : Reads (members shape.fields true shape.start) t s rest) (finish : shape.finish s = .ok a)
    {g : Text} (gap : Gap g) : Reads shape.read (g ++ '{' :: t) a rest := by
  obtain ⟨step, eq, rfl, after⟩ := read.exists_step
  have object : shape.readObject t = .ok (step.map fun _ => a) := by
    simp only [Shape.readObject, eq, bind, Except.bind, finish]
  refine reads_behindGap gap rfl ⟨(step.map fun _ => a).widen (by simp), ?_, rfl, after⟩
  rw [if_pos rfl, object]
  rfl

theorem reads_array {s : σ} {a : α} {t rest g' : Text} (blank : Gap g')
    (read : ReadsFields shape.fields true 0 shape.start t s (g' ++ ']' :: rest))
    (finish : shape.finish s = .ok a) {g : Text} (gap : Gap g) :
    Reads shape.read (g ++ '[' :: t) a rest := by
  have array : ∃ step, shape.readArray t = .ok step ∧ step.value = a ∧ step.rest = rest := by
    unfold ReadsFields at read
    cases elements : fieldElements true 0 shape.start shape.fields t with
    | error fault => rw [elements] at read; cases read
    | ok r =>
        obtain ⟨⟨after, le⟩, s', count⟩ := r
        rw [elements] at read
        obtain ⟨rfl, rfl⟩ := Prod.mk.inj (Except.ok.inj read)
        obtain ⟨step, eq, -, behind⟩ := (reads_listEnd blank rest).exists_step
        refine ⟨(step.map fun _ => a).widen le, ?_, rfl, behind⟩
        simp only [Shape.readArray, elements, bind, Except.bind, finish, eq]
  obtain ⟨step, eq, value, after⟩ := array
  refine reads_behindGap gap rfl ⟨step.widen (by simp), ?_, value, after⟩
  rw [if_neg (by decide), if_pos rfl, eq]
  rfl

/-- An object is accepted with its members in any order and among unknown ones. -/
theorem Shape.Follows.accepts_object (follows : shape.Follows forms state) {a : α} {t : Text}
    (h : ObjectText forms a t) : Accepts shape.read a t := by
  obtain ⟨items, each, once, complete, enclosed⟩ := h
  refine ⟨enclosed.opens (.inr rfl), fun g rest gap delimited => ?_⟩
  have finish : shape.finish (state a ((knownNames items).reverse ++ [])) = .ok a :=
    follows.finish a _ fun form isField left => complete form isField fun known =>
      left (List.mem_append_left [] (List.mem_reverse.2 known))
  generalize texts : items.map Prod.snd = ts at enclosed
  cases enclosed with
  | empty blank =>
      obtain rfl := List.map_eq_nil_iff.1 texts
      rw [show (knownNames []).reverse ++ [] = [] from rfl, follows.start] at finish
      have read := reads_object (reads_members_nil true blank rest) finish gap
      simpa only [List.cons_append, List.append_assoc, List.nil_append] using read
  | filled separated =>
      have apart : (knownNames items ++ []).Nodup := by rwa [List.append_nil]
      have members := follows.reads_members separated texts each apart lead_first rest
      rw [follows.start] at members
      have read := reads_object members finish gap
      simpa only [List.cons_append, List.append_assoc, List.nil_append] using read

/-- An array of the fields is accepted as far as it goes. -/
theorem Shape.Follows.accepts_array (follows : shape.Follows forms state) {a : α} {t : Text}
    (h : ArrayText forms a t) : Accepts shape.read a t := by
  obtain ⟨present, missing, values, rfl, spelled, optional, enclosed⟩ := h
  refine ⟨enclosed.opens (.inl rfl), fun g rest gap delimited => ?_⟩
  have finish : shape.finish (state a ((present.map FieldForm.name).reverse ++ [])) = .ok a := by
    refine follows.finish a _ fun form isField left => ?_
    rcases List.mem_append.1 isField with there | gone
    · have known : form.name ∈ (present.map FieldForm.name).reverse :=
        List.mem_reverse.2 (List.mem_map_of_mem there)
      exact absurd (List.mem_append_left [] known) left
    · exact optional form gone
  cases enclosed with
  | empty blank =>
      cases spelled
      rw [show (List.map FieldForm.name []).reverse ++ [] = [] from rfl, follows.start] at finish
      have read := reads_array blank (readsFields_nil shape.fields true 0 shape.start blank rest)
        finish gap
      simpa only [List.cons_append, List.append_assoc, List.nil_append] using read
  | filled separated =>
      obtain ⟨g', blank, fields⟩ := reads_fieldElements follows.fields separated spelled [] 0
        lead_first rest
      rw [follows.start] at fields
      have read := reads_array blank fields finish gap
      simpa only [List.cons_append, List.append_assoc, List.nil_append] using read

/-- A record is accepted in both of its ways. -/
theorem Shape.Follows.accepts (follows : shape.Follows forms state) {a : α} {t : Text}
    (h : RecordText forms a t) : Accepts shape.read a t :=
  h.elim follows.accepts_object follows.accepts_array

end

end Wikidown.Json
