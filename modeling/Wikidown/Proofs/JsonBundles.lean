/-
# Wikidown.Proofs.JsonBundles -- a bundle is read from every text that spells it

What may be written for a page, a comment and a bundle: the tables of their fields
(`pageForms`, `commentForms`, `bundleForms`).  The shapes that they are read by have these
fields (`pageShape_follows`, `commentShape_follows`, `bundleShape_follows`), so that every text
that spells a bundle is read as that bundle (`readBundle_of_bundleText`).
-/
import Wikidown.Json.Bundle
import Wikidown.Proofs.JsonRecords
import Wikidown.Proofs.JsonResults

namespace Wikidown.Json

set_option autoImplicit false

open Page (PageRecord CommentRecord Bundle)

/-! ## Fields -/

/-- A string that has to be there. -/
def FieldForm.requiredText {α : Type} (name : Text) (get : α → Text) : FieldForm α where
  name := name
  Spells a := StringText (get a)
  Optional _ := False

/-- A string that may be left out where it is empty. -/
def FieldForm.text {α : Type} (name : Text) (get : α → Text) : FieldForm α where
  name := name
  Spells a := StringText (get a)
  Optional a := get a = []

/-- The fields of a page. -/
def pageForms : List (FieldForm PageRecord) :=
  [.requiredText "id" (·.id), .requiredText "title" (·.title), .text "space_key" (·.spaceKey),
    .text "space_name" (·.spaceName),
    { name := "version", Spells := fun p t => t = Nat.toDigits 10 p.version.toNat,
      Optional := fun p => p.version = 0 },
    .text "last_modified" (·.lastModified), .text "editor" (·.editor), .text "web_link" (·.webLink),
    .text "body" (·.body)]

/-- The fields of a comment. -/
def commentForms : List (FieldForm CommentRecord) :=
  [{ name := "id", Spells := fun c => NullableText c.id?, Optional := fun c => c.id? = none },
    .text "author" (·.author), .text "timestamp" (·.timestamp), .text "body" (·.body)]

/-- The fields of a bundle. -/
def bundleForms : List (FieldForm Bundle) :=
  [{ name := "page", Spells := fun b => RecordText pageForms b.page, Optional := fun _ => False },
    { name := "comments",
      Spells := fun b t =>
        ∃ ts, List.Forall₂ (RecordText commentForms) b.comments ts ∧ Enclosed '[' ']' ts t,
      Optional := fun b => b.comments = [] }]

/-- A text that spells the bundle. -/
def BundleText (b : Bundle) (t : Text) : Prop :=
  ∃ before value after, Gap before ∧ RecordText bundleForms b value ∧ Gap after ∧
    t = before ++ value ++ after

/-! ## What was read so far -/

/-- The value of a field that is among those that were read. -/
def among {α : Type} (name : Text) (names : List Text) (value : α) : Option α :=
  bif names.contains name then some value else none

theorem among_of_mem {α : Type} {name : Text} {names : List Text} (known : name ∈ names)
    (value : α) : among name names value = some value := by
  rw [among, List.contains_iff_mem.2 known, cond_true]

theorem among_of_notMem {α : Type} {name : Text} {names : List Text} (left : name ∉ names)
    (value : α) : among name names value = none := by
  rw [among, Bool.eq_false_iff.2 fun known => left (List.contains_iff_mem.1 known), cond_false]

theorem isSome_among {α : Type} (name : Text) (names : List Text) (value : α) :
    (among name names value).isSome = decide (name ∈ names) := by
  by_cases known : name ∈ names
  · rw [among_of_mem known, decide_eq_true known, Option.isSome_some]
  · rw [among_of_notMem known, decide_eq_false known, Option.isSome_none]

/-- A field that was not read has its default. -/
theorem getD_among {α : Type} {name : Text} {names : List Text} {value default : α}
    (left : name ∉ names → value = default) : (among name names value).getD default = value := by
  by_cases known : name ∈ names
  · rw [among_of_mem known, Option.getD_some]
  · rw [among_of_notMem known, Option.getD_none, left known]

theorem join_among {α : Type} {name : Text} {names : List Text} {value : Option α}
    (left : name ∉ names → value = none) : (among name names value).join = value := by
  by_cases known : name ∈ names
  · rw [among_of_mem known, Option.join_some]
  · rw [among_of_notMem known, Option.join_none, left known]

theorem required_among {α : Type} {name : Text} {names : List Text} {value : α}
    (known : ¬ name ∉ names) : required name (among name names value) = .ok value := by
  rw [among_of_mem (Decidable.not_not.1 known), required]

theorem among_cons_self {α : Type} (name : Text) (names : List Text) (value : α) :
    among name (name :: names) value = some value := among_of_mem List.mem_cons_self value

theorem among_cons_of_ne {α : Type} {name other : Text} (apart : name ≠ other) (names : List Text)
    (value : α) : among name (other :: names) value = among name names value := by
  simp [among, apart]

section

variable {σ α β : Type} {state : α → List Text → σ} {name : Text} {get : σ → Option β}
  {put : σ → β → σ}

/-- A field follows its form if it is kept by itself, and its reader accepts what is written
for it. -/
theorem field_follows {read : Reader β} {Spells : α → Text → Prop} {Optional : α → Prop}
    (value : α → β) (gets : ∀ a names, get (state a names) = among name names (value a))
    (puts : ∀ a names, put (state a names) (value a) = state a (name :: names))
    (accepts : ∀ a t, Spells a t → Accepts read (value a) t) :
    Field.Follows state (field name read get put) ⟨name, Spells, Optional⟩ where
  name := rfl
  isSet a names := by
    show (get (state a names)).isSome = decide (name ∈ names)
    rw [gets, isSome_among]
  read a names t spelled := by
    rw [← puts]
    exact (accepts a t spelled).map (put (state a names))

end

section

variable {σ α : Type} {state : α → List Text → σ} {name : Text} {get : σ → Option Text}
  {put : σ → Text → σ}

theorem text_follows (value : α → Text)
    (gets : ∀ a names, get (state a names) = among name names (value a))
    (puts : ∀ a names, put (state a names) (value a) = state a (name :: names)) :
    Field.Follows state (field name string get put) (.text name value) :=
  field_follows value gets puts fun _ _ => accepts_string

theorem requiredText_follows (value : α → Text)
    (gets : ∀ a names, get (state a names) = among name names (value a))
    (puts : ∀ a names, put (state a names) (value a) = state a (name :: names)) :
    Field.Follows state (field name string get put) (.requiredText name value) :=
  field_follows value gets puts fun _ _ => accepts_string

end

/-! ## Pages -/

/-- What was read of a page with the fields of these names. -/
def pageState (p : PageRecord) (names : List Text) : PageFields where
  id? := among "id" names p.id
  title? := among "title" names p.title
  spaceKey? := among "space_key" names p.spaceKey
  spaceName? := among "space_name" names p.spaceName
  version? := among "version" names p.version
  lastModified? := among "last_modified" names p.lastModified
  editor? := among "editor" names p.editor
  webLink? := among "web_link" names p.webLink
  body? := among "body" names p.body

theorem pageShape_follows : pageShape.Follows pageForms pageState where
  start _ := rfl
  distinct := by decide
  fields := by
    refine .cons (requiredText_follows PageRecord.id (fun _ _ => rfl) fun p names => ?_) <|
      .cons (requiredText_follows PageRecord.title (fun _ _ => rfl) fun p names => ?_) <|
      .cons (text_follows PageRecord.spaceKey (fun _ _ => rfl) fun p names => ?_) <|
      .cons (text_follows PageRecord.spaceName (fun _ _ => rfl) fun p names => ?_) <|
      .cons (field_follows PageRecord.version (fun _ _ => rfl) (fun p names => ?_) ?_) <|
      .cons (text_follows PageRecord.lastModified (fun _ _ => rfl) fun p names => ?_) <|
      .cons (text_follows PageRecord.editor (fun _ _ => rfl) fun p names => ?_) <|
      .cons (text_follows PageRecord.webLink (fun _ _ => rfl) fun p names => ?_) <|
      .cons (text_follows PageRecord.body (fun _ _ => rfl) fun p names => ?_) .nil
    case refine_6 =>
      rintro p _ rfl
      exact accepts_word32 p.version
    all_goals simp (disch := decide) only [pageState, among_cons_self, among_cons_of_ne]
  finish p names complete := by
    simp only [pageForms, FieldForm.requiredText, FieldForm.text, List.forall_mem_cons] at complete
    obtain ⟨id, title, spaceKey, spaceName, version, lastModified, editor, webLink, body, -⟩ :=
      complete
    show (pageState p names).record = .ok p
    simp only [PageFields.record, pageState]
    rw [required_among id, required_among title, getD_among spaceKey, getD_among spaceName,
      getD_among version, getD_among lastModified, getD_among editor, getD_among webLink,
      getD_among body]
    rfl

/-! ## Comments -/

/-- What was read of a comment with the fields of these names. -/
def commentState (c : CommentRecord) (names : List Text) : CommentFields where
  id? := among "id" names c.id?
  author? := among "author" names c.author
  timestamp? := among "timestamp" names c.timestamp
  body? := among "body" names c.body

theorem commentShape_follows : commentShape.Follows commentForms commentState where
  start _ := rfl
  distinct := by decide
  fields := by
    refine .cons (field_follows CommentRecord.id? (fun _ _ => rfl) (fun c names => ?_) ?_) <|
      .cons (text_follows CommentRecord.author (fun _ _ => rfl) fun c names => ?_) <|
      .cons (text_follows CommentRecord.timestamp (fun _ _ => rfl) fun c names => ?_) <|
      .cons (text_follows CommentRecord.body (fun _ _ => rfl) fun c names => ?_) .nil
    case refine_2 => exact fun c t => accepts_nullable
    all_goals simp (disch := decide) only [commentState, among_cons_self, among_cons_of_ne]
  finish c names complete := by
    simp only [commentForms, FieldForm.text, List.forall_mem_cons] at complete
    obtain ⟨id, author, timestamp, body, -⟩ := complete
    show Except.ok (commentState c names).record = .ok c
    simp only [CommentFields.record, commentState]
    rw [join_among id, getD_among author, getD_among timestamp, getD_among body]

/-! ## Bundles -/

/-- What was read of a bundle with the fields of these names. -/
def bundleState (b : Bundle) (names : List Text) : BundleFields where
  page? := among "page" names b.page
  comments? := among "comments" names b.comments

theorem bundleShape_follows : bundleShape.Follows bundleForms bundleState where
  start _ := rfl
  distinct := by decide
  fields := by
    refine .cons (field_follows Bundle.page (fun _ _ => rfl) (fun b names => ?_) ?_) <|
      .cons (field_follows Bundle.comments (fun _ _ => rfl) (fun b names => ?_) ?_) .nil
    case refine_2 => exact fun b t => pageShape_follows.accepts
    case refine_4 =>
      rintro b t ⟨ts, spelled, enclosed⟩
      exact accepts_list enclosed (spelled.imp fun c t => commentShape_follows.accepts)
    all_goals simp (disch := decide) only [bundleState, among_cons_self, among_cons_of_ne]
  finish b names complete := by
    simp only [bundleForms, List.forall_mem_cons] at complete
    obtain ⟨page, comments, -⟩ := complete
    show (bundleState b names).record = .ok b
    simp only [BundleFields.record, bundleState]
    rw [required_among page, getD_among comments]
    rfl

/-- A value that is read and white space behind it are all of a text. -/
theorem readAll_of_accepts {α : Type} {read : Reader α} {a : α} {t g g' : Text} (gap : Gap g)
    (accepts : Accepts read a t) (gap' : Gap g') : readAll read (g ++ t ++ g') = .ok a := by
  obtain ⟨step, eq, value, after⟩ := (accepts.reads g g' gap gap'.delimited).exists_step
  have blank : dropGap g' = [] := by simpa using dropGap_append gap' shown_nil
  rw [List.append_assoc, readAll, eq]
  simp only [bind, Except.bind, value, after, blank, List.isEmpty_nil, if_true]

/-- A bundle is read from every text that spells it. -/
theorem readBundle_of_bundleText {b : Bundle} {t : Text} (h : BundleText b t) :
    readBundle t = .ok b := by
  obtain ⟨before, value, after, gap, record, gap', rfl⟩ := h
  exact readAll_of_accepts gap (bundleShape_follows.accepts record) gap'

/-! ## Every bundle can be written -/

theorem exists_enclosed (opening closing : Char) (ts : List Text) :
    ∃ t, Enclosed opening closing ts t := by
  have items : ∀ (t : Text) (ts : List Text), ∃ u, Separated (t :: ts) u := by
    intro t ts
    induction ts generalizing t with
    | nil => exact ⟨_, .one gap_nil gap_nil⟩
    | cons t' ts ih =>
        obtain ⟨u, separated⟩ := ih t'
        exact ⟨_, .more gap_nil gap_nil separated⟩
  cases ts with
  | nil => exact ⟨_, .empty gap_nil⟩
  | cons t ts =>
      obtain ⟨u, separated⟩ := items t ts
      exact ⟨_, .filled separated⟩

theorem exists_texts {ι : Type} {Spells : ι → Text → Prop} {xs : List ι}
    (each : ∀ x ∈ xs, ∃ t, Spells x t) : ∃ ts, List.Forall₂ Spells xs ts := by
  induction xs with
  | nil => exact ⟨[], .nil⟩
  | cons x xs ih =>
      obtain ⟨t, spelled⟩ := each x List.mem_cons_self
      obtain ⟨ts, others⟩ := ih fun y mem => each y (List.mem_cons_of_mem _ mem)
      exact ⟨t :: ts, .cons spelled others⟩

/-- A record whose fields can be written can be written as an array of all of them. -/
theorem exists_recordText {α : Type} {forms : List (FieldForm α)} {a : α}
    (each : ∀ form ∈ forms, ∃ t, form.Spells a t) : ∃ t, RecordText forms a t := by
  obtain ⟨values, spelled⟩ := exists_texts each
  obtain ⟨t, enclosed⟩ := exists_enclosed '[' ']' values
  exact ⟨t, .inr ⟨forms, [], values, (List.append_nil forms).symm, spelled, by simp, enclosed⟩⟩

theorem exists_pageText (p : PageRecord) : ∃ t, RecordText pageForms p t := by
  have string : ∀ s, ∃ t, StringText s t := fun s => ⟨_, stringText_writtenString s⟩
  refine exists_recordText ?_
  simp only [pageForms, List.forall_mem_cons]
  exact ⟨string _, string _, string _, string _, ⟨_, rfl⟩, string _, string _, string _, string _,
    by simp⟩

theorem exists_commentText (c : CommentRecord) : ∃ t, RecordText commentForms c t := by
  have string : ∀ s, ∃ t, StringText s t := fun s => ⟨_, stringText_writtenString s⟩
  have id : ∃ t, NullableText c.id? t := by
    cases c.id? with
    | none => exact ⟨_, rfl⟩
    | some s => exact string s
  refine exists_recordText ?_
  simp only [commentForms, List.forall_mem_cons]
  exact ⟨id, string _, string _, string _, by simp⟩

/-- Every bundle has a text that spells it. -/
theorem exists_bundleText (b : Bundle) : ∃ t, BundleText b t := by
  obtain ⟨ts, spelled⟩ := exists_texts fun c (_ : c ∈ b.comments) => exists_commentText c
  obtain ⟨comments, enclosed⟩ := exists_enclosed '[' ']' ts
  have record : ∃ t, RecordText bundleForms b t := by
    refine exists_recordText ?_
    simp only [bundleForms, List.forall_mem_cons]
    exact ⟨exists_pageText b.page, ⟨comments, ts, spelled, enclosed⟩, by simp⟩
  obtain ⟨t, record⟩ := record
  exact ⟨_, [], t, [], gap_nil, record, gap_nil, rfl⟩

/-! ## A bundle and one of its texts -/

/-- A page and a comment by an author whose name is one character. -/
def sampleBundle : Bundle where
  page := ⟨"7", "T", "", "", 0, "", "", "", ""⟩
  comments := [⟨none, "😀", "", ""⟩]

/-- An unknown member before the others. -/
def sampleUnknown : Text := "\"x\":[\x7b\x7d]"

/-- The comment as an array, its author as a surrogate pair. -/
def sampleComment : Text := "[null,\"\\ud83d\\uDE00\"]"

/-- The page as an object with its fields out of order and an escaped id. -/
def samplePage : Text := "\x7b\"title\":\"T\",\"id\":\"\\u0037\"\x7d"

/-- The members of the bundle, its comments before its page. -/
def sampleMembers : List (Option Text × Text) :=
  [(none, sampleUnknown),
    (some "comments", memberText "\"comments\"" [] [' '] ('[' :: (sampleComment ++ [']']))),
    (some "page", memberText "\"page\"" [] [] samplePage)]

/-- The bundle as an object of these members. -/
def sampleText : Text :=
  "\x7b" ++ sampleUnknown ++ ",\"comments\": [" ++ sampleComment ++ "],\"page\":" ++ samplePage
    ++ "\x7d\n"

theorem enclosed_singleton (opening closing : Char) (t : Text) :
    Enclosed opening closing [t] (opening :: (t ++ [closing])) := by
  simpa using Enclosed.filled (.one gap_nil gap_nil)

theorem memberText_sampleUnknown (b : Bundle) : MemberText bundleForms b none sampleUnknown := by
  have inner : Spells LooseText (.record []) "\x7b\x7d" :=
    .record [] (by simp) (by simp) (by simp) (.empty gap_nil)
  have value : WellFormed "[\x7b\x7d]" :=
    ⟨_, .list [(.record [], "\x7b\x7d")] (by simpa using inner) (enclosed_singleton _ _ _)⟩
  exact .unknown (by decide) (stringText_of_raw (s := "x") (by simp [IsRaw])) gap_nil gap_nil value

theorem recordText_sampleComment : RecordText commentForms ⟨none, "😀", "", ""⟩ sampleComment := by
  have high : HexText 0xD83D ['d', '8', '3', 'd'] :=
    hexText_of_digits 13 8 3 13 (by decide) (by decide)
  have low : HexText 0xDE00 ['D', 'E', '0', '0'] :=
    hexText_of_digits 13 14 0 0 (by decide) (by decide)
  have author : StringText "😀" "\"\\ud83d\\uDE00\"" :=
    ⟨_, .cons (.pair high low (by decide) (by decide) (by decide)) .nil, rfl⟩
  refine .inr ⟨commentForms.take 2, commentForms.drop 2, ["null", "\"\\ud83d\\uDE00\""], rfl,
    .cons rfl (.cons author .nil), ?_, .filled (.more gap_nil gap_nil (.one gap_nil gap_nil))⟩
  simp [commentForms, FieldForm.text]

theorem recordText_samplePage : RecordText pageForms sampleBundle.page samplePage := by
  have seven : HexText '7'.toNat ['0', '0', '3', '7'] :=
    hexText_of_digits 0 0 3 7 (by decide) (by decide)
  have id : MemberText pageForms sampleBundle.page (some "id") "\"id\":\"\\u0037\"" :=
    .known pageForms[0] (List.getElem_mem _) (stringText_of_raw (s := "id") (by simp [IsRaw]))
      gap_nil gap_nil ⟨_, .cons (.unit seven) .nil, rfl⟩
  have title : MemberText pageForms sampleBundle.page (some "title") "\"title\":\"T\"" :=
    .known pageForms[1] (List.getElem_mem _) (stringText_of_raw (s := "title") (by simp [IsRaw]))
      gap_nil gap_nil (stringText_of_raw (s := "T") (by simp [IsRaw]))
  refine .inl ⟨[(some "title", "\"title\":\"T\""), (some "id", "\"id\":\"\\u0037\"")], ?_,
    by decide, ?_, .filled (.more gap_nil gap_nil (.one gap_nil gap_nil))⟩
  · exact List.forall_mem_cons.2 ⟨title, List.forall_mem_singleton.2 id⟩
  · simp [pageForms, FieldForm.text, FieldForm.requiredText, knownNames, sampleBundle]

theorem memberText_sampleMembers :
    ∀ x ∈ sampleMembers, MemberText bundleForms sampleBundle x.1 x.2 := by
  refine List.forall_mem_cons.2 ⟨memberText_sampleUnknown sampleBundle,
    List.forall_mem_cons.2 ⟨?comments, List.forall_mem_singleton.2 ?page⟩⟩
  case comments =>
    exact .known bundleForms[1] (List.getElem_mem _)
      (stringText_of_raw (s := "comments") (by simp [IsRaw])) gap_nil (by simp [Gap, isGap])
      ⟨_, .cons recordText_sampleComment .nil, enclosed_singleton _ _ _⟩
  case page =>
    exact .known bundleForms[0] (List.getElem_mem _)
      (stringText_of_raw (s := "page") (by simp [IsRaw])) gap_nil gap_nil recordText_samplePage

theorem bundleText_sampleText : BundleText sampleBundle sampleText := by
  refine ⟨[], _, "\n", gap_nil, .inl ⟨sampleMembers, memberText_sampleMembers, by decide, ?_,
    .filled (.more gap_nil gap_nil (.more gap_nil gap_nil (.one gap_nil gap_nil)))⟩,
    by simp [Gap, isGap], by decide⟩
  simp [bundleForms, knownNames, sampleMembers]

theorem readBundle_sampleText :
    BundleText sampleBundle sampleText ∧ readBundle sampleText = .ok sampleBundle :=
  ⟨bundleText_sampleText, readBundle_of_bundleText bundleText_sampleText⟩

end Wikidown.Json
