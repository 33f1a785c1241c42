/-
# Wikidown.Proofs.Deliveries -- a run delivers its text or leaves the files alone

A run reads its input, makes a text of it, and delivers the text: it prints it, or it writes it to
the output.  `Yields` says which text a run makes; neither the output nor what is written comes
into it.  What a run does to the files is said through a view of them (`FileView`), which tells
the file that a path leads to from the path: the output may be the input under another name.  Of
the disk it is assumed that reading and writing succeed in full or have no effect
(`Disk.IsAtomic`), as they do on the disk of a folder (`folderDisk_isAtomic`).

The kernel is `execute_cases`: a run that makes a text and can write it delivers it, and any other
leaves the files as they were and prints nothing.  For what is asked in two ways it is enough
then to compare what is made: a page and the record of it are made of one conversion
(`Settings.Converts.yields`).  The main statement is `execute_delivers`.
-/
import Wikidown.Proofs.Arguments
import Wikidown.Proofs.JsonResults

namespace Wikidown.CommandLine

set_option autoImplicit false

open Json (JsonText Datum)
open Page (Conversion)

/-! ## Files -/

/-- The bytes that a text is written as. -/
def utf8 (t : Text) : ByteArray := (String.ofList t).toUTF8

/-- A view of files: the file that a path leads to, if it leads to one, and the bytes that a file
holds, if it is there. -/
structure FileView (σ : Type) where
  File : Type
  find? : σ → Text → Option File
  bytes? : σ → File → Option ByteArray

variable {σ : Type}

namespace FileView

variable (view : FileView σ)

/-- The path leads to a file that holds the text. -/
def Holds (files : σ) (path text : Text) : Prop :=
  ∃ file, view.find? files path = some file ∧ view.bytes? files file = some (utf8 text)

/-- The path leads to a file that holds the text now, and every other file holds what it held
before. -/
def Writes (before after : σ) (path text : Text) : Prop :=
  ∃ file, view.find? after path = some file ∧ view.bytes? after file = some (utf8 text) ∧
    ∀ other, other ≠ file → view.bytes? after other = view.bytes? before other

/-- A run that succeeds delivers the text: it prints the text and leaves the files as they were,
or it writes the text to the output and reports that. -/
def Delivers (output? : Option Text) (text : Text) (before : σ) (run : Outcome × σ) : Prop :=
  match output? with
  | none => run = (⟨0, text ++ ['\n'], []⟩, before)
  | some path =>
      run.1 = ⟨0, "Successfully converted to " ++ Text.quoted path ++ ['\n'], []⟩ ∧
        view.Writes before run.2 path text

theorem Delivers.code_eq_zero {view : FileView σ} {output? : Option Text} {text : Text} {before : σ}
    {run : Outcome × σ} (delivers : view.Delivers output? text before run) : run.1.code = 0 := by
  cases output? with
  | none => rw [show run = _ from delivers]
  | some path => rw [delivers.1]

end FileView

/-- Reading changes nothing and gives what the file holds; writing succeeds in full or has no
effect. -/
structure Disk.IsAtomic (disk : Disk (StateM σ)) (view : FileView σ) : Prop where
  read_keeps : ∀ path before, ((disk.read path).run before).2 = before
  read_holds : ∀ {path before text}, ((disk.read path).run before).1 = .ok text →
    view.Holds before path text
  write_keeps : ∀ {path text before reason}, ((disk.write path text).run before).1 = .error reason →
    ((disk.write path text).run before).2 = before
  write_writes : ∀ {path text before}, ((disk.write path text).run before).1 = .ok () →
    view.Writes before ((disk.write path text).run before).2 path text

/-- The files of a folder: a path leads to the file of its last step. -/
def folderView : FileView Dictionary where
  File := Text
  find? _ path := fileName? path
  bytes? files name := (files.get? name).map utf8

theorem folderDisk_read_run (path : Text) (files : Dictionary) :
    (folderDisk.read path).run files =
      (match (fileName? path).bind files.get? with
        | some content => .ok content
        | none => .error [], files) := by
  simp only [folderDisk, StateT.run_bind, StateT.run_get, pure_bind]
  cases (fileName? path).bind files.get? <;> rfl

theorem folderDisk_write_run (path text : Text) (files : Dictionary) :
    (folderDisk.write path text).run files =
      match fileName? path with
      | some name => (.ok (), files.insert name text)
      | none => (.error [], files) := by
  cases found : fileName? path <;> simp only [folderDisk, found] <;> rfl

theorem folderDisk_isAtomic : folderDisk.IsAtomic folderView where
  read_keeps path before := by rw [folderDisk_read_run]
  read_holds {path before text} read := by
    rw [folderDisk_read_run] at read
    cases held : (fileName? path).bind before.get? with
    | none =>
        rw [held] at read
        cases read
    | some content =>
        rw [held] at read
        cases read
        obtain ⟨name, named, inFolder⟩ := Option.bind_eq_some_iff.1 held
        exact ⟨name, named, congrArg (Option.map utf8) inFolder⟩
  write_keeps {path text before reason} failed := by
    rw [folderDisk_write_run] at failed ⊢
    cases named : fileName? path with
    | none => rfl
    | some name => simp [named] at failed
  write_writes {path text before} written := by
    rw [folderDisk_write_run] at written ⊢
    cases named : fileName? path with
    | none => simp [named] at written
    | some name =>
        refine ⟨name, named, ?_, fun other apart => ?_⟩
        · simp [folderView]
        · exact congrArg (Option.map utf8) ((before.get?_insert name text other).trans (if_neg apart))

/-! ## Runs -/

/-- The input can be read, and the text is what the run makes of it. -/
def Settings.Yields (s : Settings) (disk : Disk (StateM σ)) (before : σ) (text : Text) : Prop :=
  ∃ input, ((disk.read s.input).run before).1 = .ok input ∧ s.convert input = .ok text

theorem Settings.Yields.unique {s : Settings} {disk : Disk (StateM σ)} {before : σ}
    {text text' : Text} (made : s.Yields disk before text) (made' : s.Yields disk before text') :
    text = text' := by
  obtain ⟨input, read, eq⟩ := made
  obtain ⟨input', read', eq'⟩ := made'
  obtain rfl := Except.ok.inj (read.symm.trans read')
  exact Except.ok.inj (eq.symm.trans eq')

/-- If there is an output, the text can be written to it.  Without an output nothing is in the way
of any text (`canWrite_of_eq_none`). -/
def Settings.CanWrite (s : Settings) (disk : Disk (StateM σ)) (before : σ) (text : Text) : Prop :=
  ∀ path, s.output? = some path → ((disk.write path text).run before).1 = .ok ()

theorem Settings.canWrite_of_eq_none {s : Settings} (printed : s.output? = none)
    (disk : Disk (StateM σ)) (before : σ) (text : Text) : s.CanWrite disk before text := by
  intro path output
  rw [printed] at output
  cases output

section Runs

variable {disk : Disk (StateM σ)} {view : FileView σ} {arguments : List Text} {s : Settings}

theorem execute_run (asked : Request.ofArguments? arguments = some (.convert s)) (before : σ) :
    (execute disk arguments).run before =
      (.ofResult ((s.run disk).run before).1, ((s.run disk).run before).2) := by
  simp only [execute, asked]
  rfl

theorem deliver_run {path : Text} (output : s.output? = some path) (text : Text) (before : σ) :
    (s.deliver disk text).run before =
      match (disk.write path text).run before with
      | (.ok (), after) =>
          (.ok ("Successfully converted to " ++ Text.quoted path ++ ['\n']), after)
      | (.error reason, after) => (.error (.unwritable reason), after) := by
  simp only [Settings.deliver, output, StateT.run_bind]
  obtain ⟨written | written, after⟩ := (disk.write path text).run before <;> rfl

theorem Settings.run_run (s : Settings) (before : σ) :
    (s.run disk).run before =
      match (disk.read s.input).run before with
      | (.error reason, after) => (.error (.unreadable reason), after)
      | (.ok input, after) =>
          match s.convert input with
          | .error failure => (.error failure, after)
          | .ok text => (s.deliver disk text).run after := by
  simp only [Settings.run, StateT.run_bind]
  obtain ⟨reason | input, after⟩ := (disk.read s.input).run before
  · rfl
  · simp only [bind]
    cases s.convert input <;> rfl

/-- A text is delivered if there is no output or the output can be written; else the run fails
and the files are as they were. -/
theorem deliver_cases (atomic : disk.IsAtomic view) (s : Settings) (text : Text) (before : σ) :
    let run := (s.deliver disk text).run before
    s.CanWrite disk before text ∧ view.Delivers s.output? text before (.ofResult run.1, run.2) ∨
      ¬ s.CanWrite disk before text ∧ ∃ failure, run = (.error failure, before) := by
  cases output : s.output? with
  | none =>
      refine .inl ⟨Settings.canWrite_of_eq_none output disk before text, ?_⟩
      simp only [Settings.deliver, output]
      rfl
  | some path =>
      simp only [deliver_run output, Settings.CanWrite, output]
      cases written : (disk.write path text).run before with
      | mk result after =>
          cases result with
          | ok done =>
              have wrote := atomic.write_writes (congrArg Prod.fst written)
              rw [written] at wrote
              refine .inl ⟨?_, rfl, wrote⟩
              rintro _ ⟨rfl⟩
              exact congrArg Prod.fst written
          | error reason =>
              have kept := atomic.write_keeps (congrArg Prod.fst written)
              rw [written] at kept
              obtain rfl : after = before := kept
              refine .inr ⟨fun can => ?_, _, rfl⟩
              have := can path rfl
              rw [written] at this
              cases this

/-- What a run makes of its input, it delivers; if it makes nothing, it fails and the files are as
they were. -/
theorem run_cases (atomic : disk.IsAtomic view) (s : Settings) (before : σ) :
    (∃ text, s.Yields disk before text ∧
        (s.run disk).run before = (s.deliver disk text).run before) ∨
      (∀ text, ¬ s.Yields disk before text) ∧
        ∃ failure, (s.run disk).run before = (.error failure, before) := by
  have kept := atomic.read_keeps s.input before
  rw [Settings.run_run]
  unfold Settings.Yields
  cases read : (disk.read s.input).run before with
  | mk result after =>
      rw [read] at kept
      obtain rfl : after = before := kept
      cases result with
      | error reason => exact .inr ⟨by simp, _, rfl⟩
      | ok input =>
          cases made : s.convert input with
          | error failure => exact .inr ⟨by simp [made], failure, by simp [made]⟩
          | ok text => exact .inl ⟨text, ⟨input, rfl, made⟩, by simp [made]⟩

/-- A run that makes a text and can write it delivers the text; any other fails, prints nothing to
standard output and leaves the files as they were. -/
theorem execute_cases (atomic : disk.IsAtomic view)
    (asked : Request.ofArguments? arguments = some (.convert s)) (before : σ) :
    (∃ text, s.Yields disk before text ∧ s.CanWrite disk before text ∧
        view.Delivers s.output? text before ((execute disk arguments).run before)) ∨
      (¬ ∃ text, s.Yields disk before text ∧ s.CanWrite disk before text) ∧
        ∃ report, (execute disk arguments).run before = (⟨1, [], report⟩, before) := by
  rw [execute_run asked]
  rcases run_cases atomic s before with ⟨text, made, run⟩ | ⟨nothing, failure, run⟩
  · rw [run]
    rcases deliver_cases atomic s text before with ⟨can, delivers⟩ | ⟨cannot, failure, failed⟩
    · exact .inl ⟨text, made, can, delivers⟩
    · rw [failed]
      refine .inr ⟨?_, _, rfl⟩
      rintro ⟨other, madeToo, can⟩
      exact cannot (made.unique madeToo ▸ can)
  · rw [run]
    exact .inr ⟨fun ⟨text, made, _⟩ => nothing text made, _, rfl⟩

/-- A run succeeds exactly if it makes a text and can write it. -/
theorem execute_code_eq_zero_iff (atomic : disk.IsAtomic view)
    (asked : Request.ofArguments? arguments = some (.convert s)) (before : σ) :
    ((execute disk arguments).run before).1.code = 0 ↔
      ∃ text, s.Yields disk before text ∧ s.CanWrite disk before text := by
  rcases execute_cases atomic asked before with ⟨text, made, can, delivers⟩ | ⟨not, report, run⟩
  · exact iff_of_true delivers.code_eq_zero ⟨text, made, can⟩
  · rw [run]
    exact iff_of_false (show (1 : UInt32) ≠ 0 by decide) not

/-- A run that succeeds delivers what it makes. -/
theorem delivers_of_code_eq_zero (atomic : disk.IsAtomic view)
    (asked : Request.ofArguments? arguments = some (.convert s)) {before : σ} {text : Text}
    (succeeds : ((execute disk arguments).run before).1.code = 0)
    (made : s.Yields disk before text) :
    view.Delivers s.output? text before ((execute disk arguments).run before) := by
  rcases execute_cases atomic asked before with ⟨other, madeToo, -, delivers⟩ | ⟨-, report, run⟩
  · exact made.unique madeToo ▸ delivers
  · rw [run] at succeeds
    cases succeeds

/-! ### What a run makes -/

/-- The conversion of a bundle. -/
def Settings.conversion (s : Settings) (input : Text) : Except Failure Conversion :=
  match Json.readBundle input with
  | .error fault => .error (.json fault)
  | .ok bundle => (Page.convert s.options bundle.page bundle.comments).mapError .record

/-- The input can be read as a bundle that has the conversion. -/
def Settings.Converts (s : Settings) (disk : Disk (StateM σ)) (before : σ) (c : Conversion) : Prop :=
  ∃ input, ((disk.read s.input).run before).1 = .ok input ∧ s.conversion input = .ok c

/-- What is shown of a conversion: the record of it, or its content. -/
def Mode.shown (mode : Mode) (c : Conversion) : Text :=
  if mode = .json then Json.writeConversion c else c.content

theorem convert_bundle (bundle : s.mode ≠ .fragment) (input : Text) :
    s.convert input = (s.conversion input).map s.mode.shown := by
  unfold Settings.convert Settings.conversion
  cases mode : s.mode with
  | fragment => exact absurd mode bundle
  | page | json =>
      cases Json.readBundle input with
      | error fault => rfl
      | ok bundle =>
          dsimp only
          cases Page.convert s.options bundle.page bundle.comments <;> rfl

theorem convert_fragment (fragment : s.mode = .fragment) (input : Text) :
    s.convert input = .ok (Page.fragment s.options.language input) := by
  simp only [Settings.convert, fragment]

theorem language_of_isNamedBy {l : Language} (named : l.IsNamedBy s.languageTag) :
    s.options.language = l := by
  rw [Settings.options, Language.ofTag?_eq_some_iff.2 named, Option.getD_some]

theorem language_of_unnamed (unnamed : ∀ l : Language, ¬ l.IsNamedBy s.languageTag) :
    s.options.language = .english := by
  rw [Settings.options, Language.ofTag?_eq_none_iff.2 unnamed, Option.getD_none]

theorem Settings.Converts.yields (bundle : s.mode ≠ .fragment) {before : σ} {c : Conversion}
    (converts : s.Converts disk before c) : s.Yields disk before (s.mode.shown c) := by
  obtain ⟨input, read, converted⟩ := converts
  refine ⟨input, read, ?_⟩
  rw [convert_bundle bundle, converted]
  rfl

theorem Settings.Yields.converts (bundle : s.mode ≠ .fragment) {before : σ} {text : Text}
    (made : s.Yields disk before text) : ∃ c, s.Converts disk before c := by
  obtain ⟨input, read, shown⟩ := made
  rw [convert_bundle bundle] at shown
  cases converted : s.conversion input with
  | error failure =>
      rw [converted] at shown
      cases shown
  | ok c => exact ⟨c, input, read, converted⟩

/-! ### What is delivered -/

/-- What is written to the output is what is printed without it. -/
theorem exists_printed (atomic : disk.IsAtomic view) {path : Text} {printing : List Text}
    (asked : Request.ofArguments? arguments = some (.convert s)) (output : s.output? = some path)
    (without : Request.ofArguments? printing = some (.convert { s with output? := none }))
    {before : σ} (succeeds : ((execute disk arguments).run before).1.code = 0) :
    ∃ text, (execute disk printing).run before = (⟨0, text ++ ['\n'], []⟩, before) ∧
      view.Writes before ((execute disk arguments).run before).2 path text := by
  obtain ⟨text, made, -⟩ := (execute_code_eq_zero_iff atomic asked before).1 succeeds
  have delivers := delivers_of_code_eq_zero atomic asked succeeds made
  rw [output] at delivers
  -- the output does not come into what is made
  have printed : ((execute disk printing).run before).1.code = 0 :=
    (execute_code_eq_zero_iff atomic without before).2
      ⟨text, made, Settings.canWrite_of_eq_none rfl disk before text⟩
  exact ⟨text, delivers_of_code_eq_zero atomic without printed made, delivers.2⟩

/-- With `--json` the record is delivered of what is delivered without it. -/
theorem exists_record (atomic : disk.IsAtomic view) {plain : List Text}
    (asked : Request.ofArguments? arguments = some (.convert s)) (json : s.mode = .json)
    (without : Request.ofArguments? plain = some (.convert { s with mode := .page })) (before : σ) :
    ((∀ text text', s.CanWrite disk before text → s.CanWrite disk before text') →
      (((execute disk arguments).run before).1.code = 0 ↔
        ((execute disk plain).run before).1.code = 0)) ∧
    (((execute disk arguments).run before).1.code = 0 →
      ((execute disk plain).run before).1.code = 0 →
      ∃ metadata content record,
        JsonText (.record [("metadata", metadata), ("content", .string content)]) record ∧
          view.Delivers s.output? record before ((execute disk arguments).run before) ∧
          view.Delivers s.output? content before ((execute disk plain).run before)) := by
  have bundle : s.mode ≠ .fragment := by
    rw [json]
    decide
  have pageBundle : ({ s with mode := .page } : Settings).mode ≠ .fragment := nofun
  -- the mode does not come into the conversion
  have recordMade {c : Conversion} (converts : s.Converts disk before c) :
      s.Yields disk before (Json.writeConversion c) := by
    have made := converts.yields bundle
    rwa [json] at made
  have contentMade {c : Conversion} (converts : s.Converts disk before c) :
      ({ s with mode := .page } : Settings).Yields disk before c.content :=
    Settings.Converts.yields pageBundle converts
  constructor
  · intro even
    rw [execute_code_eq_zero_iff atomic asked, execute_code_eq_zero_iff atomic without]
    constructor
    · rintro ⟨text, made, can⟩
      obtain ⟨c, converts⟩ := made.converts bundle
      exact ⟨_, contentMade converts, even text _ can⟩
    · rintro ⟨text, made, can⟩
      obtain ⟨c, converts⟩ := made.converts pageBundle
      exact ⟨_, recordMade converts, even text _ can⟩
  · intro succeeds succeedsPlain
    obtain ⟨text, made, -⟩ := (execute_code_eq_zero_iff atomic asked before).1 succeeds
    obtain ⟨c, converts⟩ := made.converts bundle
    exact ⟨_, c.content, Json.writeConversion c, Json.jsonText_writeConversion c,
      delivers_of_code_eq_zero atomic asked succeeds (recordMade converts),
      delivers_of_code_eq_zero atomic without succeedsPlain (contentMade converts)⟩

/-- With `--fragment` the fragment is delivered. -/
theorem exists_fragment (atomic : disk.IsAtomic view)
    (asked : Request.ofArguments? arguments = some (.convert s)) (fragment : s.mode = .fragment)
    (before : σ) :
    (((execute disk arguments).run before).1.code = 0 ↔
      ∃ input, ((disk.read s.input).run before).1 = .ok input ∧
        s.CanWrite disk before (Page.fragment s.options.language input)) ∧
    (((execute disk arguments).run before).1.code = 0 →
      ∃ input, ((disk.read s.input).run before).1 = .ok input ∧ view.Holds before s.input input ∧
        view.Delivers s.output? (Page.fragment s.options.language input) before
          ((execute disk arguments).run before)) := by
  constructor
  · rw [execute_code_eq_zero_iff atomic asked]
    constructor
    · rintro ⟨_, ⟨input, read, made⟩, can⟩
      rw [convert_fragment fragment] at made
      exact ⟨input, read, Except.ok.inj made ▸ can⟩
    · rintro ⟨input, read, can⟩
      exact ⟨_, ⟨input, read, convert_fragment fragment input⟩, can⟩
  · intro succeeds
    obtain ⟨text, ⟨input, read, made⟩, -⟩ :=
      (execute_code_eq_zero_iff atomic asked before).1 succeeds
    have fragmentMade := convert_fragment fragment input
    exact ⟨input, read, atomic.read_holds read,
      delivers_of_code_eq_zero atomic asked succeeds ⟨input, read, fragmentMade⟩⟩

/-- A run that fails prints nothing and leaves the files as they were. -/
theorem kept_of_code_ne_zero (atomic : disk.IsAtomic view)
    (asked : Request.ofArguments? arguments = some (.convert s)) {before : σ}
    (failed : ((execute disk arguments).run before).1.code ≠ 0) :
    ((execute disk arguments).run before).1.output = [] ∧
      ((execute disk arguments).run before).2 = before := by
  rcases execute_cases atomic asked before with ⟨_, -, -, delivers⟩ | ⟨-, report, run⟩
  · exact absurd delivers.code_eq_zero failed
  · rw [run]
    exact ⟨rfl, rfl⟩

/-! ### The main statement -/

/-- **A run delivers, or leaves everything alone.**  Let arguments ask for a conversion.  Its
settings are what the arguments say.  A run that fails changes no file and prints nothing to
standard output.  With an output, a run that succeeds changes no other file, and the output holds
just what the run prints, before a line feed, that is asked without it.  With `--json` the run
succeeds exactly if the run without it does (with an output, if that can be written with one text
as with another), and what it delivers is a record of metadata and of the content, which is what
the run without `--json` delivers.  With `--fragment` a run succeeds exactly if its files can be
read and written, and delivers the fragment in the language that the tag names, or in English if
it names none. -/
theorem execute_delivers (atomic : disk.IsAtomic view)
    (asked : Request.ofArguments? arguments = some (.convert s)) (before : σ) :
    let run (arguments : List Text) := (execute disk arguments).run before
    (∃ items, Reads none arguments items ∧ Asks items s) ∧
      ((run arguments).1.code ≠ 0 →
        (run arguments).1.output = [] ∧ (run arguments).2 = before) ∧
      (∀ path, s.output? = some path →
        (∃ front back, arguments = front ++ path :: back ∧
          Request.ofArguments? (front ++ back) = some (.convert { s with output? := none })) ∧
        ∀ printing, Request.ofArguments? printing = some (.convert { s with output? := none }) →
          (run arguments).1.code = 0 →
            ∃ text, run printing = (⟨0, text ++ ['\n'], []⟩, before) ∧
              view.Writes before (run arguments).2 path text) ∧
      (s.mode = .json →
        (∃ front back, arguments = front ++ "--json".toList :: back ∧
          Request.ofArguments? (front ++ back) = some (.convert { s with mode := .page })) ∧
        ∀ plain, Request.ofArguments? plain = some (.convert { s with mode := .page }) →
          ((∀ text text', s.CanWrite disk before text → s.CanWrite disk before text') →
            ((run arguments).1.code = 0 ↔ (run plain).1.code = 0)) ∧
          ((run arguments).1.code = 0 → (run plain).1.code = 0 →
            ∃ metadata content record,
              JsonText (.record [("metadata", metadata), ("content", .string content)]) record ∧
                view.Delivers s.output? record before (run arguments) ∧
                view.Delivers s.output? content before (run plain))) ∧
      (s.mode = .fragment →
        let language := (Language.ofTag? s.languageTag).getD .english
        (∀ l : Language, l.IsNamedBy s.languageTag → language = l) ∧
        ((∀ l : Language, ¬ l.IsNamedBy s.languageTag) → language = .english) ∧
        ((run arguments).1.code = 0 ↔ ∃ input, ((disk.read s.input).run before).1 = .ok input ∧
          s.CanWrite disk before (Page.fragment language input)) ∧
        ((run arguments).1.code = 0 →
          ∃ input, ((disk.read s.input).run before).1 = .ok input ∧ view.Holds before s.input input ∧
            view.Delivers s.output? (Page.fragment language input) before (run arguments))) := by
  refine ⟨(ofArguments?_eq_convert_iff arguments s).1 asked, kept_of_code_ne_zero atomic asked,
    fun path output => ?_, fun json => ?_, fun fragment => ?_⟩
  · exact ⟨ofArguments?_without_output asked output, fun printing without succeeds =>
      exists_printed atomic asked output without succeeds⟩
  · exact ⟨ofArguments?_without_json asked json, fun plain without =>
      exists_record atomic asked json without before⟩
  · exact ⟨fun l named => language_of_isNamedBy named, fun unnamed => language_of_unnamed unnamed,
      exists_fragment atomic asked fragment before⟩

end Runs

/-- A folder with a bundle in it, and with markup that has a table. -/
def sampleFolder : Dictionary :=
  .ofList [("in", "\x7b\"page\":\x7b\"id\":\"7\",\"title\":\"T\"\x7d\x7d"),
    ("markup", "<p>a</p><table><tr/></table>")]

/-- A record in Chinese that goes to the file that the bundle is read from. -/
def sampleArguments : List Text := ["in", "--json", "./in", "--lang", "zh-CN"]

def sampleSettings : Settings := ⟨"in", some "./in", .json, "", "zh-CN", true⟩

/-- A fragment in Chinese. -/
def fragmentArguments : List Text := ["--fragment", "markup", "--lang=ZH_tw"]

def fragmentSettings : Settings := ⟨"markup", none, .fragment, "", "ZH_tw", true⟩

/-- A bundle is read where there is none. -/
def mistakenArguments : List Text := ["--no-comments", "markup", "in"]

def mistakenSettings : Settings := ⟨"markup", some "in", .page, "", "en", false⟩

/-- The bundle is overwritten by what would have been printed, and nothing else is written; a
fragment is printed with its notice in the language that the tag names; and a run that cannot read
a bundle leaves its output as it was. -/
theorem execute_delivers_over_input :
    let run (arguments : List Text) := (execute folderDisk arguments).run sampleFolder
    folderDisk.IsAtomic folderView ∧
      (Request.ofArguments? sampleArguments = some (.convert sampleSettings) ∧
        (run sampleArguments).1.code = 0 ∧
        (∃ text, run ["in", "--json", "--lang", "zh-CN"]
            = (⟨0, text ++ ['\n'], []⟩, sampleFolder) ∧
          folderView.Writes sampleFolder (run sampleArguments).2 "./in" text) ∧
        ∃ metadata content record,
          JsonText (.record [("metadata", metadata), ("content", .string content)]) record ∧
            folderView.Delivers (some "./in") record sampleFolder (run sampleArguments) ∧
            folderView.Delivers (some "./in") content sampleFolder
              (run ["in", "./in", "--lang", "zh-CN"])) ∧
      (Request.ofArguments? fragmentArguments = some (.convert fragmentSettings) ∧
        (run fragmentArguments).1.output = "a\n\n*[表格内容：需要手动格式化]*\n".toList ∧
        ∃ input, ((folderDisk.read "markup").run sampleFolder).1 = .ok input ∧
          folderView.Holds sampleFolder "markup" input ∧
          folderView.Delivers none (Page.fragment .chinese input) sampleFolder
            (run fragmentArguments)) ∧
      Request.ofArguments? mistakenArguments = some (.convert mistakenSettings) ∧
        (run mistakenArguments).1.code ≠ 0 ∧ (run mistakenArguments).1.output = [] ∧
        (run mistakenArguments).2 = sampleFolder := by
  have asked : Request.ofArguments? sampleArguments = some (.convert sampleSettings) := by decide
  have askedFragment :
      Request.ofArguments? fragmentArguments = some (.convert fragmentSettings) := by decide
  have askedMistaken :
      Request.ofArguments? mistakenArguments = some (.convert mistakenSettings) := by decide
  have succeeds : ((execute folderDisk sampleArguments).run sampleFolder).1.code = 0 := by
    decide +kernel
  have succeedsPlain :
      ((execute folderDisk ["in", "./in", "--lang", "zh-CN"]).run sampleFolder).1.code = 0 := by
    decide +kernel
  have succeedsFragment :
      ((execute folderDisk fragmentArguments).run sampleFolder).1.code = 0 := by
    decide +kernel
  have fails : ((execute folderDisk mistakenArguments).run sampleFolder).1.code ≠ 0 := by
    decide +kernel
  have named : Language.IsNamedBy .chinese fragmentSettings.languageTag :=
    ⟨"ZH", "_tw", rfl, rfl, by simp⟩
  obtain ⟨-, -, output, json, -⟩ := execute_delivers folderDisk_isAtomic asked sampleFolder
  obtain ⟨-, -, -, -, fragment⟩ := execute_delivers folderDisk_isAtomic askedFragment sampleFolder
  obtain ⟨-, kept, -⟩ := execute_delivers folderDisk_isAtomic askedMistaken sampleFolder
  obtain ⟨chosen, -, -, delivers⟩ := fragment rfl
  have printed := delivers succeedsFragment
  rw [chosen .chinese named] at printed
  exact ⟨folderDisk_isAtomic,
    ⟨asked, succeeds, (output "./in" rfl).2 _ (by decide) succeeds,
      ((json rfl).2 _ (by decide)).2 succeeds succeedsPlain⟩,
    ⟨askedFragment, by decide +kernel, printed⟩, askedMistaken, fails, kept fails⟩

end Wikidown.CommandLine
