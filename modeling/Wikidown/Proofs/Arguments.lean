/-
# Wikidown.Proofs.Arguments -- what arguments ask for

Arguments say one thing after another: the name of a file, an option that is on, or an option with
its value (`Reads`).  What they say together is what the settings of a run are taken from
(`Asks`): the first file is the input and the second the output, nothing is said twice, and what
is not said is as it is by default.  The reader collects what was said so far and refuses what
cannot be said any more, so what it has collected is the view of what was said
(`foldlM_take?_eq_some_iff`, by induction from the back), and it finds settings exactly where
arguments ask for them (`ofArguments?_eq_convert_iff`).

From this it is read off that arguments without the output, or without `--json`, ask for the same
otherwise: what is said by one argument can be left out of the arguments (`Reads.without_item`).
-/
import Wikidown.CommandLine
import Mathlib.Data.List.Induction

namespace Wikidown.CommandLine

set_option autoImplicit false

/-! ## What is said -/

/-- One thing that arguments say. -/
inductive Item where
  | file (path : Text)
  | switch (switch : Switch)
  | value (setting : Setting) (value : Text)
  deriving DecidableEq

/-- What an argument says by itself, where options are allowed. -/
def Argument.item? : Argument → Option Item
  | operand path => some (.file path)
  | switch s => some (.switch s)
  | assigned named v => some (.value named v)
  | _ => none

/-- The arguments say the items one after another; if an option waits for its value, it is the
first argument. -/
inductive Reads : Option Setting → List Text → List Item → Prop where
  | done : Reads none [] []
  | item {t : Text} {item : Item} {rest : List Text} {items : List Item}
      (single : (Argument.ofText t).item? = some item) (later : Reads none rest items) :
      Reads none (t :: rest) (item :: items)
  | setting {t : Text} {s : Setting} {rest : List Text} {items : List Item}
      (named : Argument.ofText t = .setting s) (later : Reads (some s) rest items) :
      Reads none (t :: rest) items
  | value {t value : Text} {s : Setting} {rest : List Text} {items : List Item}
      (plain : Argument.ofText t = .operand value) (later : Reads none rest items) :
      Reads (some s) (t :: rest) (.value s value :: items)
  | files {t : Text} {rest : List Text} (ends : Argument.ofText t = .endOfOptions) :
      Reads none (t :: rest) (rest.map .file)

namespace Item

/-- The files that are named, in order. -/
def files (items : List Item) : List Text :=
  items.filterMap fun
    | .file path => some path
    | _ => none

/-- The options that are on. -/
def switches (items : List Item) : List Switch :=
  items.filterMap fun
    | .switch s => some s
    | _ => none

/-- The values that an option is given. -/
def values (setting : Setting) (items : List Item) : List Text :=
  items.filterMap fun
    | .value s v => if s = setting then some v else none
    | _ => none

variable (items : List Item) (path value : Text) (s : Switch) (setting other : Setting)

@[simp] theorem files_append (later : List Item) :
    files (items ++ later) = files items ++ files later := List.filterMap_append

@[simp] theorem switches_append (later : List Item) :
    switches (items ++ later) = switches items ++ switches later := List.filterMap_append

@[simp] theorem values_append (later : List Item) :
    values setting (items ++ later) = values setting items ++ values setting later :=
  List.filterMap_append

@[simp] theorem files_nil : files [] = [] := rfl
@[simp] theorem files_file : files (.file path :: items) = path :: files items := rfl
@[simp] theorem files_switch : files (.switch s :: items) = files items := rfl
@[simp] theorem files_value : files (.value setting value :: items) = files items := rfl

@[simp] theorem switches_nil : switches [] = [] := rfl
@[simp] theorem switches_file : switches (.file path :: items) = switches items := rfl
@[simp] theorem switches_switch : switches (.switch s :: items) = s :: switches items := rfl
@[simp] theorem switches_value : switches (.value setting value :: items) = switches items := rfl

@[simp] theorem values_nil : values setting [] = [] := rfl
@[simp] theorem values_file : values setting (.file path :: items) = values setting items := rfl
@[simp] theorem values_switch : values setting (.switch s :: items) = values setting items := rfl

@[simp] theorem values_value : values setting (.value other value :: items) =
    if other = setting then value :: values setting items else values setting items := by
  by_cases same : other = setting <;> simp [values, same]

end Item

/-- Nothing is said that cannot be said: there are at most two files, each has a name, and no
option is given twice. -/
structure Proper (items : List Item) : Prop where
  named : ∀ path ∈ Item.files items, path ≠ []
  few : (Item.files items).length ≤ 2
  switchedOnce : (Item.switches items).Nodup
  givenOnce : ∀ setting, (Item.values setting items).length ≤ 1

/-- What is said asks for the settings. -/
structure Asks (items : List Item) (s : Settings) : Prop extends Proper items where
  files : Item.files items = s.input :: s.output?.toList
  fragment : .fragment ∈ Item.switches items ↔ s.mode = .fragment
  json : .json ∈ Item.switches items ↔ s.mode = .json
  comments : .noComments ∈ Item.switches items ↔ s.includeComments = false
  baseUrl : s.baseUrl = (Item.values .baseUrl items).headD []
  language : s.languageTag = (Item.values .language items).headD "en"

/-! ## What is collected -/

namespace Collected

/-- With one more item, if it can be said. -/
def take? (c : Collected) : Item → Option Collected
  | .file path => c.addOperand? path
  | .switch s => c.addSwitch? s
  | .value setting value => c.assign? setting value

/-- What is collected of items. -/
def ofItems (items : List Item) : Collected where
  operands := Item.files items
  switches := (Item.switches items).reverse
  baseUrl? := (Item.values .baseUrl items).head?
  languageTag? := (Item.values .language items).head?

end Collected

namespace Proper

variable {items : List Item}

theorem nil : Proper [] := ⟨by simp, by simp, by simp, by simp⟩

theorem append_file {path : Text} : Proper (items ++ [.file path]) ↔
    Proper items ∧ ¬ (path.isEmpty ∨ 2 ≤ (Item.files items).length) := by
  have files : Item.files (items ++ [.file path]) = Item.files items ++ [path] := by simp
  have switches : Item.switches (items ++ [.file path]) = Item.switches items := by simp
  have values (setting : Setting) :
      Item.values setting (items ++ [.file path]) = Item.values setting items := by simp
  have allNamed : (∀ p ∈ Item.files items ++ [path], p ≠ []) ↔
      (∀ p ∈ Item.files items, p ≠ []) ∧ ¬ path.isEmpty := by simp [or_imp, forall_and]
  have room : (Item.files items ++ [path]).length ≤ 2 ↔ ¬ 2 ≤ (Item.files items).length := by
    rw [List.length_append, List.length_singleton]
    omega
  constructor
  · intro h
    obtain ⟨named, new⟩ := allNamed.1 (files ▸ h.named)
    have few := room.1 (files ▸ h.few)
    exact ⟨⟨named, by omega, switches ▸ h.switchedOnce, fun s => values s ▸ h.givenOnce s⟩,
      not_or.2 ⟨new, few⟩⟩
  · rintro ⟨h, new⟩
    obtain ⟨new, few⟩ := not_or.1 new
    exact ⟨files ▸ allNamed.2 ⟨h.named, new⟩, files ▸ room.2 few, switches ▸ h.switchedOnce,
      fun s => values s ▸ h.givenOnce s⟩

theorem append_switch {s : Switch} : Proper (items ++ [.switch s]) ↔
    Proper items ∧ s ∉ Item.switches items := by
  have files : Item.files (items ++ [.switch s]) = Item.files items := by simp
  have switches : Item.switches (items ++ [.switch s]) = Item.switches items ++ [s] := by simp
  have values (setting : Setting) :
      Item.values setting (items ++ [.switch s]) = Item.values setting items := by simp
  have once : (Item.switches items ++ [s]).Nodup ↔
      (Item.switches items).Nodup ∧ s ∉ Item.switches items := by
    rw [List.perm_append_comm.nodup_iff, List.singleton_append, List.nodup_cons, and_comm]
  constructor
  · intro h
    obtain ⟨switchedOnce, new⟩ := once.1 (switches ▸ h.switchedOnce)
    exact ⟨⟨files ▸ h.named, files ▸ h.few, switchedOnce, fun s => values s ▸ h.givenOnce s⟩, new⟩
  · rintro ⟨h, new⟩
    exact ⟨files ▸ h.named, files ▸ h.few, switches ▸ once.2 ⟨h.switchedOnce, new⟩,
      fun s => values s ▸ h.givenOnce s⟩

theorem append_value {setting : Setting} {value : Text} :
    Proper (items ++ [.value setting value]) ↔ Proper items ∧ Item.values setting items = [] := by
  have files : Item.files (items ++ [.value setting value]) = Item.files items := by simp
  have switches : Item.switches (items ++ [.value setting value]) = Item.switches items := by simp
  have values (other : Setting) : Item.values other (items ++ [.value setting value])
      = Item.values other items ++ if setting = other then [value] else [] := by simp
  constructor
  · intro h
    have given (other : Setting) := h.givenOnce other
    simp only [values, List.length_append] at given
    have new := given setting
    rw [if_pos rfl, List.length_singleton] at new
    exact ⟨⟨files ▸ h.named, files ▸ h.few, switches ▸ h.switchedOnce, fun other => by
      have := given other
      omega⟩, List.length_eq_zero_iff.1 (by omega)⟩
  · rintro ⟨h, new⟩
    refine ⟨files ▸ h.named, files ▸ h.few, switches ▸ h.switchedOnce, fun other => ?_⟩
    rw [values]
    by_cases same : setting = other
    · subst same
      simp [new]
    · simpa [same] using h.givenOnce other

/-- What is said before something can be said without it. -/
theorem of_append_one {item : Item} (h : Proper (items ++ [item])) : Proper items := by
  cases item with
  | file path => exact (append_file.1 h).1
  | switch s => exact (append_switch.1 h).1
  | value setting value => exact (append_value.1 h).1

end Proper

namespace Collected

/-- One item: it is taken exactly if it can still be said. -/
theorem take?_ofItems {items : List Item} (proper : Proper items) (item : Item) (c : Collected) :
    (ofItems items).take? item = some c ↔
      Proper (items ++ [item]) ∧ c = ofItems (items ++ [item]) := by
  cases item with
  | file path =>
      have next : ofItems (items ++ [.file path])
          = { ofItems items with operands := Item.files items ++ [path] } := by simp [ofItems]
      rw [Proper.append_file, next]
      show (if path.isEmpty ∨ 2 ≤ (Item.files items).length then none else _) = some c ↔ _
      split
      · next refused => exact iff_of_false nofun fun said => said.1.2 refused
      · next allowed => rw [Option.some.injEq, and_iff_right ⟨proper, allowed⟩, eq_comm]; rfl
  | switch s =>
      have next : ofItems (items ++ [.switch s])
          = { ofItems items with switches := s :: (Item.switches items).reverse } := by
        simp [ofItems]
      rw [Proper.append_switch, next]
      show (if s ∈ (Item.switches items).reverse then none else _) = some c ↔ _
      simp only [List.mem_reverse]
      split
      · next twice => exact iff_of_false nofun fun said => said.1.2 twice
      · next first => rw [Option.some.injEq, and_iff_right ⟨proper, first⟩, eq_comm]; rfl
  | value setting value =>
      rw [Proper.append_value]
      cases given : Item.values setting items with
      | nil => cases setting <;> simp [take?, assign?, ofItems, given, proper, eq_comm]
      | cons v vs => cases setting <;> simp [take?, assign?, ofItems, given]

/-- All items, by induction from the back: they are taken exactly if they can be said together. -/
theorem foldlM_take?_eq_some_iff (items : List Item) (c : Collected) :
    items.foldlM take? {} = some c ↔ Proper items ∧ c = ofItems items := by
  induction items using List.reverseRecOn generalizing c with
  | nil => simp [Proper.nil, ofItems, eq_comm]
  | append_singleton items item ih =>
      rw [List.foldlM_append]
      simp only [List.foldlM_cons, List.foldlM_nil, bind_pure, Option.bind_eq_bind,
        Option.bind_eq_some_iff, ih]
      constructor
      · rintro ⟨_, ⟨proper, rfl⟩, taken⟩
        exact (take?_ofItems proper item c).1 taken
      · rintro ⟨proper, rfl⟩
        have before := proper.of_append_one
        exact ⟨_, ⟨before, rfl⟩, (take?_ofItems before item _).2 ⟨proper, rfl⟩⟩

end Collected

/-! ## What is asked -/

/-- Behind the end of the options an argument is a file. -/
theorem Collected.readOperands?_eq (c : Collected) (paths : List Text) :
    c.readOperands? paths = ((paths.map Item.file).foldlM take? c).bind request? := by
  induction paths generalizing c with
  | nil => rfl
  | cons path rest ih =>
      rw [readOperands?, List.map_cons, List.foldlM_cons, Option.bind_eq_bind, Option.bind_assoc]
      exact Option.bind_congr fun c _ => ih c

/-- An argument that says something by itself is read as that. -/
theorem Collected.read?_item {t : Text} {item : Item}
    (single : (Argument.ofText t).item? = some item) (c : Collected) (rest : List Text) :
    c.read? none (t :: rest) = (c.take? item).bind fun c => c.read? none rest := by
  cases meaning : Argument.ofText t <;> rw [meaning] at single <;> cases single
  all_goals
    simp only [read?, meaning]
    rfl

/-- What the reader makes of arguments is what it makes of the items that they say. -/
theorem Collected.read?_eq {pending : Option Setting} {arguments : List Text} {items : List Item}
    (said : Reads pending arguments items) (c : Collected) :
    c.read? pending arguments = (items.foldlM take? c).bind request? := by
  induction said generalizing c with
  | done => rfl
  | item single _ ih =>
      rw [read?_item single, List.foldlM_cons, Option.bind_eq_bind, Option.bind_assoc]
      exact Option.bind_congr fun c _ => ih c
  | setting named _ ih =>
      simp only [read?, named]
      exact ih c
  | value plain _ ih =>
      simp only [read?, plain, List.foldlM_cons, Option.bind_eq_bind, Option.bind_assoc]
      exact Option.bind_congr fun c _ => ih c
  | files ends =>
      simp only [read?, ends]
      exact c.readOperands?_eq _

/-- Arguments that ask for a conversion say something. -/
theorem Reads.exists_of_read? {c : Collected} {pending : Option Setting} {arguments : List Text}
    {s : Settings} (asked : c.read? pending arguments = some (.convert s)) :
    ∃ items, Reads pending arguments items := by
  induction arguments generalizing c pending with
  | nil =>
      cases pending with
      | none => exact ⟨_, .done⟩
      | some setting => cases asked
  | cons t rest ih =>
      have after {c? : Option Collected}
          (asked : (c?.bind fun c => c.read? none rest) = some (.convert s)) :
          ∃ items, Reads none rest items := by
        obtain ⟨c, -, later⟩ := Option.bind_eq_some_iff.1 asked
        exact ih later
      cases pending with
      | some setting =>
          cases meaning : Argument.ofText t <;> simp only [Collected.read?, meaning] at asked
          case operand value => exact (after asked).imp' _ fun _ => .value meaning
          all_goals cases asked
      | none =>
          cases single : (Argument.ofText t).item? with
          | some item =>
              rw [Collected.read?_item single] at asked
              exact (after asked).imp' _ fun _ => .item single
          | none =>
              cases meaning : Argument.ofText t <;> simp only [Collected.read?, meaning] at asked
              case setting setting => exact (ih asked).imp fun _ => .setting meaning
              case endOfOptions => exact ⟨_, .files meaning⟩
              case operand | switch | assigned => simp [meaning, Argument.item?] at single
              all_goals simp at asked

/-- Items that can be said ask for the settings that are taken from their view. -/
theorem asks_iff (items : List Item) (s : Settings) :
    Asks items s ↔
      Proper items ∧ (Collected.ofItems items).request? = some (.convert s) := by
  constructor
  · rintro ⟨proper, files, fragment, json, comments, baseUrl, language⟩
    refine ⟨proper, ?_⟩
    obtain ⟨input, output?, mode, address, tag, includeComments⟩ := s
    simp only at files fragment json comments baseUrl language
    cases mode <;> cases includeComments <;>
      simp_all [Collected.request?, Collected.ofItems]
  · rintro ⟨proper, found⟩
    cases files : Item.files items with
    | nil => simp [Collected.request?, Collected.ofItems, files] at found
    | cons input rest =>
        have few := proper.few
        rw [files, List.length_cons, Nat.add_le_add_iff_right] at few
        have output : rest.head?.toList = rest := by
          match rest, few with
          | [], _ => rfl
          | [_], _ => rfl
        by_cases fragment : .fragment ∈ Item.switches items <;>
          by_cases json : .json ∈ Item.switches items <;>
            simp [Collected.request?, Collected.ofItems, files, fragment, json] at found
        all_goals
          subst found
          exact ⟨proper, by simp [files, output], by simp [fragment], by simp [json], by simp,
            by simp, by simp⟩

/-- **The arguments of a conversion.**  A conversion with the settings is found exactly if the
arguments say what asks for them. -/
theorem ofArguments?_eq_convert_iff (arguments : List Text) (s : Settings) :
    Request.ofArguments? arguments = some (.convert s) ↔
      ∃ items, Reads none arguments items ∧ Asks items s := by
  simp only [asks_iff]
  constructor
  · intro asked
    obtain ⟨items, said⟩ := Reads.exists_of_read? asked
    rw [Request.ofArguments?, Collected.read?_eq said] at asked
    obtain ⟨c, taken, found⟩ := Option.bind_eq_some_iff.1 asked
    obtain ⟨proper, rfl⟩ := (Collected.foldlM_take?_eq_some_iff items c).1 taken
    exact ⟨items, said, proper, found⟩
  · rintro ⟨items, said, proper, found⟩
    have taken := (Collected.foldlM_take?_eq_some_iff items _).2 ⟨proper, rfl⟩
    rw [Request.ofArguments?, Collected.read?_eq said, taken]
    exact found

/-! ## Arguments that differ in one place -/

theorem Argument.ofLong_ne_operand (t path : Text) : Argument.ofLong t ≠ .operand path := by
  intro plain
  unfold Argument.ofLong at plain
  split at plain
  · split at plain <;> cases plain
  · split at plain
    case h_6 => split at plain <;> cases plain
    all_goals cases plain

/-- An argument that is no option stands for itself. -/
theorem Argument.eq_of_operand {t path : Text} (plain : Argument.ofText t = .operand path) :
    path = t := by
  unfold Argument.ofText at plain
  split at plain
  case h_2 => exact absurd plain (Argument.ofLong_ne_operand _ _)
  all_goals simp_all

/-- An argument that switches JSON on has one spelling. -/
theorem Argument.eq_of_json {t : Text} (named : Argument.ofText t = .switch .json) :
    t = "--json".toList := by
  unfold Argument.ofText at named
  split at named
  case h_2 long _ =>
    unfold Argument.ofLong at named
    split at named
    · split at named <;> cases named
    · split at named
      case h_2 same =>
        have letters : long = "json".toList := by rw [← same, String.toList_ofList]
        rw [letters]
        rfl
      case h_6 => split at named <;> cases named
      all_goals cases named
  all_goals cases named

/-- What is said by a single argument, a file or a switch, stands in one place, and without it the
arguments say the rest. -/
theorem Reads.without_item {pending : Option Setting} {arguments : List Text}
    {items before after : List Item} {item : Item} (said : Reads pending arguments items)
    (alone : ∀ setting value, item ≠ .value setting value)
    (split : items = before ++ item :: after) :
    ∃ front t back, arguments = front ++ t :: back ∧
      ((Argument.ofText t).item? = some item ∨ item = .file t) ∧
      Reads pending (front ++ back) (before ++ after) := by
  induction said generalizing before with
  | done => simp at split
  | @item t first rest items here later ih =>
      obtain ⟨rfl, same⟩ | ⟨before, rfl, tail⟩ := List.cons_eq_append_iff.1 split
      · obtain ⟨rfl, rfl⟩ := List.cons.inj same
        exact ⟨[], t, rest, rfl, .inl here, later⟩
      · obtain ⟨front, u, back, rfl, names, shorter⟩ := ih tail
        exact ⟨t :: front, u, back, rfl, names, .item here shorter⟩
  | setting named _ ih =>
      obtain ⟨front, u, back, rfl, names, shorter⟩ := ih split
      exact ⟨_ :: front, u, back, rfl, names, .setting named shorter⟩
  | value plain _ ih =>
      obtain ⟨-, same⟩ | ⟨before, rfl, tail⟩ := List.cons_eq_append_iff.1 split
      · exact absurd (List.cons.inj same).1 (alone _ _)
      · obtain ⟨front, u, back, rfl, names, shorter⟩ := ih tail
        exact ⟨_ :: front, u, back, rfl, names, .value plain shorter⟩
  | @files t rest ends =>
      obtain ⟨front, later, rfl, rfl, named⟩ := List.map_eq_append_iff.1 split
      obtain ⟨path, back, rfl, rfl, rfl⟩ := List.map_eq_cons_iff.1 named
      refine ⟨t :: front, path, back, rfl, .inr rfl, ?_⟩
      rw [← List.map_append]
      exact .files ends

/-- What names a file stands in one place. -/
theorem Item.exists_file {items : List Item} {path : Text} {front back : List Text}
    (named : files items = front ++ path :: back) :
    ∃ before after, items = before ++ .file path :: after ∧
      files before = front ∧ files after = back := by
  obtain ⟨before, tail, rfl, first, rest⟩ := List.filterMap_eq_append_iff.1 named
  obtain ⟨skipped, item, after, rfl, silent, isFile, last⟩ := List.filterMap_eq_cons_iff.1 rest
  refine ⟨before ++ skipped, after, ?_, ?_, last⟩
  · cases item <;> simp at isFile
    rw [isFile, List.append_assoc]
  · rw [files_append, show files skipped = [] from List.filterMap_eq_nil_iff.2 silent,
      List.append_nil]
    exact first

/-- What switches an option on stands in one place. -/
theorem Item.exists_switch {items : List Item} {s : Switch} (on : s ∈ switches items) :
    ∃ before after, items = before ++ .switch s :: after := by
  obtain ⟨item, mem, isSwitch⟩ := List.mem_filterMap.1 on
  cases item <;> simp at isSwitch
  exact isSwitch ▸ List.append_of_mem mem

/-- Without the output, the same is asked without an output. -/
theorem Asks.without_output {before after : List Item} {s : Settings} {path : Text}
    (asks : Asks (before ++ .file path :: after) s) (input : Item.files before = [s.input])
    (last : Item.files after = []) : Asks (before ++ after) { s with output? := none } := by
  have files : Item.files (before ++ after) = [s.input] := by simp [input, last]
  have switches : Item.switches (before ++ .file path :: after)
      = Item.switches (before ++ after) := by simp
  have values (setting : Setting) : Item.values setting (before ++ .file path :: after)
      = Item.values setting (before ++ after) := by simp
  have inputNamed : s.input ≠ [] := asks.named s.input (by simp [asks.files])
  exact
    { named := by simpa [files] using inputNamed
      few := by simp [files]
      switchedOnce := switches ▸ asks.switchedOnce
      givenOnce := fun setting => values setting ▸ asks.givenOnce setting
      files := files
      fragment := switches ▸ asks.fragment
      json := switches ▸ asks.json
      comments := switches ▸ asks.comments
      baseUrl := values .baseUrl ▸ asks.baseUrl
      language := values .language ▸ asks.language }

/-- Without `--json`, what asks for the record of a page asks for the page. -/
theorem Asks.without_json {before after : List Item} {s : Settings}
    (asks : Asks (before ++ .switch .json :: after) s) :
    Asks (before ++ after) { s with mode := .page } := by
  have files : Item.files (before ++ .switch .json :: after) = Item.files (before ++ after) := by simp
  have values (setting : Setting) : Item.values setting (before ++ .switch .json :: after)
      = Item.values setting (before ++ after) := by simp
  have mode : s.mode = .json := asks.json.1 (by simp)
  have switches : Item.switches (before ++ .switch .json :: after)
      = Item.switches before ++ .json :: Item.switches after := by simp
  have once : (.json :: Item.switches (before ++ after)).Nodup := by
    rw [Item.switches_append]
    exact List.perm_middle.nodup_iff.1 (switches ▸ asks.switchedOnce)
  have among {other : Switch} (apart : other ≠ .json) : other ∈ Item.switches (before ++ after) ↔
      other ∈ Item.switches (before ++ .switch .json :: after) := by simp [apart]
  have noFragment : .fragment ∉ Item.switches (before ++ after) := by
    rw [among (by decide), asks.fragment, mode]
    decide
  exact
    { named := files ▸ asks.named
      few := files ▸ asks.few
      switchedOnce := (List.nodup_cons.1 once).2
      givenOnce := fun setting => values setting ▸ asks.givenOnce setting
      files := files ▸ asks.files
      fragment := iff_of_false noFragment nofun
      json := iff_of_false (List.nodup_cons.1 once).1 nofun
      comments := (among (by decide)).trans asks.comments
      baseUrl := values .baseUrl ▸ asks.baseUrl
      language := values .language ▸ asks.language }

/-- Without the name of the output, arguments ask for the same without an output. -/
theorem ofArguments?_without_output {arguments : List Text} {s : Settings} {path : Text}
    (asked : Request.ofArguments? arguments = some (.convert s)) (output : s.output? = some path) :
    ∃ front back, arguments = front ++ path :: back ∧
      Request.ofArguments? (front ++ back) = some (.convert { s with output? := none }) := by
  obtain ⟨items, said, asks⟩ := (ofArguments?_eq_convert_iff arguments s).1 asked
  have named : Item.files items = [s.input] ++ path :: [] := by rw [asks.files, output]; rfl
  obtain ⟨before, after, rfl, input, last⟩ := Item.exists_file named
  obtain ⟨front, t, back, rfl, names, shorter⟩ := said.without_item (by simp) rfl
  obtain rfl : path = t := by
    rcases names with names | same
    · cases meaning : Argument.ofText t <;> rw [meaning] at names <;> cases names
      exact Argument.eq_of_operand meaning
    · exact Item.file.inj same
  exact ⟨front, back, rfl,
    (ofArguments?_eq_convert_iff _ _).2 ⟨_, shorter, asks.without_output input last⟩⟩

/-- Without `--json`, arguments that ask for the record of a page ask for the page. -/
theorem ofArguments?_without_json {arguments : List Text} {s : Settings}
    (asked : Request.ofArguments? arguments = some (.convert s)) (record : s.mode = .json) :
    ∃ front back, arguments = front ++ "--json".toList :: back ∧
      Request.ofArguments? (front ++ back) = some (.convert { s with mode := .page }) := by
  obtain ⟨items, said, asks⟩ := (ofArguments?_eq_convert_iff arguments s).1 asked
  obtain ⟨before, after, rfl⟩ := Item.exists_switch (asks.json.2 record)
  obtain ⟨front, t, back, rfl, names, shorter⟩ := said.without_item (by simp) rfl
  obtain rfl : t = "--json".toList := by
    rcases names with names | same
    · cases meaning : Argument.ofText t <;> rw [meaning] at names <;> cases names
      exact Argument.eq_of_json meaning
    · cases same
  exact ⟨front, back, rfl, (ofArguments?_eq_convert_iff _ _).2 ⟨_, shorter, asks.without_json⟩⟩

end Wikidown.CommandLine
