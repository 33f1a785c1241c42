/-
# Wikidown.CommandLine -- running from the command line

`Request.ofArguments?` reads the arguments of a run, and `Settings.run` is the run: it
reads the input, converts it, and writes the result to a file or to standard output.
Everything is read and converted before anything is written, so a run that fails leaves
the files as they were.  `execute` is the whole program, from its arguments to its exit code.

A run needs nothing of the world but a way to read and to write a file, which is a
`Disk`; `folderDisk` is the disk of a single folder of files.
-/
import Wikidown.Json.Bundle
import Wikidown.Json.Value
import Wikidown.Page.Conversion

namespace Wikidown.CommandLine

set_option autoImplicit false

open Page (Options RecordError)

/-! ## Arguments -/

/-- What a run makes of its input. -/
inductive Mode where
  /-- The input is a bundle and the output its Markdown. -/
  | page
  /-- The input is a bundle and the output a JSON record of Markdown and metadata. -/
  | json
  /-- The input is a piece of storage markup and the output its Markdown. -/
  | fragment
  deriving DecidableEq

/-- The settings of a run. -/
structure Settings where
  input : Text
  output? : Option Text
  mode : Mode
  baseUrl : Text
  languageTag : Text
  includeComments : Bool
  deriving DecidableEq

/-- What a user asks for. -/
inductive Request where
  | help
  | version
  | convert (settings : Settings)
  deriving DecidableEq

/-- An option that is on or off. -/
inductive Switch where
  | fragment
  | json
  | noComments
  deriving DecidableEq

/-- An option with a value. -/
inductive Setting where
  | baseUrl
  | language
  deriving DecidableEq

/-- What an argument stands for where options are allowed. -/
inductive Argument where
  /-- The name of a file. -/
  | operand (path : Text)
  | switch (switch : Switch)
  /-- An option whose value is the next argument. -/
  | setting (setting : Setting)
  /-- An option with its value. -/
  | assigned (setting : Setting) (value : Text)
  /-- The end of the options. -/
  | endOfOptions
  | help
  | version
  /-- No option that there is. -/
  | unknown
  deriving DecidableEq

/-- The option with a value that a name stands for. -/
def Setting.ofName? (name : Text) : Option Setting :=
  match String.ofList name with
  | "base-url" => some .baseUrl
  | "lang" => some .language
  | _ => none

/-- An option by its long name, with the value behind its equals sign, if it has one. -/
def Argument.ofLong (t : Text) : Argument :=
  match Text.cut? ['='] t with
  | some (name, value) =>
      match Setting.ofName? name with
      | some named => .assigned named value
      | none => .unknown
  | none =>
      match String.ofList t with
      | "fragment" => .switch .fragment
      | "json" => .switch .json
      | "no-comments" => .switch .noComments
      | "version" => .version
      | "help" => .help
      | _ =>
          match Setting.ofName? t with
          | some named => .setting named
          | none => .unknown

/-- What an argument stands for where options are allowed.  A hyphen alone is the name of
a file. -/
def Argument.ofText (t : Text) : Argument :=
  match t with
  | ['-', '-'] => .endOfOptions
  | '-' :: '-' :: long => .ofLong long
  | '-' :: 'V' :: _ => .version
  | '-' :: 'h' :: _ => .help
  | '-' :: _ :: _ => .unknown
  | _ => .operand t

/-- The arguments that are read so far. -/
structure Collected where
  operands : List Text := []
  switches : List Switch := []
  baseUrl? : Option Text := none
  languageTag? : Option Text := none

namespace Collected

/-- With one more file; there are at most two, and each has a name. -/
def addOperand? (c : Collected) (path : Text) : Option Collected :=
  if path.isEmpty ∨ 2 ≤ c.operands.length then none
  else some { c with operands := c.operands ++ [path] }

/-- With one more switch, which may not be given twice. -/
def addSwitch? (c : Collected) (s : Switch) : Option Collected :=
  if s ∈ c.switches then none else some { c with switches := s :: c.switches }

/-- With the value of an option, which may not be given twice. -/
def assign? (c : Collected) (s : Setting) (value : Text) : Option Collected :=
  match s with
  | .baseUrl => if c.baseUrl?.isSome then none else some { c with baseUrl? := some value }
  | .language =>
      if c.languageTag?.isSome then none else some { c with languageTag? := some value }

/-- What the arguments ask for.  There has to be an input, and a fragment has no metadata
that JSON could show. -/
def request? (c : Collected) : Option Request :=
  let fragment := decide (Switch.fragment ∈ c.switches)
  let json := decide (Switch.json ∈ c.switches)
  match c.operands with
  | [] => none
  | input :: rest =>
      if fragment && json then none
      else
        some <| .convert {
          input := input
          output? := rest.head?
          mode := if fragment then .fragment else if json then .json else .page
          baseUrl := c.baseUrl?.getD []
          languageTag := c.languageTag?.getD "en"
          includeComments := decide (Switch.noComments ∉ c.switches) }

/-- Arguments behind the end of the options, which all name files. -/
def readOperands? (c : Collected) : List Text → Option Request
  | [] => c.request?
  | path :: rest => (c.addOperand? path).bind fun c => c.readOperands? rest

/-- Arguments from left to right.  `pending` is an option that waits for its value, which
looks like no option itself. -/
def read? (c : Collected) (pending : Option Setting) : List Text → Option Request
  | [] => if pending.isSome then none else c.request?
  | t :: rest =>
      match pending, Argument.ofText t with
      | some setting, .operand value => (c.assign? setting value).bind (·.read? none rest)
      | some _, _ => none
      | none, .operand path => (c.addOperand? path).bind (·.read? none rest)
      | none, .switch s => (c.addSwitch? s).bind (·.read? none rest)
      | none, .setting s => c.read? (some s) rest
      | none, .assigned s value => (c.assign? s value).bind (·.read? none rest)
      | none, .endOfOptions => c.readOperands? rest
      | none, .help => some .help
      | none, .version => some .version
      | none, .unknown => none

end Collected

/-- What the arguments ask for, unless they are misused. -/
def Request.ofArguments? (arguments : List Text) : Option Request :=
  Collected.read? {} none arguments

/-! ## Runs -/

/-- Why a run failed.  A reason comes from the disk. -/
inductive Failure where
  | unreadable (reason : Text)
  | json (fault : Json.Fault)
  | record (error : RecordError)
  | unwritable (reason : Text)

/-- The line that reports a failure. -/
def Failure.message : Failure → Text
  | unreadable reason => "Error converting page: I/O error: " ++ reason
  | json fault => "Error converting page: " ++ fault.message
  | record error => "Error converting page: " ++ error.message
  | unwritable reason => "Error writing output: " ++ reason

/-- How files are read and written.  Either one succeeds in full, or it fails with a reason
and without effect. -/
structure Disk (m : Type → Type) where
  read : Text → m (Except Text Text)
  write : (path content : Text) → m (Except Text Unit)

namespace Settings

/-- The options of the conversion; a language that is not known is English. -/
def options (s : Settings) : Options where
  baseUrl := s.baseUrl
  language := (Language.ofTag? s.languageTag).getD .english
  includeComments := s.includeComments

/-- What the run makes of its input. -/
def convert (s : Settings) (input : Text) : Except Failure Text :=
  match s.mode with
  | .fragment => .ok (Page.fragment s.options.language input)
  | mode =>
      match Json.readBundle input with
      | .error fault => .error (.json fault)
      | .ok bundle =>
          match Page.convert s.options bundle.page bundle.comments with
          | .error error => .error (.record error)
          | .ok conversion =>
              .ok (if mode = .json then Json.writeConversion conversion else conversion.content)

variable {m : Type → Type} [Monad m]

/-- Delivers a result; what is returned goes to standard output. -/
def deliver (s : Settings) (disk : Disk m) (result : Text) : m (Except Failure Text) :=
  match s.output? with
  | none => pure (.ok (result ++ ['\n']))
  | some path => do
      match ← disk.write path result with
      | .ok () =>
          pure (.ok ("Successfully converted to " ++ Text.quoted path ++ ['\n']))
      | .error reason => pure (.error (.unwritable reason))

/-- A run; what is returned goes to standard output. -/
def run (s : Settings) (disk : Disk m) : m (Except Failure Text) := do
  match ← disk.read s.input with
  | .error reason => pure (.error (.unreadable reason))
  | .ok input =>
      match s.convert input with
      | .error failure => pure (.error failure)
      | .ok result => s.deliver disk result

end Settings

/-- The line that tells the version. -/
def versionLine : Text := "storage2md 0.1.0\n"

/-- The lines that tell how to use the program. -/
def helpText : Text :=
  "Usage: storage2md [OPTIONS] <INPUT> [OUTPUT]\n\n"
    ++ "  --fragment       Treat the input as storage markup instead of a page bundle\n"
    ++ "  --json           Write metadata and content as JSON\n"
    ++ "  --base-url URL   Address that relative page links are resolved against\n"
    ++ "  --lang TAG       Language of labels and notices (en, zh)\n"
    ++ "  --no-comments    Leave comments out\n"
    ++ "  -h, --help       Print help\n"
    ++ "  -V, --version    Print version\n"

/-! ## The program -/

/-- What is left of a run besides the files: its exit code, and what it prints to standard
output and to standard error. -/
structure Outcome where
  code : UInt32
  output : Text
  report : Text
  deriving DecidableEq

/-- How a run ends that prints a text or fails. -/
def Outcome.ofResult : Except Failure Text → Outcome
  | .ok output => ⟨0, output, []⟩
  | .error failure => ⟨1, [], failure.message ++ ['\n']⟩

/-- The program, given its arguments. -/
def execute {m : Type → Type} [Monad m] (disk : Disk m) (arguments : List Text) : m Outcome :=
  match Request.ofArguments? arguments with
  | none => pure ⟨2, [], helpText⟩
  | some .help => pure ⟨0, helpText, []⟩
  | some .version => pure ⟨0, versionLine, []⟩
  | some (.convert settings) => do return .ofResult (← settings.run disk)

/-! ## A folder of files -/

/-- The number of bytes that the longest path has. -/
def longestPath : Nat := 4095

/-- The number of bytes that the longest name of a file has. -/
def longestName : Nat := 255

/-- Whether a file can have the name; the folder and the one around it have theirs already. -/
def isFileName (name : Text) : Bool :=
  !name.isEmpty && name != ['.'] && name != ['.', '.'] && Text.byteLength name ≤ longestName

/-- Whether the steps of a path, the first of them first, stay in the folder. -/
def staysInFolder (steps : List Text) : Bool :=
  match steps with
  | [] => true
  | first :: rest => first == ['.'] && rest.all fun step => step == ['.'] || step.isEmpty

/-- The name of the file in the folder that a path leads to.  Steps that stay in the folder
may come before it; there are no folders inside. -/
def fileName? (path : Text) : Option Text :=
  match (path.splitOn '/').reverse with
  | name :: steps =>
      if Text.byteLength path ≤ longestPath && staysInFolder steps.reverse && isFileName name then
        some name
      else none
  | [] => none

/-- The disk of a folder whose files are the entries of a dictionary. -/
def folderDisk : Disk (StateM Dictionary) where
  read path := do
    let files ← get
    match (fileName? path).bind files.get? with
    | some content => pure (.ok content)
    | none => pure (.error [])
  write path content :=
    match fileName? path with
    | some name => do
        modify (·.insert name content)
        pure (.ok ())
    | none => pure (.error [])

end Wikidown.CommandLine
