import ConstraintHandling.Decimal.Numeral
import ConstraintHandling.Solution

/-! The arguments of the command line: a command, then its options. An option with two dashes takes
the next argument or what follows an equals sign as its value, the option for the input file also
what follows its letter. -/
namespace ConstraintHandling.CommandLine

/-- How an option is written: a word behind two dashes or a letter behind one. -/
inductive Flag where
  | word (name : String)
  | letter (c : Char)
  deriving DecidableEq, Repr

/-- An option that takes a value. An option that has a default is complete without a value. An empty
value behind an equals sign is a misuse at once, or for a lenient option only after all arguments
have been read. -/
structure Setting where
  flag : Flag
  isRequired : Bool
  isLenient : Bool
  default? : Option String
  allowed : List String

/-- What an option was given: each occurrence with its value, if it has one. -/
structure Given where
  flag : Flag
  value : Option String

/-- What ends the reading of arguments early. -/
inductive Stop where
  | help
  | misuse
  deriving DecidableEq, Repr

def trimLeading (c : Char) (cs : List Char) : List Char :=
  cs.dropWhile (· == c)

/-- The value behind an equals sign or an option letter. -/
def attachedValue (setting : Setting) (cs : List Char) : Except Stop Given :=
  let value := trimLeading '=' cs
  if value.isEmpty && !setting.isLenient then .error .misuse
  else .ok ⟨setting.flag, some (String.ofList value)⟩

def findSetting? (settings : List Setting) (flag : Flag) : Option Setting :=
  settings.find? fun s => s.flag == flag

/-- An argument that begins with two dashes: an option, with its value behind an equals sign if
there is one. -/
def readLong (settings : List Setting) (cs : List Char) : Except Stop (Given × Option Setting) :=
  let body := trimLeading '-' cs
  let name := body.takeWhile (· != '=')
  match findSetting? settings (.word (String.ofList name)) with
  | some setting =>
    match body.drop name.length with
    | [] => .ok (⟨setting.flag, none⟩, some setting)
    | _ :: value => (attachedValue setting value).map fun given => (given, none)
  | none => if name == "help".toList then .error .help else .error .misuse

/-- An argument that begins with one dash: an option letter, with its value behind it if there is
one. -/
def readShort (settings : List Setting) (cs : List Char) : Except Stop (Given × Option Setting) :=
  match cs with
  | [] => .error .misuse
  | letter :: value =>
    match findSetting? settings (.letter letter) with
    | some setting =>
      if value.isEmpty then .ok (⟨setting.flag, none⟩, some setting)
      else (attachedValue setting value).map fun given => (given, none)
    | none => if letter = 'h' then .error .help else .error .misuse

/-- Reads the arguments behind a command, given the option that still waits for its value. A value
that is an argument of its own completes the latest occurrence. -/
def readArguments (settings : List Setting) :
    List String → Option Setting → List Given → Except Stop (List Given)
  | [], _, given => .ok given
  | arg :: rest, awaiting, given =>
    match arg.toList with
    | ['-', '-'] => if rest.isEmpty then .ok given else .error .misuse
    | '-' :: '-' :: cs =>
      match readLong settings ('-' :: '-' :: cs) with
      | .error e => .error e
      | .ok (new, awaiting) => readArguments settings rest awaiting (given ++ [new])
    | '-' :: c :: cs =>
      match readShort settings (c :: cs) with
      | .error e => .error e
      | .ok (new, awaiting) => readArguments settings rest awaiting (given ++ [new])
    | _ =>
      match awaiting with
      | none => .error .misuse
      | some setting =>
        readArguments settings rest none (given.dropLast ++ [⟨setting.flag, some arg⟩])

/-- The value of an option: given at most once, not empty, and one of those allowed. -/
def settle (given : List Given) (setting : Setting) : Except Stop (Option String) :=
  let chosen : Except Stop (Option String) :=
    match given.filter fun g => g.flag == setting.flag with
    | [] => if setting.isRequired then .error .misuse else .ok setting.default?
    | [⟨_, some value⟩] => .ok (some value)
    | [⟨_, none⟩] => if setting.default?.isSome then .ok setting.default? else .error .misuse
    | _ => .error .misuse
  match chosen with
  | .ok (some value) =>
    if value.isEmpty || (!setting.allowed.isEmpty && !setting.allowed.contains value) then
      .error .misuse
    else .ok (some value)
  | other => other

/-- The least level of the log records that are shown; nothing stands for showing none. -/
abbrev LogFilter := Option Level

def LogFilter.all : List (String × LogFilter) := [
  ("trace", some .trace), ("debug", some .debug), ("info", some .info), ("warn", some .warn),
  ("error", some .error), ("off", none)]

def LogFilter.shows (filter : LogFilter) (level : Level) : Bool :=
  match filter with
  | some least => least.rank ≤ level.rank
  | none => false

structure SolveOptions where
  file : String
  maxPasses : Option String
  tracing : Tracing
  style : Style

inductive Command where
  | authors
  | check (file : String)
  | solve (options : SolveOptions)

structure Invocation where
  command : Command
  filter : LogFilter

def fileSetting : Setting := ⟨.letter 'f', true, false, none, []⟩

def loggingSetting : Setting :=
  ⟨.word "logging-level", false, true, some "info", LogFilter.all.map (·.1)⟩

def passesSetting : Setting := ⟨.word "max-iterations", false, false, none, []⟩

def tracingSetting : Setting :=
  ⟨.word "trace", false, false, some "off", Tracing.all.map Tracing.name⟩

def styleSetting : Setting :=
  ⟨.word "writer", false, false, some "list", Style.all.map Style.name⟩

def settleFilter (given : List Given) : Except Stop LogFilter := do
  let name ← settle given loggingSetting
  return (name.bind fun n => LogFilter.all.lookup n).getD (some .info)

def settleFile (given : List Given) : Except Stop String := do
  let name ← settle given fileSetting
  match name with
  | some file => return file
  | none => .error .misuse

def readAuthors (args : List String) : Except Stop Invocation := do
  let given ← readArguments [loggingSetting] args none []
  return ⟨.authors, ← settleFilter given⟩

def readCheck (args : List String) : Except Stop Invocation := do
  let given ← readArguments [fileSetting, loggingSetting] args none []
  let file ← settleFile given
  return ⟨.check file, ← settleFilter given⟩

def readSolve (args : List String) : Except Stop Invocation := do
  let settings := [fileSetting, passesSetting, tracingSetting, styleSetting, loggingSetting]
  let given ← readArguments settings args none []
  let file ← settleFile given
  let passes ← settle given passesSetting
  let tracing ← settle given tracingSetting
  let style ← settle given styleSetting
  let filter ← settleFilter given
  return ⟨.solve ⟨file, passes, (tracing.bind Tracing.ofName?).getD .off,
    (style.bind Style.ofName?).getD .list⟩, filter⟩

/-- Help is asked for by a command of its own, for at most one command. -/
def readHelp : List String → Stop
  | [] => .help
  | [command] => if ["authors", "check", "solve", "help"].contains command then .help else .misuse
  | _ => .misuse

def Invocation.read : List String → Except Stop Invocation
  | [] => .error .misuse
  | "authors" :: args => readAuthors args
  | "check" :: args => readCheck args
  | "solve" :: args => readSolve args
  | "help" :: args => .error (readHelp args)
  | arg :: _ =>
    match arg.toList with
    | '-' :: '-' :: c :: cs => .error (match readLong [] ('-' :: '-' :: c :: cs) with
      | .error stop => stop
      | .ok _ => .misuse)
    | '-' :: 'h' :: _ => .error .help
    | _ => .error .misuse

end ConstraintHandling.CommandLine
