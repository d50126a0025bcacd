import Guardedness.CommandLine
import Guardedness.Json.Reader

/-!
# Options

The tool takes a term or asks for one, takes the name of a settings file or has a default, can
be told to be verbose, and can show its version or its usage.

**Arguments** are read from left to right (`request`). An option has a long name, after two
hyphens, and a short one, a letter after one hyphen. Short options may be run together, as in
`-vp`. An option's value is the next argument, which must not look like an option, or what follows
its name: after an equals sign, which a short option may leave out. No option may be given
twice, the name of a file must not be empty, and nothing but options is accepted. After a
bare `--` no argument is an option.

Showing the version or the usage settles the request, if every argument before it is in order.
-/

namespace Guardedness

namespace CommandLine

/-- The options that have a value. -/
inductive Valued where
  | process
  | settingsFile
deriving DecidableEq, Repr

inductive Opt where
  | valued (v : Valued)
  | verbose
  | version
  | help
deriving DecidableEq, Repr

/-- The option with a long name. -/
def Opt.ofLong? : String → Option Opt
  | "process" => some (.valued .process)
  | "config" => some (.valued .settingsFile)
  | "verbose" => some .verbose
  | "version" => some .version
  | "help" => some .help
  | _ => none

def Opt.ofShort? : Char → Option Opt
  | 'p' => some (.valued .process)
  | 'c' => some (.valued .settingsFile)
  | 'v' => some .verbose
  | 'V' => some .version
  | 'h' => some .help
  | _ => none

namespace Options

/-- Give an option its value, if it has none yet and takes this one. -/
def set? (o : Options) (v : Valued) (value : String) : Option Options :=
  match v with
  | .process => if o.process.isSome then none else some { o with process := some value }
  | .settingsFile =>
    if o.settingsFile.isSome || value.isEmpty then none
    else some { o with settingsFile := some value }

/-- Make the tool verbose, if it is not yet. -/
def setVerbose? (o : Options) : Option Options :=
  if o.verbose then none else some { o with verbose := true }

end Options

/-- What an argument leads to. -/
inductive Reading where
  | more (options : Options)
  | value (v : Valued) (options : Options)
  | settled (request : Request)

/-- Go on with the options there are, if they are in order. -/
def Reading.ofOptions? : Option Options → Reading
  | some o => more o
  | none => settled .refused

/-- Read short options that are run together. -/
def readShort (o : Options) : List Char → Reading
  | [] => .more o
  | c :: cs =>
    match Opt.ofShort? c with
    | none => .settled .refused
    | some .version => .settled .version
    | some .help => .settled .help
    | some .verbose =>
      match o.setVerbose? with
      | some o => readShort o cs
      | none => .settled .refused
    | some (.valued v) =>
      match cs with
      | [] => .value v o
      | '=' :: value => .ofOptions? (o.set? v (String.ofList value))
      | value => .ofOptions? (o.set? v (String.ofList value))

/-- Read a long option and what follows its name after an equals sign, if there is one. -/
def readLong (o : Options) (name : String) (value : Option String) : Reading :=
  match Opt.ofLong? name, value with
  | some (.valued v), some value => .ofOptions? (o.set? v value)
  | some (.valued v), none => .value v o
  | some .verbose, none => .ofOptions? o.setVerbose?
  | some .version, none => .settled .version
  | some .help, none => .settled .help
  | _, _ => .settled .refused

/-- Whether an argument cannot be the value of an option: it starts with a hyphen and has more. -/
def looksLikeOption (arg : String) : Bool :=
  match arg.toList with
  | '-' :: _ :: _ => true
  | _ => false

/-- Read one argument. -/
def readArgument (o : Options) (arg : String) : Reading :=
  match arg.toList with
  | '-' :: '-' :: cs =>
    let (name, rest) := cs.span (· != '=')
    readLong o (String.ofList name) (rest.tail?.map String.ofList)
  | '-' :: c :: cs => readShort o (c :: cs)
  | _ => .settled .refused

/-- Read the arguments after those that gave `o`. -/
def requestFrom (o : Options) : List String → Request
  | [] => .check o
  | ["--"] => .check o
  | arg :: args =>
    match readArgument o arg, args with
    | .more o, args => requestFrom o args
    | .settled r, _ => r
    | .value v o, value :: args =>
      if looksLikeOption value then .refused
      else
        match o.set? v value with
        | some o => requestFrom o args
        | none => .refused
    | .value _ _, [] => .refused

def request (args : List String) : Request := requestFrom {} args

/-- Arguments are read in this way, and settings from JSON. -/
def libraries : Libraries := ⟨request, Json.decoder⟩

end CommandLine

end Guardedness
