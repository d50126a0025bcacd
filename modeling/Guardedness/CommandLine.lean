import Guardedness.Verdict

/-!
# The command line

The tool reads its settings first, from the file that was named or from one with a fixed name;
where there is no such file, the defaults hold. Then it takes the term from the arguments, or
prompts for it and reads one line, and prints the verdict.

**Libraries.** How arguments are read and settings are decoded is left to libraries (`Libraries`).

**Surroundings.** What the tool needs of the system is a record of actions (`Surroundings`), in
any monad. With real actions it runs as a program; over a `Transcript`, which holds what is left
to read and what was written, it is a function from input to output.

**Exit codes.** 0 for a verdict, 1 for a failure, 2 for arguments that make no sense.
-/

namespace Guardedness

namespace CommandLine

/-- What the user has chosen. -/
structure Options where
  process : Option String := none
  settingsFile : Option String := none
  verbose : Bool := false
deriving DecidableEq, Repr, Inhabited

/-- What the user asks for. -/
inductive Request where
  | check (options : Options)
  | version
  | help
  | refused
deriving DecidableEq, Repr

/-- What the tool takes from libraries. -/
structure Libraries where
  request : List String → Request
  decoder : Decoder

/-- The settings file that is read if none is named. -/
def defaultSettingsFile : String := "ccs-guard.json"

/-- The answer to a question for the version. -/
def versionLine : String := "ccs-guard 0.1.0\n"

def prompt : String := "Enter process: "

/-- The answer to a question for help, and to arguments that make no sense. -/
def usage : String :=
  "Usage: ccs-guard [OPTIONS]\n\n" ++
  "Options:\n" ++
  "  -p, --process <PROCESS>  Process term to check; read from stdin when omitted\n" ++
  "  -c, --config <CONFIG>    Path to config file [default: ccs-guard.json]\n" ++
  "  -v, --verbose            Enable debug logging\n" ++
  "  -h, --help               Print help\n" ++
  "  -V, --version            Print version\n"

/-- What the tool needs of the system. -/
structure Surroundings (m : Type → Type) where
  entry : String → m Entry
  /-- Read a line with the line feed that ends it, as bytes. -/
  readLine : m ByteArray
  print : String → m Unit
  complain : String → m Unit

section

variable {m : Type → Type} [Monad m]

/-- The settings: those of a file if there is one, otherwise the defaults. -/
def settings (L : Decoder) (sys : Surroundings m) (path : String) : m (Except Error Settings) := do
  match ← sys.entry path with
  | .missing => return .ok {}
  | e => return Settings.ofEntry L e

/-- The text of the term: the one given, or the line the user enters. -/
def source (sys : Surroundings m) (given : Option String) : m (Except Error String) := do
  match given with
  | some text => return .ok text
  | none =>
    sys.print prompt
    match String.fromUTF8? (← sys.readLine) with
    | some line => return .ok line
    | none => return .error (.system .invalidText)

/-- Find the verdict that the options ask for. -/
def judge (lib : Libraries) (sys : Surroundings m) (schedule : Schedule) (o : Options) :
    m (Except Error Bool) := do
  match ← settings lib.decoder sys (o.settingsFile.getD defaultSettingsFile) with
  | .error e => return .error e
  | .ok settings =>
    match ← source sys o.process with
    | .error e => return .error e
    | .ok text => return verdict settings schedule text

/-- The line that tells a verdict. -/
def verdictLine (guarded : Bool) : String :=
  if guarded then "Entered process is guarded\n" else "Entered process is not guarded\n"

def errorLine (e : Error) : String := "Error: " ++ e.message

/-- Do what the arguments ask for; the exit code. -/
def run (lib : Libraries) (sys : Surroundings m) (schedule : Schedule) (args : List String) :
    m UInt32 := do
  match lib.request args with
  | .version => sys.print versionLine; return 0
  | .help => sys.print usage; return 0
  | .refused => sys.complain usage; return 2
  | .check o =>
    match ← judge lib sys schedule o with
    | .ok guarded => sys.print (verdictLine guarded); return 0
    | .error e => sys.complain (errorLine e ++ "\n"); return 1

end

/-! ## Without a system -/

/-- The bytes up to the first line feed, with it. -/
def firstLine : List UInt8 → List UInt8
  | [] => []
  | b :: bs => if b = 10 then [b] else b :: firstLine bs

/-- What is left to read, and what was written. -/
structure Transcript where
  input : List UInt8
  output : String := ""
  errors : String := ""
deriving Repr

/-- Surroundings that only keep a transcript, with files to be looked up. -/
def Surroundings.ofFiles (files : String → Entry) : Surroundings (StateM Transcript) where
  entry path := pure (files path)
  readLine := modifyGet fun t =>
    let line := firstLine t.input
    (line.toByteArray, { t with input := t.input.drop line.length })
  print s := modify fun t => { t with output := t.output ++ s }
  complain s := modify fun t => { t with errors := t.errors ++ s }

/-- Run on an input; the exit code and the transcript. -/
def transcribe (lib : Libraries) (files : String → Entry) (schedule : Schedule)
    (args : List String) (input : List UInt8) : UInt32 × Transcript :=
  (run lib (.ofFiles files) schedule args).run ⟨input, "", ""⟩

end CommandLine

end Guardedness
