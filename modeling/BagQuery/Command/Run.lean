import BagQuery.Command.Options
import BagQuery.LogFilter
import BagQuery.Preferences

/-!
# Running the command

The command reads its arguments, then the user's preferences, then the program, and runs it.  What
an argument says goes before what the preferences say.  The first thing that goes wrong ends it:
arguments that cannot be read with the code 2, all else with the code 1 and a line that says why,
and what the program put out before is kept.

`Command.run` is the whole command as a function of what it finds when it is started.  The files it
reads are known one after the other: `Command.paths` says which ones they are as far as that can be
told.
-/

namespace BagQuery

namespace Command

/-- What the command finds when it is started. -/
structure Surroundings where
  vars : Variables
  files : Files
  /-- What sets this run apart from other runs of a program. -/
  runMark : String
  /-- Where the outputs go, each on a line. -/
  sink : Sink

/-- What the command leaves: a code for its caller, and what it wrote. -/
structure Report where
  code : Nat
  output : String
  complaint : String
deriving DecidableEq, Repr

/-- What can go wrong once the arguments are read. -/
inductive Fault where
  | noFile
  | preferences (fault : Preferences.Fault)
  | logFilter
  | program (e : Error)
deriving DecidableEq, Repr

/-- The line that says what went wrong. -/
def Fault.line : Fault → String
  | noFile => "No input file provided\n"
  | preferences fault => "error: " ++ fault.message ++ "\n"
  | logFilter => "error: invalid log level: invalid filter directive\n"
  | program e => "error: " ++ e.message ++ "\n"

/-- How an output is written. -/
def Format.render : Format → Output → String
  | text, output => output.render
  | json, output => output.toJson.render

/-- A program to be run. -/
structure Job where
  text : String
  format : Format
  settings : Settings

namespace Options

/-- The log filter: what the arguments say, or the environment, or the preferences. -/
def logFilter (o : Options) (vars : Variables) (p : Preferences) : String :=
  ((o.logLevel <|> vars "RUST_LOG") <|> p.logLevel).getD "warn"

/-- The mode that a program is run in. -/
def mode (o : Options) (p : Preferences) : Mode := if o.eager then .eager else p.mode.getD .lazy

/-- What the program of a file is run with. -/
def settings (o : Options) (p : Preferences) (s : Surroundings) (file : String) : Settings where
  mode := o.mode p
  owner := (o.owner <|> p.owner).getD "local"
  runId := (Path.stem? file).getD "program" ++ "-" ++ s.runMark
  maxIterations := o.maxIterations <|> p.maxIterations
  env := ⟨s.files, (o.dataDir <|> p.dataDir) <|> some (Path.parent file)⟩

/-- Reads all that a run needs. -/
def prepare (o : Options) (s : Surroundings) : Except Fault Job :=
  match o.file with
  | none => .error .noFile
  | some file =>
    match Preferences.find s.files s.vars o.preferences with
    | .error fault => .error (.preferences fault)
    | .ok p =>
      if LogFilter.isValid (o.logFilter s.vars p) then
        match (s.files file).text with
        | .error reason => .error (.program (.load file reason))
        | .ok text => .ok ⟨text, o.format.getD .text, o.settings p s file⟩
      else .error .logFilter

end Options

namespace Job

/-- Runs a program and writes what it puts out, one output a line. -/
def run (job : Job) (sink : Sink) : Report :=
  let outcome := Program.runTextInto job.settings job.settings.passes job.text sink .fresh
  let output := String.join (outcome.outputs.map fun o => job.format.render o ++ "\n")
  match outcome.ending with
  | .failed e => ⟨1, output, (Fault.program e).line⟩
  | .completed => ⟨0, output, ""⟩
  | .unfinished => ⟨0, output, ""⟩

/-- The files that a program reads records from. -/
def paths (job : Job) : List String :=
  match Program.parse job.text with
  | .error _ => []
  | .ok program => (Statement.pathsAll program).map job.settings.env.locate

end Job

/-- The arguments of the command. -/
def usage : String :=
  "Usage: myrial [OPTIONS] [FILE]\n"

/-- How to use the command. -/
def help : String :=
  "Evaluate a myrial query program under bag semantics\n\n" ++ usage ++ "\n" ++
  "Arguments:\n" ++
  "  [FILE]  Program file to run\n\n" ++
  "Options:\n" ++
  "      --eager               Materialize every assignment into the store\n" ++
  "      --owner <OWNER>       Owner recorded in materialized relation keys\n" ++
  "      --max-iterations <N>  Fail a DO ... WHILE loop after this many iterations\n" ++
  "      --data-dir <DIR>      Base directory for relative LOAD paths (defaults to the " ++
    "program's directory)\n" ++
  "      --format <FORMAT>     Output format for DUMP, DESCRIBE, and EXPLAIN: text or json\n" ++
  "      --config <FILE>       Path to config.toml\n" ++
  "      --log-level <LEVEL>   Tracing filter\n" ++
  "  -h, --help                Print help\n" ++
  "  -V, --version             Print version\n"

/-- What the version is. -/
def version : String := "myrial 0.1.0\n"

/-- Arguments that cannot be read. -/
def Report.refused : Report := ⟨2, "", "error: these arguments cannot be read\n\n" ++ usage⟩

/-- What the arguments ask for.  The environment may name the preferences file. -/
def request? (vars : Variables) (args : List String) : Option Request :=
  match Request.ofArguments? .unset args with
  | some (.run o) =>
    match o.preferences, vars "MYRIAL_CONFIG" with
    | none, some path => (o.set .preferences path).map .run
    | _, _ => some (.run o)
  | request => request

/-- Runs the command. -/
def run (s : Surroundings) (args : List String) : Report :=
  match request? s.vars args with
  | none => .refused
  | some .help => ⟨0, help, ""⟩
  | some .version => ⟨0, version, ""⟩
  | some (.run o) =>
    match o.prepare s with
    | .error fault => ⟨1, "", fault.line⟩
    | .ok job => job.run s.sink

/-- The files that the command reads, as far as can be told from the files it was given. -/
def paths (s : Surroundings) (args : List String) : List String :=
  match request? s.vars args with
  | some (.run o) =>
    let job := match o.prepare s with
      | .ok job => job.paths
      | .error _ => []
    (Preferences.path s.vars o.preferences).toList ++ o.file.toList ++ job
  | _ => []

/-- The environment variables that the command looks at. -/
def vars : List String := ["MYRIAL_CONFIG", "RUST_LOG", "XDG_CONFIG_HOME", "HOME"]

end Command

end BagQuery
