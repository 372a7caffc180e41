import Footprint.CommandLine.Arguments

set_option autoImplicit false

/-!
What the command writes and how it exits. Reports go to the output, errors to the error output; the
command succeeds if each input was run to its end.
-/

namespace Footprint

structure Transcript where
  output : String
  errors : String
  exit : Nat

namespace CommandLine

def versionText : String := "linecov 0.1.0\n"

def helpText : String :=
  "Statement coverage of a script, one traced run per input file\n\n" ++
  "Usage: linecov [OPTIONS] <SCRIPT> <INPUT>\n\n" ++
  "Arguments:\n" ++
  "  <SCRIPT>  Script to measure\n" ++
  "  <INPUT>   Input file, or a directory of input files\n\n" ++
  "Options:\n" ++
  "      --ext <EXT>                Extension of the input files read from a directory\n" ++
  "      --input-name <INPUT_NAME>  Global name the input value is bound to\n" ++
  "      --no-echo                  Do not print the script before each run\n" ++
  "      --listing                  Print each covered function with executed lines marked\n" ++
  "      --tui                      Browse the results after the batch\n" ++
  "      --timeout-ms <MS>          Abort a run that takes longer than this many milliseconds\n" ++
  "      --max-depth <MAX_DEPTH>    Maximum call depth before RecursionError\n" ++
  "  -v, --verbose                  Log more\n" ++
  "  -s, --silent                   Log errors only\n" ++
  "  -h, --help                     Print help\n" ++
  "  -V, --version                  Print version\n"

def errorLine (e : BatchError) : String := "Error: " ++ e.message ++ "\n"

/-- A report as it is printed: the output of the run, the executed lines, the listing,
the summary. -/
def reportText (r : Report) : String :=
  String.join (r.output.map (· ++ "\n")) ++ r.coverage.text ++ "\n" ++ r.listing.getD "" ++
    r.summary ++ "\n"

def outcomeText (echo : Option String) (o : Outcome) : String :=
  let report :=
    match o.result with
    | .ok r => reportText r
    | .error _ => ""
  ((echo.map (· ++ "\n")).getD "") ++ o.path ++ "\n" ++ report

def outcomeErrors (o : Outcome) : String :=
  match o.result with
  | .ok _ => ""
  | .error e => errorLine e

/-- The end of a command that could not begin. -/
def refusal (e : BatchError) : Transcript := ⟨"", errorLine e, 1⟩

/-- What is written in all for the inputs of a batch. -/
def transcript (echo : Option String) (os : List Outcome) : Transcript where
  output := String.join (os.map (outcomeText echo))
  errors := String.join (os.map outcomeErrors)
  exit := if os.any Outcome.isFailure then 1 else 0

variable {m : Type → Type} [Monad m]

/-- Measures a script as the command says: what is written, and the script with the outcomes unless
the command could not begin. Nothing comes of a run that does not end. -/
def measure (fs : Files m) (steps : Nat) (c : Command) :
    m (Option (Transcript × Option (Measured × List Outcome))) := do
  match ← Measured.load fs c.script c.options with
  | .error e => return some (refusal e, none)
  | .ok s =>
    match ← fs.inputs c.input c.options.extension with
    | .error e => return some (refusal e, none)
    | .ok paths =>
      match ← s.outcomes fs steps paths with
      | none => return none
      | some os =>
        let echo := if c.echo then some s.program.source else none
        return some (transcript echo os, some (s, os))

def execute (fs : Files m) (steps : Nat) (args : List String) : m (Option Transcript) := do
  match Request.ofArguments args with
  | .help => return some ⟨helpText, "", 0⟩
  | .version => return some ⟨versionText, "", 0⟩
  | .invalid => return some ⟨"", "", 2⟩
  | .measure c => return (← measure fs steps c).map Prod.fst

end CommandLine

end Footprint
