import Footprint.Batch.Basic

set_option autoImplicit false

/-!
The arguments of the command. They are read from left to right: the first one that is wrong, or that
asks for help or for the version, decides; what has to hold of all of them together is checked at
the end.
-/

namespace Footprint

/-- What the command is asked to do. -/
structure Command where
  script : String
  input : String
  options : BatchOptions
  /-- The script is printed before each run. -/
  echo : Bool
  /-- The results are shown in the viewer after the batch. -/
  browse : Bool

inductive Request where
  | measure (c : Command)
  | help
  | version
  | invalid

namespace CommandLine

/-- The options without a value. -/
inductive Switch where
  | noEcho | listing | tui | verbose | silent
  deriving DecidableEq

/-- The options with a value. -/
inductive Setter where
  | extension | inputName | timeout | maxDepth
  deriving DecidableEq

/-- What an option does. -/
inductive Effect where
  | turnOn (s : Switch)
  | set (s : Setter)
  | help
  | version

def longOption? : String → Option Effect
  | "ext" => some (.set .extension)
  | "input-name" => some (.set .inputName)
  | "timeout-ms" => some (.set .timeout)
  | "max-depth" => some (.set .maxDepth)
  | "no-echo" => some (.turnOn .noEcho)
  | "listing" => some (.turnOn .listing)
  | "tui" => some (.turnOn .tui)
  | "verbose" => some (.turnOn .verbose)
  | "silent" => some (.turnOn .silent)
  | "help" => some .help
  | "version" => some .version
  | _ => none

/-- The option with a name of one character; none of those has a value. -/
def shortOption? : Char → Option Effect
  | 'v' => some (.turnOn .verbose)
  | 's' => some (.turnOn .silent)
  | 'h' => some .help
  | 'V' => some .version
  | _ => none

inductive Word where
  /-- Two dashes alone: no options follow. -/
  | separator
  | long (name : String) (value : Option String)
  | short (names : List Char)
  | operand (text : String)

def Word.ofArgument (arg : String) : Word :=
  match arg.toList with
  | ['-', '-'] => separator
  | '-' :: '-' :: cs =>
    let value := (cs.dropWhile (· ≠ '=')).tail?
    long (.ofList (cs.takeWhile (· ≠ '='))) (value.map .ofList)
  | '-' :: c :: cs => short (c :: cs)
  | _ => operand arg

/-- What the arguments read so far have said. -/
structure Given where
  /-- The last operand comes first. -/
  operands : List String
  switches : List Switch
  extension : Option String
  inputName : Option String
  timeout : Option Nat
  maxDepth : Option Nat

def Given.nothing : Given := ⟨[], [], none, none, none, none⟩

/-- A number of 64 bits without sign; a plus may stand before it. -/
def readNat? (text : String) : Option Nat :=
  let ds :=
    match text.toList with
    | '+' :: ds => ds
    | ds => ds
  let n := Decimal.natOf ds
  if ds.isEmpty || !ds.all Char.isDigit || Nat.pow 2 64 ≤ n then none else some n

namespace Given

def turnOn? (g : Given) (s : Switch) : Option Given :=
  if g.switches.contains s then none else some { g with switches := s :: g.switches }

def set? (g : Given) (s : Setter) (value : String) : Option Given :=
  match s with
  | .extension => if g.extension.isSome then none else some { g with extension := some value }
  | .inputName => if g.inputName.isSome then none else some { g with inputName := some value }
  | .timeout =>
    if g.timeout.isSome then none else (readNat? value).map fun n => { g with timeout := some n }
  | .maxDepth =>
    if g.maxDepth.isSome then none else (readNat? value).map fun n => { g with maxDepth := some n }

/-- Takes an operand: there are two, and neither is empty. -/
def add? (g : Given) (operand : String) : Option Given :=
  if operand.isEmpty || 2 ≤ g.operands.length then none
  else some { g with operands := operand :: g.operands }

def finish (g : Given) : Request :=
  match g.operands with
  | [input, script] =>
    if g.switches.contains .verbose && g.switches.contains .silent then .invalid
    else
      let preset := BatchOptions.default
      .measure {
        script, input
        options := {
          extension := g.extension.getD preset.extension
          inputName := g.inputName.getD preset.inputName
          limits := ⟨g.maxDepth.getD preset.limits.maxDepth, g.timeout⟩
          listing := g.switches.contains .listing }
        echo := !g.switches.contains .noEcho
        browse := g.switches.contains .tui }
  | _ => .invalid

/-- Takes the options of one argument, each without a value: an answer if they decide, or else what
has been said then. -/
def takeShort (g : Given) : List Char → Except Request Given
  | [] => .ok g
  | c :: cs =>
    match shortOption? c with
    | some (.turnOn s) =>
      match g.turnOn? s with
      | some g => g.takeShort cs
      | none => .error .invalid
    | some .help => .error .help
    | some .version => .error .version
    | _ => .error .invalid

def takeOperands (g : Given) : List String → Request
  | [] => g.finish
  | arg :: args =>
    match g.add? arg with
    | some g => g.takeOperands args
    | none => .invalid

/-- Takes arguments. -/
def take (g : Given) : List String → Request
  | [] => g.finish
  | arg :: args =>
    match Word.ofArgument arg with
    | .separator => g.takeOperands args
    | .operand text =>
      match g.add? text with
      | some g => g.take args
      | none => .invalid
    | .short names =>
      match g.takeShort names with
      | .ok g => g.take args
      | .error r => r
    | .long name value =>
      match longOption? name, value with
      | some .help, none => .help
      | some .version, none => .version
      | some (.turnOn s), none =>
        match g.turnOn? s with
        | some g => g.take args
        | none => .invalid
      | some (.set s), some value =>
        match g.set? s value with
        | some g => g.take args
        | none => .invalid
      | some (.set s), none =>
        match args with
        | [] => .invalid
        | value :: args =>
          match Word.ofArgument value with
          | .operand value =>
            match g.set? s value with
            | some g => g.take args
            | none => .invalid
          | _ => .invalid
      | _, _ => .invalid

end Given

end CommandLine

def Request.ofArguments (args : List String) : Request := CommandLine.Given.nothing.take args

end Footprint
