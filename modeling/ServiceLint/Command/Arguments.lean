import ServiceLint.Disk.Path
import ServiceLint.Format.Digits

/-!
# Command line arguments (`cli.main`)

A command line has options of the program, the name of a command, and the options and operands of that
command. The program's options may stand on either side of the name; on each side an option is given at
most once, and the inner one counts. An argument that is not understood makes the whole line wrong.
-/
namespace ServiceLint.Command

inductive OutputFormat where
  | human
  | json
  | github
deriving DecidableEq, Repr

def OutputFormat.ofName? : String → Option OutputFormat
  | "human" => some .human
  | "json" => some .json
  | "github" => some .github
  | _ => none

/-- Options of the program (`OutputOptions`). -/
structure Options where
  config : Option Path := none
  color : Bool := false
  noColor : Bool := false
  quiet : Bool := false
deriving DecidableEq, Repr

/-- A position in a file, counted from one. -/
structure Target where
  file : Path
  line : UInt32
  column : UInt32
deriving DecidableEq, Repr

/-- What the program is asked to do (`Commands`). -/
inductive Task where
  /-- Checks the files that the patterns match. -/
  | check (patterns : List String) (format : OutputFormat)
  /-- Lists the actions at a position. -/
  | actions (target : Target) (format : OutputFormat)
  /-- Carries out an action at a position. -/
  | fix (target : Target) (withoutCaller dryRun : Bool)
  /-- Lists the rules. -/
  | rules (format : OutputFormat)
deriving DecidableEq, Repr

/-- A command line that is understood. -/
inductive Request where
  | version
  | run (options : Options) (task : Task)
deriving DecidableEq, Repr

/-! ## What is given -/

/-- What one option or operand says. -/
inductive Setting where
  | version
  | config (path : Path)
  | color
  | noColor
  | quiet
  | format (format : OutputFormat)
  | line (n : UInt32)
  | column (n : UInt32)
  | withoutCaller
  | dryRun
deriving DecidableEq, Repr

/-- What is given on one side of the name of the command. -/
structure Given where
  version : Bool := false
  options : Options := {}
  format : Option OutputFormat := none
  line : Option UInt32 := none
  column : Option UInt32 := none
  withoutCaller : Bool := false
  dryRun : Bool := false
  operands : List String := []
deriving DecidableEq, Repr

namespace Given

/-- Adds a setting that has not been given before. -/
def add? (g : Given) : Setting → Option Given
  | .version => if g.version then none else some { g with version := true }
  | .config path =>
    if g.options.config.isSome then none
    else some { g with options := { g.options with config := some path } }
  | .color =>
    if g.options.color then none else some { g with options := { g.options with color := true } }
  | .noColor =>
    if g.options.noColor then none else some { g with options := { g.options with noColor := true } }
  | .quiet =>
    if g.options.quiet then none else some { g with options := { g.options with quiet := true } }
  | .format f => if g.format.isSome then none else some { g with format := some f }
  | .line n => if g.line.isSome then none else some { g with line := some n }
  | .column n => if g.column.isSome then none else some { g with column := some n }
  | .withoutCaller => if g.withoutCaller then none else some { g with withoutCaller := true }
  | .dryRun => if g.dryRun then none else some { g with dryRun := true }

/-- Adds settings one after the other. -/
def addAll? (g : Given) : List Setting → Option Given
  | [] => some g
  | s :: ss => (g.add? s).bind (addAll? · ss)

def addOperands (g : Given) (operands : List String) : Given :=
  { g with operands := g.operands ++ operands }

/-- Whether nothing given stands against something else. -/
def isConsistent (g : Given) : Bool := !(g.options.color && g.options.noColor)

end Given

/-! ## Options -/

/-- What an option takes: nothing, or a value that is read. -/
inductive Taking where
  | nothing (setting : Setting)
  | value (read : String → Option Setting)

structure Switch where
  long : String
  letter : Option Char
  taking : Taking

/-- Reads a path, which may not be empty. -/
def readPath (s : String) : Option Path := if s.isEmpty then none else some ⟨s⟩

/-- Reads a number of 32 bits. It may have a sign as long as it is not below zero. -/
def readWord (s : String) : Option UInt32 :=
  let (isNegative, digits) := match s.toList with
    | '+' :: ds => (false, ds)
    | '-' :: ds => (true, ds)
    | ds => (false, ds)
  ((Digits.number? 10 digits).filter fun n => if isNegative then n == 0 else n < 4294967296).map
    UInt32.ofNat

/-- Options that stand on either side of the name of the command. -/
def Switch.common : List Switch :=
  [⟨"config", some 'c', .value fun s => (readPath s).map .config⟩,
    ⟨"color", none, .nothing .color⟩,
    ⟨"no-color", none, .nothing .noColor⟩,
    ⟨"quiet", some 'q', .nothing .quiet⟩]

def Switch.outer : List Switch := ⟨"version", some 'V', .nothing .version⟩ :: Switch.common

def Switch.format : Switch := ⟨"format", some 'f', .value fun s => (OutputFormat.ofName? s).map .format⟩

/-- The options for a position. -/
def Switch.position : List Switch :=
  [⟨"line", some 'l', .value fun s => (readWord s).map .line⟩,
    ⟨"column", none, .value fun s => (readWord s).map .column⟩]

/-- What an argument that starts with a dash says. An option may still wait for its value, which is then
the next argument. -/
structure Reading where
  settings : List Setting
  waiting : Option (String → Option Setting) := none

namespace Reading

/-- Reads an option with the value that is attached to it, if there is one. -/
def ofSwitch? (s : Switch) (attached : Option (List Char)) : Option Reading :=
  match s.taking, attached with
  | .nothing setting, none => some ⟨[setting], none⟩
  | .nothing _, some _ => none
  | .value read, some text => (read (String.ofList text)).map fun setting => ⟨[setting], none⟩
  | .value read, none => some ⟨[], some read⟩

/-- Reads an option that is given by its long name. -/
def ofLong? (switches : List Switch) (text : List Char) : Option Reading :=
  let name := String.ofList (text.takeWhile (· != '='))
  let attached := match text.dropWhile (· != '=') with
    | [] => none
    | _ :: value => some value
  (switches.find? (·.long == name)).bind (ofSwitch? · attached)

/-- Reads options that are given by their letters. What follows the letter of an option with a value is
that value. Nothing after the letter for the version counts. -/
def ofLetters? (switches : List Switch) : List Char → Option Reading
  | [] => some ⟨[], none⟩
  | c :: cs => (switches.find? (·.letter == some c)).bind fun s => match s.taking with
    | .nothing .version => some ⟨[.version], none⟩
    | .nothing setting => (ofLetters? switches cs).map fun r => { r with settings := setting :: r.settings }
    | .value _ => ofSwitch? s (match cs with
      | [] => none
      | '=' :: value => some value
      | value => some value)

end Reading

/-- The kinds of arguments. -/
inductive Argument where
  /-- `--`: only operands follow. -/
  | endOfOptions
  | long (text : List Char)
  | letters (text : List Char)
  | operand

/-- The kind of an argument. A dash alone is an operand. -/
def Argument.ofString (s : String) : Argument :=
  match s.toList with
  | ['-', '-'] => .endOfOptions
  | '-' :: '-' :: text => .long text
  | '-' :: c :: text => .letters (c :: text)
  | _ => .operand

/-! ## Commands -/

inductive Verb where
  | check
  | actions
  | fix
  | rules
deriving DecidableEq, Repr

namespace Verb

def ofName? : String → Option Verb
  | "check" => some .check
  | "actions" => some .actions
  | "fix" => some .fix
  | "rules" => some .rules
  | _ => none

def switches : Verb → List Switch
  | .check | .rules => Switch.format :: Switch.common
  | .actions => Switch.format :: (Switch.position ++ Switch.common)
  | .fix =>
    [⟨"without-caller", none, .nothing .withoutCaller⟩, ⟨"dry-run", none, .nothing .dryRun⟩] ++
      (Switch.position ++ Switch.common)

/-- The position that is given: a file and a line, and a column unless it is the first one. -/
def target? (g : Given) : Option Target :=
  match g.operands with
  | [file] => do return ⟨← readPath file, ← g.line, g.column.getD 1⟩
  | _ => none

/-- The task that a command stands for with what is given to it. -/
def task? (g : Given) : Verb → Option Task
  | .check => if g.operands.isEmpty then none else some (.check g.operands (g.format.getD .human))
  | .actions => (target? g).map (.actions · (g.format.getD .human))
  | .fix => (target? g).map (.fix · g.withoutCaller g.dryRun)
  | .rules => if g.operands.isEmpty then some (.rules (g.format.getD .human)) else none

end Verb

/-- The options on both sides of the name of the command together; the inner ones count. -/
def Options.within (outer inner : Options) : Options where
  config := inner.config <|> outer.config
  color := inner.color || outer.color
  noColor := inner.noColor || outer.noColor
  quiet := inner.quiet || outer.quiet

/-- Reads the arguments of a command. -/
def readInner? (switches : List Switch) (g : Given) (waiting : Option (String → Option Setting)) :
    List String → Option Given
  | [] => if waiting.isNone then some g else none
  | arg :: args => match waiting, Argument.ofString arg with
    | some read, .operand => do readInner? switches (← g.add? (← read arg)) none args
    | some _, _ => none
    | none, .operand => readInner? switches (g.addOperands [arg]) none args
    | none, .endOfOptions => some (g.addOperands args)
    | none, .long text => do
      let r ← Reading.ofLong? switches text
      readInner? switches (← g.addAll? r.settings) r.waiting args
    | none, .letters text => do
      let r ← Reading.ofLetters? switches text
      readInner? switches (← g.addAll? r.settings) r.waiting args

/-- Reads the arguments from the name of the command on. -/
def readVerb? (outer : Given) (name : String) (args : List String) : Option Request := do
  let verb ← Verb.ofName? name
  let inner ← readInner? verb.switches {} none args
  let task ← verb.task? inner
  if outer.isConsistent && inner.isConsistent then
    return .run (outer.options.within inner.options) task
  else none

/-- Reads the arguments before the name of the command. The version is asked for as soon as its option is
read. -/
def readOuter? (g : Given) (waiting : Option (String → Option Setting)) :
    List String → Option Request
  | [] => none
  | arg :: args => match waiting, Argument.ofString arg with
    | some read, .operand => do readOuter? (← g.add? (← read arg)) none args
    | some _, _ => none
    | none, .operand => readVerb? g arg args
    | none, .endOfOptions => none
    | none, .long text => do
      let r ← Reading.ofLong? Switch.outer text
      let g ← g.addAll? r.settings
      if g.version then return .version else readOuter? g r.waiting args
    | none, .letters text => do
      let r ← Reading.ofLetters? Switch.outer text
      let g ← g.addAll? r.settings
      if g.version then return .version else readOuter? g r.waiting args

/-- Reads a command line (`Cli`). -/
def Request.ofArguments? (args : List String) : Option Request := readOuter? {} none args

end ServiceLint.Command
