/-
Reading the words of a command line.

Words are read from left to right at a level: first that of the program,
and from the name of a command on that of the command. A level has its
options. An option that takes a value finds it in its own word, behind an
equals sign or, after a one-letter name, directly, or else in the next
word, which must not start with a dash unless it is a dash alone. All but
the list options can be given once at a level. A word `--` ends the
options, and as no level takes further words none may follow.

The options for the configuration and for the times are there at both
levels, and what the command's level says counts.
-/
import AdaptiveLoops.CommandLine.Request

namespace AdaptiveLoops.CommandLine

/-- What is wrong with a command line. -/
inductive UsageError where
  | unknownOption (word : String)
  | unexpectedWord (word : String)
  | missingValue (option : String)
  | unneededValue (option : String)
  | invalidValue (option value : String)
  | repeated (option : String)
  | noCommand
  deriving DecidableEq, Repr

def UsageError.message : UsageError → String
  | .unknownOption word => s!"unknown option `{word}`"
  | .unexpectedWord word => s!"unexpected argument `{word}`"
  | .missingValue option => s!"option --{option} needs a value"
  | .unneededValue option => s!"option --{option} takes no value"
  | .invalidValue option value => s!"invalid value `{value}` for option --{option}"
  | .repeated option => s!"option --{option} is given more than once"
  | .noCommand => "no command is given"

/-- Why reading ends before its end. -/
inductive Stop where
  | version
  | help
  | usage (e : UsageError)
  deriving DecidableEq, Repr

/-! ## Options -/

/-- What the options of a level have said so far. -/
structure Draft where
  time : Bool
  poolCapacity : Option UInt64
  warmup : Option Warmup
  shape : List UInt64
  policies : List Policy
  iterations : Option UInt64
  format : Option Format
  explain : Bool
  deriving DecidableEq, Repr

def Draft.empty : Draft := ⟨false, none, none, [], [], none, none, false⟩

/-- Why an option cannot be taken. -/
inductive Refusal where
  | repeated
  | invalid
  deriving DecidableEq, Repr

/-- What an option does. -/
inductive Effect where
  | flag (set : Draft → Except Refusal Draft)
  | value (set : String → Draft → Except Refusal Draft)
  | version
  | help

structure CommandOption where
  long : String
  short : Option Char
  effect : Effect

/-- Sets a field that can be set once. -/
def setOnce {β : Type} (old : Option β) (new : Option β) (put : β → Draft) : Except Refusal Draft :=
  match new, old with
  | none, _ => .error .invalid
  | some _, some _ => .error .repeated
  | some b, none => .ok (put b)

/-- The items of a list that is written with commas. -/
def items? {β : Type} (read : String → Option β) (s : String) : Option (List β) :=
  (s.splitOn ",").mapM read

def word? (s : String) : Option UInt64 := (Text.Numeral.parse s).toOption

namespace CommandOption

def time : CommandOption :=
  ⟨"time", none, .flag fun d => if d.time then .error .repeated else .ok { d with time := true }⟩

def poolCapacity : CommandOption :=
  ⟨"pool-capacity", none, .value fun s d =>
    setOnce d.poolCapacity (word? s) fun n => { d with poolCapacity := some n }⟩

def warmup : CommandOption :=
  ⟨"warmup", none, .value fun s d =>
    setOnce d.warmup (Warmup.parse s).toOption fun w => { d with warmup := some w }⟩

def shape : CommandOption :=
  ⟨"shape", none, .value fun s d =>
    match items? word? s with
    | some ns => .ok { d with shape := d.shape ++ ns }
    | none => .error .invalid⟩

def policies : CommandOption :=
  ⟨"policies", none, .value fun s d =>
    match items? (fun p => (Policy.parse p).toOption) s with
    | some ps => .ok { d with policies := d.policies ++ ps }
    | none => .error .invalid⟩

def iterations : CommandOption :=
  ⟨"iterations", some 'n', .value fun s d =>
    setOnce d.iterations (word? s) fun n => { d with iterations := some n }⟩

def format : CommandOption :=
  ⟨"format", none, .value fun s d =>
    setOnce d.format (Format.parse? s) fun f => { d with format := some f }⟩

def explain : CommandOption :=
  ⟨"explain", none, .flag fun d =>
    if d.explain then .error .repeated else .ok { d with explain := true }⟩

def help : CommandOption := ⟨"help", some 'h', .help⟩

def version : CommandOption := ⟨"version", some 'V', .version⟩

def takesValue (o : CommandOption) : Bool :=
  match o.effect with
  | .value _ => true
  | _ => false

end CommandOption

/-! ## Levels -/

structure Level where
  options : List CommandOption
  commands : List String

namespace Level

def program : Level where
  options := [.time, .poolCapacity, .warmup, .help, .version]
  commands := ["bench", "config", "help"]

def bench : Level where
  options :=
    [.time, .poolCapacity, .warmup, .shape, .policies, .iterations, .format, .explain, .help]
  commands := []

def config : Level where
  options := [.time, .poolCapacity, .warmup, .format, .help]
  commands := []

/-- An option as it stands in a word, with the value that is in the same word. -/
structure Occurrence where
  option : CommandOption
  attached : Option String

/-- The option with a long name, which a value may follow behind an equals sign. -/
def long? (l : Level) (cs : List Char) : Option Occurrence :=
  let (name, value) := Text.splitAtFirst '=' cs
  (l.options.find? (·.long == String.ofList name)).map (⟨·, value.map String.ofList⟩)

/-- The value right behind a one-letter name, with or without an equals sign. -/
def attached? : List Char → Option String
  | [] => none
  | '=' :: cs => some (String.ofList cs)
  | cs => some (String.ofList cs)

/-- The option with a one-letter name. What follows an option without a value is not looked at. -/
def short? (l : Level) (c : Char) (cs : List Char) : Option Occurrence :=
  (l.options.find? (·.short == some c)).map fun o =>
    ⟨o, if o.takesValue then attached? cs else none⟩

/-- What kind of word a word is. -/
inductive Word where
  /-- The end of the options. -/
  | terminator
  | option (o : Option Occurrence)
  | plain

def word (l : Level) (s : String) : Word :=
  match s.toList with
  | ['-', '-'] => .terminator
  | '-' :: '-' :: cs => .option (l.long? cs)
  | '-' :: c :: cs => .option (l.short? c cs)
  | _ => .plain

/-- Whether a word cannot be the value of the option before it. -/
def startsWithDash (s : String) : Bool :=
  match s.toList with
  | '-' :: _ :: _ => true
  | _ => false

def refused {β : Type} (option value : String) : Except Refusal β → Except Stop β
  | .ok b => .ok b
  | .error .repeated => .error (.usage (.repeated option))
  | .error .invalid => .error (.usage (.invalidValue option value))

/-- Reads words up to the name of a command; what follows the name is left. -/
def read (l : Level) (d : Draft) : List String → Except Stop (Draft × Option (String × List String))
  | [] => .ok (d, none)
  | s :: rest =>
    match l.word s with
    | .terminator =>
      match rest with
      | [] => .ok (d, none)
      | extra :: _ => .error (.usage (.unexpectedWord extra))
    | .plain =>
      if l.commands.contains s then .ok (d, some (s, rest))
      else .error (.usage (.unexpectedWord s))
    | .option none => .error (.usage (.unknownOption s))
    | .option (some ⟨o, attached⟩) =>
      match o.effect, attached with
      | .version, none => .error .version
      | .help, none => .error .help
      | .flag set, none => do
        let d ← refused o.long "" (set d)
        read l d rest
      | .value set, some value => do
        let d ← refused o.long value (set value d)
        read l d rest
      | .value set, none =>
        match rest with
        | value :: rest =>
          if startsWithDash value then .error (.usage (.missingValue o.long))
          else do
            let d ← refused o.long value (set value d)
            read l d rest
        | [] => .error (.usage (.missingValue o.long))
      | _, some _ => .error (.usage (.unneededValue o.long))

end Level

/-! ## Requests -/

def nonempty {β : Type} (given default : List β) : List β :=
  if given.isEmpty then default else given

def Draft.benchOptions (d : Draft) : BenchOptions where
  shape := nonempty d.shape BenchOptions.defaultShape
  policies := nonempty d.policies BenchOptions.defaultPolicies
  iterations := d.iterations.getD BenchOptions.defaultIterations
  format := d.format.getD .table
  explain := d.explain

/-- The request of a command, from what was said before its name and after it. -/
def Draft.request (outer inner : Draft) (command : Command) : Request where
  time := outer.time || inner.time
  flags := ⟨inner.poolCapacity.or outer.poolCapacity, inner.warmup.or outer.warmup⟩
  command := command

/-- Reads the words behind the name of a command. -/
def commandRequest (outer : Draft) (name : String) (words : List String) : Except Stop Request :=
  if name = "bench" then do
    let (inner, _) ← Level.bench.read .empty words
    pure (outer.request inner (.bench inner.benchOptions))
  else if name = "config" then do
    let (inner, _) ← Level.config.read .empty words
    pure (outer.request inner (.config (inner.format.getD .yaml)))
  else
    match words with
    | [] => .error .help
    | [topic] =>
      if Level.program.commands.contains topic then .error .help
      else .error (.usage (.unexpectedWord topic))
    | topic :: _ => .error (.usage (.unexpectedWord topic))

def Request.ofArguments (words : List String) : Except Stop Request := do
  let (outer, command) ← Level.program.read .empty words
  match command with
  | none => .error (.usage .noCommand)
  | some (name, rest) => commandRequest outer name rest

end AdaptiveLoops.CommandLine
