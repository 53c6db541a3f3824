/-!
# Command lines

`Command.ofArguments` reads the arguments of the program. There are three commands, `validate`,
`eval` and `run`, each with its options; `--log-level` may stand anywhere. An option begins with
two dashes and its name or with one dash and a letter, and takes its value from behind an equals
sign or from the next argument. Behind `--` everything is an operand.

A command line that is refused has a kind of `UsageError`. The value of an option is taken in when
the next option or operand begins, so a fault in it yields to a fault in reading that argument.
-/

namespace AllocScript

/-- What the program is asked to do. -/
inductive Command where
  /-- Parse a strategy and print it in canonical form. -/
  | validate (file : String)
  /-- Evaluate strategies against a snapshot. -/
  | evaluate (snapshot : String) (trace : Bool) (files : List String)
  /-- Evaluate the strategies that a configuration lists. -/
  | run (config : String) (trace : Bool)
deriving DecidableEq

/-- The kinds of refused command lines. -/
inductive UsageError where
  | helpForMissingCommand
  | help
  | missingRequired
  | missingCommand
  | unknownArgument
  | invalidCommand
  | invalidValue
  | surplusValue
  | conflict
deriving DecidableEq

namespace Arguments

inductive Flag where
  | help
  | logLevel
  | snapshot
  | config
  | trace
deriving DecidableEq

namespace Flag

def long : Flag → String
  | help => "help"
  | logLevel => "log-level"
  | snapshot => "snapshot"
  | config => "config"
  | trace => "trace"

def short? : Flag → Option Char
  | help => some 'h'
  | snapshot => some 's'
  | config => some 'c'
  | logLevel | trace => none

def takesValue : Flag → Bool
  | help | trace => false
  | logLevel | snapshot | config => true

/-- The value is a path, which is not empty. -/
def takesPath : Flag → Bool
  | snapshot | config => true
  | _ => false

end Flag

/-- How many operands a command takes. -/
inductive Operands where
  | none
  | one
  | many
deriving DecidableEq

/-- The options and operands at one level of the command line, and whether commands may follow. -/
structure Level where
  flags : List Flag
  operands : Operands
  commands : Bool

def topLevel : Level := ⟨[.help, .logLevel], .none, true⟩
def validateLevel : Level := ⟨[.help, .logLevel], .one, false⟩
def evaluateLevel : Level := ⟨[.help, .logLevel, .snapshot, .trace], .many, false⟩
def runLevel : Level := ⟨[.help, .logLevel, .config, .trace], .none, false⟩

/-- Something that has been named and whose values are not taken in yet. -/
inductive Pending where
  | flag (flag : Flag) (value : Option String)
  | operands (values : List String)
deriving DecidableEq

/-- What has been read at a level. -/
structure State where
  flags : List (Flag × String) := []
  operands : List String := []
  pending : Option Pending := none
  /-- Only operands follow. -/
  onlyOperands : Bool := false

/-- Takes in a value for a flag. A flag stands once, and a path is not empty. -/
def State.take (s : State) (flag : Flag) (value : Option String) : Except UsageError State :=
  if flag.takesValue && value.isNone then .error .invalidValue
  else if flag = .help then .error .help
  else if s.flags.any fun f => f.1 = flag then .error .conflict
  else if flag.takesPath && value = some "" then .error .invalidValue
  else .ok { s with flags := s.flags ++ [(flag, value.getD "")] }

/-- Takes in what is pending. -/
def State.settle (s : State) : Except UsageError State :=
  let rest := { s with pending := none }
  match s.pending with
  | none => .ok rest
  | some (.flag flag value) => rest.take flag value
  | some (.operands values) =>
    if values.contains "" then .error .invalidValue
    else .ok { rest with operands := rest.operands ++ values }

/-- A flag has been named, perhaps with a value in the same argument. -/
def State.name (s : State) (flag : Flag) (attached : Option String) : Except UsageError State :=
  s.settle >>= fun s =>
    if flag.takesValue && attached.isNone then .ok { s with pending := some (.flag flag none) }
    else s.take flag attached

/-- Reads one more operand. -/
def State.addOperand (s : State) (level : Level) (value : String) : Except UsageError State :=
  match level.operands with
  | .none => .error (if level.commands then .invalidCommand else .unknownArgument)
  | .one =>
    if s.operands.isEmpty && !(s.pending matches some (.operands _)) then
      s.settle.map fun s => { s with pending := some (.operands [value]) }
    else .error .unknownArgument
  | .many =>
    match s.pending with
    | some (.operands values) => .ok { s with pending := some (.operands (values ++ [value])) }
    | _ => s.settle.map fun s => { s with pending := some (.operands [value]) }

/-- Reads the letters behind one dash. -/
def State.readShort (s : State) (level : Level) : List Char → Except UsageError State
  | [] => .ok s
  | c :: cs =>
    match level.flags.find? fun f => f.short? = some c with
    | none => .error .unknownArgument
    | some flag =>
      if flag.takesValue then
        s.name flag (match cs with
          | [] => none
          | '=' :: value => some (String.ofList value)
          | _ => some (String.ofList cs))
      else s.name flag none >>= fun s => s.readShort level cs

/-- Reads the name behind two dashes. -/
def State.readLong (s : State) (level : Level) (text : List Char) : Except UsageError State :=
  let name := String.ofList (text.takeWhile (· ≠ '='))
  let attached := match text.dropWhile (· ≠ '=') with
    | [] => none
    | _ :: value => some (String.ofList value)
  match level.flags.find? fun f => f.long = name with
  | none => .error .unknownArgument
  | some flag =>
    if !flag.takesValue && attached.isSome then .error .surplusValue else s.name flag attached

/-- Reads one argument that is not the name of a command. -/
def State.read (s : State) (level : Level) (argument : String) : Except UsageError State :=
  if s.onlyOperands then s.addOperand level argument
  else
    match argument.toList with
    | ['-', '-'] => .ok { s with onlyOperands := true }
    | '-' :: '-' :: text => s.readLong level text
    | '-' :: c :: text => s.readShort level (c :: text)
    | _ =>
      match s.pending with
      | some (.flag flag none) => .ok { s with pending := some (.flag flag (some argument)) }
      | _ => s.addOperand level argument

/-- Reads all arguments of a command. -/
def readAll (level : Level) (s : State) : List String → Except UsageError State
  | [] => s.settle
  | argument :: rest => s.read level argument >>= fun s => readAll level s rest

def State.value? (s : State) (flag : Flag) : Option String := s.flags.lookup flag

/-- The command with this name and these arguments, if there is one of the name. -/
def command? (name : String) (arguments : List String) : Option (Except UsageError Command) :=
  if name = "validate" then
    some <| (readAll validateLevel {} arguments) >>= fun s =>
      match s.operands with
      | file :: _ => .ok (.validate file)
      | [] => .error .missingRequired
  else if name = "eval" then
    some <| (readAll evaluateLevel {} arguments) >>= fun s =>
      match s.value? .snapshot, s.operands with
      | some snapshot, _ :: _ =>
        .ok (.evaluate snapshot (s.value? .trace).isSome s.operands)
      | _, _ => .error .missingRequired
  else if name = "run" then
    some <| (readAll runLevel {} arguments) >>= fun s =>
      match s.value? .config with
      | some config => .ok (.run config (s.value? .trace).isSome)
      | none => .error .missingRequired
  else none

def commandNames : List String := ["validate", "eval", "run", "help"]

/-- What is refused when help is asked for a command: the help is given if there is such a
command. -/
def helpFor : List String → UsageError
  | [] => .help
  | [name] => if commandNames.contains name then .help else .invalidCommand
  | _ => .invalidCommand

/-- Reads arguments up to the name of a command, and the command. -/
def readTop (s : State) : List String → Except UsageError Command
  | [] => s.settle >>= fun s =>
    .error (if s.flags.isEmpty then .helpForMissingCommand else .missingCommand)
  | argument :: rest =>
    if s.onlyOperands || s.pending matches some (.flag _ none) then
      if s.onlyOperands && commandNames.contains argument then .error .unknownArgument
      else s.read topLevel argument >>= fun s => readTop s rest
    else if argument = "help" then .error (helpFor rest)
    else
      match command? argument rest with
      | some result => result >>= fun command => s.settle.map fun _ => command
      | none => s.read topLevel argument >>= fun s => readTop s rest

end Arguments

/-- The command that arguments ask for. -/
def Command.ofArguments (arguments : List String) : Except UsageError Command :=
  Arguments.readTop {} arguments

end AllocScript
