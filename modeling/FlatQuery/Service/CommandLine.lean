/-!
The arguments on a command line: a command with options before and behind it.
-/

namespace FlatQuery

inductive Command
  | query
  | serve
  deriving DecidableEq, Repr

namespace Command

def name : Command → String
  | query => "query"
  | serve => "serve"

def ofName? (name : String) : Option Command :=
  [query, serve].find? (·.name == name)

end Command

structure Invocation where
  command : Command
  config : String := "./csvquery.json"
  logLevel : String := "info"
  deriving DecidableEq, Repr

namespace CommandLine

-- What arguments ask for. Help and version are shown instead of anything else.
inductive Parsed
  | run (i : Invocation)
  | help
  | version
  | wrong
  deriving DecidableEq, Repr

-- Options with a value. The first one may stand before the command or behind it, and the other one
-- behind it only.
inductive Setting
  | logLevel
  | config
  deriving DecidableEq, Repr

-- The options of one side of the command. The last one is `pending` until the next option or the
-- end, and has no value yet if it is still to come.
structure Settings where
  logLevel : Option String := none
  config : Option String := none
  pending : Option (Setting × Option String) := none
  deriving DecidableEq, Repr

-- Sets an option that is not set yet. A path is not empty.
def Settings.set (s : Settings) : Setting → String → Option Settings
  | .logLevel, v => if s.logLevel.isNone then some { s with logLevel := some v } else none
  | .config, v =>
    if s.config.isNone && v != "" then some { s with config := some v } else none

-- Sets the pending option if there is one.
def Settings.settle (s : Settings) : Option Settings :=
  match s.pending with
  | none => some s
  | some (_, none) => none
  | some (o, some v) => { s with pending := none }.set o v

inductive Argument
  -- Only operands, of which there are none here, may follow two dashes.
  | dashes
  | long (name : String) (value : Option String)
  | short (letter : Char)
  | word (text : String)
  deriving DecidableEq, Repr

def Argument.of (text : String) : Argument :=
  match text.toList with
  | ['-', '-'] => .dashes
  | '-' :: '-' :: cs =>
    match cs.span (· != '=') with
    | (name, []) => .long (.ofList name) none
    | (name, _ :: value) => .long (.ofList name) (some (.ofList value))
  | '-' :: c :: _ => .short c
  | _ => .word text

-- What a side of the command comes to.
inductive Side
  | command (c : Command) (s : Settings) (rest : List String)
  | finished (s : Settings)
  | help
  | version
  | wrong
  deriving DecidableEq, Repr

-- The command `help` takes the name of a command or nothing.
def helpOn : List String → Side
  | [] => .help
  | [name] => if (Command.ofName? name).isSome || name == "help" then .help else .wrong
  | _ => .wrong

-- Reads the arguments before the command, or behind it.
def side (behind : Bool) (s : Settings) : List String → Side
  | [] =>
    match s.settle with
    | some s => .finished s
    | none => .wrong
  | a :: rest =>
    match s.pending, Argument.of a with
    | some (o, none), .word v => side behind { s with pending := some (o, some v) } rest
    | some (_, none), _ => .wrong
    | _, .word text =>
      if behind then .wrong
      else if text == "help" then helpOn rest
      else
        match Command.ofName? text with
        | some c => .command c s rest
        | none => .wrong
    | _, .dashes => if rest.isEmpty then side behind s rest else .wrong
    | _, .short letter =>
      if s.settle.isNone then .wrong
      else if letter == 'h' then .help
      else if letter == 'V' && !behind then .version
      else .wrong
    | _, .long name value =>
      match s.settle with
      | none => .wrong
      | some s =>
        if name == "help" && value.isNone then .help
        else if name == "version" && value.isNone && !behind then .version
        else
          match setting? behind name, value with
          | none, _ => .wrong
          | some o, none => side behind { s with pending := some (o, none) } rest
          | some o, some v =>
            match s.set o v with
            | some s => side behind s rest
            | none => .wrong
where
  setting? (behind : Bool) (name : String) : Option Setting :=
    if name == "log-level" then some .logLevel
    else if name == "config" && behind then some .config
    else none

-- The option behind the command counts where it is given on both sides.
-- What is wrong behind the command is found before what is pending in front of it.
def parse (args : List String) : Parsed :=
  match side false {} args with
  | .help => .help
  | .version => .version
  | .finished _ | .wrong => .wrong
  | .command command before rest =>
    match side true {} rest with
    | .help => .help
    | .version => .version
    | .command .. | .wrong => .wrong
    | .finished behind =>
      match before.settle with
      | none => .wrong
      | some before =>
        let i : Invocation := { command }
        .run { i with
          config := behind.config.getD i.config
          logLevel := (behind.logLevel.or before.logLevel).getD i.logLevel }

end CommandLine
end FlatQuery
