import FlatQuery.Config.Basic
import FlatQuery.Files

/-!
Configurations in JSON form: an object of options, or an array of their values in a fixed order.
Options that are left out have their usual values.
-/

namespace FlatQuery.Config

def readText : Json → Except ConfigShape String
  | .string s => .ok s
  | _ => .error .wrongType

def readFlag : Json → Except ConfigShape Bool
  | .bool b => .ok b
  | _ => .error .wrongType

def readNat : Json → Except ConfigShape Nat
  | .number (.whole n) => if 0 ≤ n then .ok n.toNat else .error .wrongType
  | _ => .error .wrongType

def readSchema (v : Json) : Except ConfigShape Schema :=
  match v.strings? with
  | none => .error .wrongType
  | some names => (Schema.ofNames names).mapError .schema

-- Of two tables of one name the later one counts, but the earlier one needs a schema too.
def readTables : Json → Except ConfigShape Tables
  | .object members =>
    members.foldlM (fun t m => return t.insert m.1 (← readSchema m.2)) .empty
  | _ => .error .wrongType

-- The options in their order, each with what its value changes.
def options : List (String × (Config → Json → Except ConfigShape Config)) :=
  [("path", fun c v => return { c with path := ← readText v }),
   ("extension", fun c v => return { c with extension := ← readText v }),
   ("readonly", fun c v => return { c with readonly := ← readFlag v }),
   ("recursive", fun c v => return { c with recursive := ← readFlag v }),
   ("delimiter", fun c v => return { c with delimiter := ← readText v }),
   ("default_limit", fun c v => return { c with defaultLimit := ← readNat v }),
   ("tables", fun c v => return { c with tables := ← readTables v })]

def readMember (c : Config) (m : String × Json) : Except ConfigShape Config :=
  match options.lookup m.1 with
  | some set => set c m.2
  | none => .error .unknownOption

def ofJson : Json → Except ConfigShape Config
  | .object members =>
    if (members.map (·.1)).Nodup then members.foldlM readMember {}
    else .error .repeatedOption
  | .array values =>
    if options.length < values.length then .error .excess
    else ((options.map (·.1)).zip values).foldlM readMember {}
  | _ => .error .kind

def parse (text : String) : Except ConfigError Config := do
  let v ← (Json.parseWith id text).mapError .json
  (ofJson v).mapError .shape

-- A valid configuration from its text.
def read (text : String) (j : Log.Journal) : Except ConfigError (Config × Log.Journal) := do
  let c ← parse text
  return (c, (← c.check j).2)

-- A valid configuration from a file.
def load (files : Files) (path : String) (j : Log.Journal) :
    Except ConfigError (Config × Log.Journal) := do
  let text ← (files.readText path).mapError (.unreadable path)
  let (c, j) ← read text j
  return (c, j.report .configLoaded [("config", path), ("tables", toString c.tables.size)])

end FlatQuery.Config
