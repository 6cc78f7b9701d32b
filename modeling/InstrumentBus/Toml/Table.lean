import InstrumentBus.Config.Setting

/-!
How the tables of a TOML document grow.

A key is given once. Where a table comes from decides what may still be added: a table of a header
or of a dotted key takes no second header, and dotted keys add only to tables that no header opened.
They may pass through the last table of a list, but add nothing to it itself. What a value gives is
complete at once.
-/

namespace InstrumentBus.Toml

/-- Where a table comes from. -/
inductive Origin
  /-- It lies on the way to a table of a header. -/
  | implied
  | header
  /-- A dotted key made it or passed through it. -/
  | dotted
  deriving DecidableEq, Repr

/-- What a key leads to: a complete value, a table that may grow, or a list of tables of which the
last one may grow; the closed ones stand before it, the newest first. -/
inductive Entry
  | value (v : Setting)
  | table (origin : Origin) (members : List (String × Entry))
  | tables (closed : List Setting) (members : List (String × Entry))

abbrev Members := List (String × Entry)

mutual

def Entry.toSetting : Entry → Setting
  | .value v => v
  | .table _ ms => .table (settings ms)
  | .tables closed ms => .list (closed.reverse ++ [.table (settings ms)])

/-- The settings that members stand for. -/
def settings : Members → List (String × Setting)
  | [] => []
  | (k, e) :: ms => (k, e.toSetting) :: settings ms

end

/-- Changes what a key leads to, or adds it; nothing comes of it if the change is refused. -/
def change (key : String) (f : Option Entry → Option Entry) : Members → Option Members
  | [] => (f none).map fun e => [(key, e)]
  | (k, e) :: ms =>
    if k = key then (f (some e)).map fun e => (k, e) :: ms
    else (change key f ms).map fun ms => (k, e) :: ms

/-- Adds a value under a dotted key. -/
def addValue (v : Setting) : List String → Members → Option Members
  | [], _ => none
  | [key], ms =>
    change key (fun
      | none => some (.value v)
      | some _ => none) ms
  | key :: keys, ms =>
    change key (fun
      | none => (addValue v keys []).map (.table .dotted)
      | some (.table .header _) => none
      | some (.table _ ms) => (addValue v keys ms).map (.table .dotted)
      | some (.tables closed ms) =>
        if keys.length = 1 then none else (addValue v keys ms).map (.tables closed)
      | some (.value _) => none) ms

/-- Adds values one after the other. -/
def addValues (vs : List (List String × Setting)) (ms : Members) : Option Members :=
  vs.foldlM (fun ms (key, v) => addValue v key ms) ms

/-- Changes what a path of headers leads to. Tables on the way are made where they are missing. -/
def descend (f : Option Entry → Option Entry) : List String → Members → Option Members
  | [], _ => none
  | [key], ms => change key f ms
  | key :: keys, ms =>
    change key (fun
      | none => (descend f keys []).map (.table .implied)
      | some (.table origin ms) => (descend f keys ms).map (.table origin)
      | some (.tables closed ms) => (descend f keys ms).map (.tables closed)
      | some (.value _) => none) ms

/-- Opens the table of a header and fills it. -/
def openTable (vs : List (List String × Setting)) : Option Entry → Option Entry
  | none => (addValues vs []).map (.table .header)
  | some (.table .implied ms) => (addValues vs ms).map (.table .header)
  | some _ => none

/-- Appends a table to a list of tables and fills it. -/
def appendTable (vs : List (List String × Setting)) : Option Entry → Option Entry
  | none => (addValues vs []).map (.tables [])
  | some (.tables closed ms) =>
    (addValues vs []).map (.tables (.table (settings ms) :: closed))
  | some _ => none

end InstrumentBus.Toml
