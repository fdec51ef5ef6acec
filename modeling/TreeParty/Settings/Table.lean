import TreeParty.Column.Splits
import TreeParty.FixedPoint
import TreeParty.Text.Real
/-!
# The settings table

All parties of a computation must agree on its widths and limits. `Settings` holds them by name,
together with copies of the three that are consulted most; an update changes the table first and,
when it went through, the copies.
-/

namespace TreeParty

structure Settings where
  table : Dict
  precision : Value
  maxSplitNum : Value
  sentinel : Value

namespace Settings

def defaultShare : Binary64 := Binary64.ofDecimal false 8 (-1)

def defaultTable : Dict := [
  (.text "SPDZ_FIXED_PRECISION", .int 8),
  (.text "MAX_SPLIT_NUM", .int 8),
  (.text "SPLIT_SENTINEL", .float (Binary64.ofDecimal true 1 0)),
  (.text "SPLIT_PERCENTAGE", .float defaultShare),
  (.text "LABEL_HOLDER_ID", .int 0),
  (.text "DEFAULT_PORT_BASE", .int 20000),
  (.text "DEFAULT_HOST", .text "127.0.0.1"),
  (.text "CLIENT_ID_BYTES", .int 4),
  (.text "FRAME_LENGTH_BYTES", .int 8),
  (.text "PREP_DIR", .text "Player-Data"),
  (.text "PRIME_BITS", .int 128),
  (.text "GF2N_DEGREE", .int 40),
  (.text "PARAMS_FILE_NAME", .text "Params-Data"),
  (.text "DATA_DIR", .text "data"),
  (.text "DEFAULT_DATASET", .text "bank_marketing_data"),
  (.text "TREE_TYPE_CLASSIFICATION", .int 0),
  (.text "TREE_TYPE_REGRESSION", .int 1)]

def entry (table : Dict) (name : String) : Value := (table.get? (.text name)).getD .null

def ofTable (table : Dict) : Settings where
  table := table
  precision := entry table "SPDZ_FIXED_PRECISION"
  maxSplitNum := entry table "MAX_SPLIT_NUM"
  sentinel := entry table "SPLIT_SENTINEL"

def default : Settings := ofTable defaultTable

instance : Inhabited Settings := ⟨default⟩

/-! ## Updates -/

/-- The items of a value that can be gone through: a text gives its characters, a dictionary its
keys. -/
def items? : Value → Option (List Value)
  | .list xs => some xs
  | .tuple xs => some xs
  | .record _ _ _ xs => some xs
  | .text s => some (s.toList.map fun c => .text c.toString)
  | .dict entries => some (entries.map (·.1))
  | _ => none

/-- The key and value that an item of a sequence of pairs stands for. -/
def pair? (item : Value) : Except Fault (Value × Value) :=
  match items? item with
  | none => .error (.misuse .settingKind)
  | some [key, value] =>
    if key.isKey then .ok (key, value) else .error (.misuse .settingKind)
  | some _ => .error (.misuse .settingContent)

def applyPairs : List Value → Dict → Except Fault Unit × Dict
  | [], table => (.ok (), table)
  | item :: rest, table =>
    match pair? item with
    | .ok (key, value) => applyPairs rest (table.put key value)
    | .error fault => (.error fault, table)

def applyTo (update : Value) (table : Dict) : Except Fault Unit × Dict :=
  match update with
  | .dict entries => (.ok (), table.putAll entries)
  | v =>
    match items? v with
    | some items => applyPairs items table
    | none => (.error (.misuse .settingKind), table)

/-- Updates the settings. Pairs before a bad one stay applied, but the copies are taken anew only
when all went well. -/
def update (change : Value) (s : Settings) : Except Fault Unit × Settings :=
  match applyTo change s.table with
  | (.ok (), table) => (.ok (), ofTable table)
  | (.error fault, table) => (.error fault, { s with table := table })

/-! ## Reading -/

def get (s : Settings) (name : String) : Value := entry s.table name

/-- A whole number, or a truth value that counts as one. -/
def wholeNumber : Value → Except Fault Int
  | .int n => .ok n
  | .bool b => .ok (if b then 1 else 0)
  | _ => .error (.misuse .settingKind)

def textOf : Value → Except Fault String
  | .text s => .ok s
  | _ => .error (.misuse .settingKind)

def fixedPrecision (s : Settings) : Precision := .ofValue (s.get "SPDZ_FIXED_PRECISION")

def splitLimit (s : Settings) : SplitLimit := .ofValue (s.get "MAX_SPLIT_NUM")

/-- The first port; a double will do if it has the value of a whole number. -/
def portBase (s : Settings) : Except Fault Int :=
  match s.get "DEFAULT_PORT_BASE" with
  | .float x =>
    match x.trunc with
    | .ok n => if x.equalsInt n then .ok n else .error (.misuse .settingKind)
    | .error _ => .error (.misuse .settingKind)
  | v => wholeNumber v

/-- The sentinel of unused split slots as a double; no value means NaN. -/
def splitSentinel (s : Settings) : Except Fault Binary64 :=
  match s.get "SPLIT_SENTINEL" with
  | .null => .ok .nan
  | .float x => .ok x
  | .nan _ => .ok .nan
  | .text t => (Text.real? t).elim (.error (.misuse .settingContent)) .ok
  | v => do
    match Binary64.ofInt? (← wholeNumber v) with
    | some x => return x
    | none => throw (.misuse .tooLarge)

def defaultHosts (s : Settings) (engineCount : Int) : List String :=
  List.replicate engineCount.toNat (s.get "DEFAULT_HOST").display

end Settings
end TreeParty
