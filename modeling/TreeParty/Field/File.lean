import TreeParty.Field.Params
import TreeParty.Files.Tree
import TreeParty.Settings.Table
import TreeParty.Text.Blank
/-!
# Field parameter files

The engines leave the modulus and the degree of the binary field in a file, as two words; further
words are ignored. Where the file lies depends on the number of parties and on the settings.
-/

namespace TreeParty
namespace FieldFile

def directoryName (settings : Settings) (parties : Int) : String :=
  toString parties ++ "-" ++ (settings.get "PRIME_BITS").display ++ "-"
    ++ (settings.get "GF2N_DEGREE").display

/-- Where the parameters of a number of parties lie. Without a base directory the one of the
settings is used. -/
def path (settings : Settings) (parties : Int) (base : Option String) : Except Fault Path := do
  let base ← base.elim (Settings.textOf (settings.get "PREP_DIR")) .ok
  let name ← Settings.textOf (settings.get "PARAMS_FILE_NAME")
  return ((Path.ofText base).join (.ofText (directoryName settings parties))).join (.ofText name)

def ofWords (path : Path) : List String → Except Fault FieldParams
  | prime :: degree :: _ =>
    match Text.integer? prime, Text.integer? degree with
    | some prime, some degree => FieldParams.ofInts prime degree
    | _, _ => .error (.configuration (.parametersMalformed path.text "not whole numbers"))
  | _ => .error (.configuration (.parametersIncomplete path.text))

def read (path : Path) (content : Bytes) : Except Fault FieldParams :=
  match decodeText content with
  | some text => ofWords path (Text.words text)
  | none => .error (.misuse .undecodable)

def ofEntry (path : Path) : FileEntry → Except Fault FieldParams
  | .file content => read path content
  | .unnameable => .error (.misuse .pathContent)
  | _ => .error (.configuration (.parametersUnreadable path.text "no such file"))

end FieldFile
end TreeParty
