import TreeParty.Files.Tree
import TreeParty.Json
import TreeParty.Settings.Table
/-!
# Settings files

A file of settings is a JSON document with one object, whose entries replace those of the settings
table.
-/

namespace TreeParty
namespace SettingsFile

def read (path : String) (content : Bytes) : Except Fault Dict :=
  match decodeText content with
  | none => .error (.misuse .undecodable)
  | some document =>
    match Json.read document with
    | .ok (.dict entries) => .ok entries
    | .ok _ => .error (.configuration (.settingsNotDictionary path))
    | .error .malformed => .error (.configuration (.settingsUnreadable path "not a document"))
    | .error .tooManyDigits => .error (.misuse .tooManyDigits)

def load (path : String) (entry : FileEntry) (settings : Settings) : Except Fault Settings :=
  match entry with
  | .file content => do return (settings.update (.dict (← read path content))).2
  | .unnameable => .error (.misuse .pathContent)
  | _ => .error (.configuration (.settingsUnreadable path "no such file"))

end SettingsFile
end TreeParty
