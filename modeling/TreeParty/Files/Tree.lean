import TreeParty.Bytes
import TreeParty.Files.Path
/-!
# File trees

What a path leads to, and a tree of files that are known beforehand. A path is followed name by name
from the directory of the tree; a name that leads through a file, out of the tree or to nothing ends
the search.
-/

namespace TreeParty

inductive FileEntry where
  | file (content : Bytes)
  | directory
  | missing
  /-- The path holds a zero character, which no name does. -/
  | unnameable

structure FileTree where
  files : List (Path × Bytes)
  directories : List Path

namespace FileTree

def holds (tree : FileTree) (parts : List String) : Bool :=
  (tree.files.any fun entry => parts.isPrefixOf entry.1.parts)
    || tree.directories.any fun path => parts.isPrefixOf path.parts

def entryAt (tree : FileTree) (parts : List String) : FileEntry :=
  match tree.files.find? fun entry => entry.1.parts == parts with
  | some entry => .file entry.2
  | none => if parts.isEmpty || tree.holds parts then .directory else .missing

/-- Follows names from a directory; each name before the last must lead to a directory. -/
def follow (tree : FileTree) : List String → List String → FileEntry
  | here, [] => tree.entryAt here
  | here, name :: rest =>
    match tree.entryAt here with
    | .directory =>
      if name.isEmpty || name == "." then tree.follow here rest
      else if name == ".." then
        if here.isEmpty then .missing else tree.follow here.dropLast rest
      else tree.follow (here ++ [name]) rest
    | _ => .missing

/-- What a path leads to. Nothing lies outside the tree, and the empty text is no path. -/
def look (tree : FileTree) (path : String) : FileEntry :=
  if path.contains '\x00' then .unnameable
  else if path.isEmpty then .missing
  else if path.startsWith "/" then
    if (Path.ofText path).parts.isEmpty then .directory else .missing
  else tree.follow [] (Path.pieces path)

end FileTree

/-- The text of a file, if its bytes are text. -/
def decodeText (content : Bytes) : Option String := String.fromUTF8? ⟨content.toArray⟩

end TreeParty
