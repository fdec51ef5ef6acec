/-!
# Paths

`joinText` puts texts together with slashes and changes nothing else. A `Path` is a text cut into
its parts: repeated slashes and single dots vanish, double dots stay, and of the slashes in front
one or exactly two are kept.
-/

namespace TreeParty

def joinText (front back : String) : String :=
  if back.startsWith "/" then back
  else if front.isEmpty || front.endsWith "/" then front ++ back
  else front ++ "/" ++ back

structure Path where
  /-- The slashes in front: none, one or two. -/
  root : String
  parts : List String
  deriving DecidableEq, Repr

namespace Path

def pieces (text : String) : List String :=
  (text.toList.splitOn '/').map String.ofList

def rootOf (text : String) : String :=
  match (text.toList.takeWhile (· == '/')).length with
  | 0 => ""
  | 2 => "//"
  | _ => "/"

def ofText (text : String) : Path :=
  ⟨rootOf text, (pieces text).filter fun piece => !piece.isEmpty && piece != "."⟩

/-- Puts a path behind another; an absolute one replaces it. -/
def join (front back : Path) : Path :=
  if back.root.isEmpty then ⟨front.root, front.parts ++ back.parts⟩ else back

def text (p : Path) : String :=
  if p.root.isEmpty && p.parts.isEmpty then "."
  else p.root ++ String.intercalate "/" p.parts

end Path
end TreeParty
