/-!
The files under a working directory, and how a name finds one of them or fails to.
-/
namespace FormulaLex

/-- A path from the working directory down, without dots and empty components. -/
abbrev Path := List String

inductive OpenError where
  | embeddedNull
  | missing
  | isDirectory
  | notDirectory
  | nameTooLong
  | permissionDenied
  deriving DecidableEq, Repr

def OpenError.reason : OpenError → String
  | embeddedNull => "embedded null byte"
  | missing => "No such file or directory"
  | isDirectory => "Is a directory"
  | notDirectory => "Not a directory"
  | nameTooLong => "File name too long"
  | permissionDenied => "Permission denied"

structure FileTree where
  files : List (Path × List UInt8) := []
  directories : List Path := []

namespace FileTree

/-- The longest component and the longest name that can be looked up, in bytes. -/
def maxComponent : Nat := 255

def maxName : Nat := 4095

/-- The components of a name. -/
def components (name : String) : List String := name.splitOn "/"

/-- The path of a name that has no dots. -/
def pathOf (name : String) : Path := (components name).filter (· != "")

def file? (t : FileTree) (p : Path) : Option (List UInt8) := t.files.lookup p

/-- A directory is listed, or something lies under it; the working directory always is one. -/
def isDirectory (t : FileTree) (p : Path) : Bool :=
  p.isEmpty || t.directories.any (p.isPrefixOf ·) ||
    t.files.any fun (q, _) => p.isPrefixOf q && p.length < q.length

/-- Where a walk has come to: a path in the tree, or somewhere outside of it. -/
inductive Place where
  | inside (p : Path)
  | outside
  deriving DecidableEq, Repr

/-- The directory above; above the working directory lies the outside. -/
def Place.parent : Place → Place
  | inside [] => outside
  | inside p => inside p.dropLast
  | outside => outside

/-- Nothing is known to lie outside but directories without files. -/
def child? (t : FileTree) (place : Place) (component : String) : Option Place :=
  match place with
  | .outside => none
  | .inside p =>
    let q := p ++ [component]
    if (t.file? q).isSome || t.isDirectory q then some (.inside q) else none

/-- Follows components from a place, which has to be a directory if any are left. -/
def walk (t : FileTree) : Place → List String → Except OpenError Place
  | place, [] => .ok place
  | place, component :: rest =>
    let blocked := match place with
      | .inside p => !t.isDirectory p
      | .outside => false
    if blocked then .error .notDirectory
    else if component == "" || component == "." then t.walk place rest
    else if component == ".." then t.walk place.parent rest
    else if component.utf8ByteSize > maxComponent then .error .nameTooLong
    else match t.child? place component with
      | some place => t.walk place rest
      | none => .error .missing

/-- The content of the file of a name. -/
def open? (t : FileTree) (name : String) : Except OpenError (List UInt8) :=
  if name.toList.contains (Char.ofNat 0) then .error .embeddedNull
  else if name == "" then .error .missing
  else if name.utf8ByteSize > maxName then .error .nameTooLong
  else
    let start := if name.toList.head? == some '/' then Place.outside else Place.inside []
    match t.walk start (components name) with
    | .error e => .error e
    | .ok .outside => .error .isDirectory
    | .ok (.inside p) =>
      match t.file? p with
      | some bytes => .ok bytes
      | none => .error .isDirectory

end FileTree

end FormulaLex
