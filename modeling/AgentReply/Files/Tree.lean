import AgentReply.Files.Error
import AgentReply.Files.Path

/-!
# File trees

Folders and files with their contents. Each is known by its place: the names that lead to it from the
root, without detours.
-/

namespace AgentReply

abbrev Place := List String

structure FileTree where
  /-- The place where relative paths begin. -/
  here : Place := []
  folders : List Place := []
  files : List (Place × List UInt8) := []
deriving DecidableEq, Repr

namespace FileTree

def isFolder (t : FileTree) (place : Place) : Bool := place.isEmpty || t.folders.contains place

def file? (t : FileTree) (place : Place) : Option (List UInt8) := t.files.lookup place

def maxNameLength : Nat := 255

/-- Follows names from a place. Each of them leads on from a folder only; the last one may lead to
nothing. -/
def walk (t : FileTree) (place : Place) : List String → Except FileError Place
  | [] => .ok place
  | name :: names =>
    if (t.file? place).isSome then .error .notFolder
    else if !t.isFolder place then .error .missing
    else if Path.isIdle name then t.walk place names
    else if name == ".." then t.walk place.dropLast names
    else if maxNameLength < name.utf8ByteSize then .error .nameTooLong
    else t.walk (place ++ [name]) names

/-- The place of a path, at which there need not be anything. -/
def locate (t : FileTree) (path : String) : Except FileError Place :=
  if path.toList.contains (Char.ofNat 0) then .error .nullInName
  else if path.isEmpty then .error .missing
  else t.walk (if path.startsWith "/" then [] else t.here) (path.splitOn "/")

def isFolderAt (t : FileTree) (path : String) : Bool :=
  match t.locate path with
  | .ok place => t.isFolder place
  | .error _ => false

def isThere (t : FileTree) (path : String) : Bool :=
  match t.locate path with
  | .ok place => t.isFolder place || (t.file? place).isSome
  | .error _ => false

def read (t : FileTree) (path : String) : Except FileError (List UInt8) := do
  let place ← t.locate path
  if t.isFolder place then throw .isFolder
  match t.file? place with
  | some content => return content
  | none => throw .missing

def write (t : FileTree) (path : String) (content : List UInt8) : Except FileError FileTree := do
  let place ← t.locate path
  if t.isFolder place then throw .isFolder
  return { t with files := (place, content) :: t.files.filter (·.1 != place) }

def createFolder (t : FileTree) (path : String) : Except FileError FileTree := do
  let place ← t.locate path
  if t.isFolder place || (t.file? place).isSome then throw .present
  return { t with folders := place :: t.folders }

end FileTree
end AgentReply
