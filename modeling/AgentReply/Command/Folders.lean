import AgentReply.Command.Host
import AgentReply.Files.Path

/-!
# Creating folders

A folder is created with those above it, as far as they are missing. It is no error if it is there.
-/

namespace AgentReply

variable {m : Type → Type} [Monad m] [Host m]

/-- Creates a folder, where it does no harm if it is there. -/
def ensureFolder (path : String) : m (Except FileError Unit) := do
  match ← Host.createFolder path with
  | .ok () => return .ok ()
  | .error e => if ← Host.isFolder path then return .ok () else return .error e

/-- Creates a folder, and at most so many folders above it. -/
def createFoldersWithin (path : String) : Nat → m (Except FileError Unit)
  | 0 => return .error .missing
  | depth + 1 => do
    match ← ensureFolder path, Path.parent? path with
    | .error .missing, some parent =>
      if parent.isEmpty then return .error .missing
      match ← createFoldersWithin parent depth with
      | .ok () => ensureFolder path
      | .error e => return .error e
    | result, _ => return result

/-- Creates a folder and those above it. The empty path stands for the present folder, which is there. -/
def createFolders (path : String) : m (Except FileError Unit) :=
  if path.isEmpty then return .ok ()
  else createFoldersWithin path ((Path.names path).length + 1)

end AgentReply
