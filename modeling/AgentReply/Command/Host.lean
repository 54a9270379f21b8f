import AgentReply.Files.Error

/-!
# Hosts

What a command needs of the machine that it runs on.
-/

namespace AgentReply

class Host (m : Type → Type) where
  /-- The value of a variable of the environment. -/
  lookup? : String → m (Option String)
  /-- The home folder of the account. -/
  accountHome? : m (Option String)
  isThere : String → m Bool
  readFile : String → m (Except FileError (List UInt8))
  writeFile : String → List UInt8 → m (Except FileError Unit)
  isFolder : String → m Bool
  createFolder : String → m (Except FileError Unit)
  readInput : m (List UInt8)
  print : String → m Unit

/-- What can be done on a host can be done where failures are possible. -/
instance {ε : Type} {m : Type → Type} [Monad m] [Host m] : Host (ExceptT ε m) where
  lookup? name := ExceptT.lift (Host.lookup? name)
  accountHome? := ExceptT.lift Host.accountHome?
  isThere path := ExceptT.lift (Host.isThere path)
  readFile path := ExceptT.lift (Host.readFile path)
  writeFile path content := ExceptT.lift (Host.writeFile path content)
  isFolder path := ExceptT.lift (Host.isFolder path)
  createFolder path := ExceptT.lift (Host.createFolder path)
  readInput := ExceptT.lift Host.readInput
  print text := ExceptT.lift (Host.print text)

end AgentReply
