import AgentReply.Command.Host
import AgentReply.Files.Tree

/-!
# Machines

A host that is a value: what a command does with it can be computed and reasoned about.
-/

namespace AgentReply

structure Machine where
  environment : List (String × String) := []
  accountHome : Option String := none
  files : FileTree := {}
  input : List UInt8 := []
  output : String := ""

namespace Machine

def change (change : FileTree → Except FileError FileTree) : StateM Machine (Except FileError Unit) :=
  fun m ↦
    match change m.files with
    | .ok files => (.ok (), { m with files := files })
    | .error e => (.error e, m)

instance : Host (StateM Machine) where
  lookup? name := fun m ↦ (m.environment.lookup name, m)
  accountHome? := fun m ↦ (m.accountHome, m)
  isThere path := fun m ↦ (m.files.isThere path, m)
  readFile path := fun m ↦ (m.files.read path, m)
  writeFile path content := change (·.write path content)
  isFolder path := fun m ↦ (m.files.isFolderAt path, m)
  createFolder path := change (·.createFolder path)
  readInput := fun m ↦ (m.input, { m with input := [] })
  print text := fun m ↦ ((), { m with output := m.output ++ text })

end Machine
end AgentReply
