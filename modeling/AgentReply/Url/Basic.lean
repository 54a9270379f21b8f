import AgentReply.Url.Host

/-!
# URLs

The parts of a URL, all of them encoded, and its written form.
-/

namespace AgentReply

inductive Url.Path where
  | segments (parts : List (List Char))
  /-- The rest of a URL without a hierarchy, such as `mailto:x`. -/
  | plain (rest : List Char)
deriving DecidableEq, Repr

structure Url where
  scheme : String
  username : List Char := []
  password : List Char := []
  host : Option Url.Host := none
  port : Option Nat := none
  path : Url.Path := .segments []
  query : Option (List Char) := none
  fragment : Option (List Char) := none
deriving DecidableEq, Repr

namespace Url

/-- The schemes whose URLs always have a host and a path. -/
def specialPorts : List (String × Nat) :=
  [("http", 80), ("https", 443), ("ws", 80), ("wss", 443), ("ftp", 21)]

def isSpecialScheme (scheme : String) : Bool := (specialPorts.lookup scheme).isSome

/-- A port that is worth writing: not the one that a scheme has anyway. -/
def givenPort (scheme : String) (port : Nat) : Option Nat :=
  if specialPorts.lookup scheme = some port then none else some port

def Path.write : Path → List Char
  | .segments parts => parts.flatMap ('/' :: ·)
  | .plain rest => rest

def writeUserinfo (u : Url) : List Char :=
  if u.username.isEmpty && u.password.isEmpty then []
  else
    u.username ++ (if u.password.isEmpty then [] else ':' :: u.password) ++ ['@']

def writeAuthority (u : Url) : List Char :=
  match u.host with
  | none => if u.scheme == "file" then ['/', '/'] else []
  | some host =>
    '/' :: '/' :: u.writeUserinfo ++ host.write ++
      (u.port.elim [] fun port ↦ ':' :: (toString port).toList)

def write (u : Url) : List Char :=
  u.scheme.toList ++ ':' :: u.writeAuthority ++ u.path.write ++
    (u.query.elim [] ('?' :: ·)) ++ (u.fragment.elim [] ('#' :: ·))

def text (u : Url) : String := String.ofList u.write

/-- The part of a URL that a request asks for: the path and the query. -/
def target (u : Url) : String :=
  String.ofList (u.path.write ++ u.query.elim [] ('?' :: ·))

end Url
end AgentReply
