import AgentReply.Url.Basic

/-!
# Requests

The head of a request for what a URL stands for.
-/

namespace AgentReply.Http

def hostField (u : Url) : String :=
  let host := u.host.elim [] Url.Host.write
  String.ofList (host ++ u.port.elim [] fun port ↦ ':' :: (toString port).toList)

def request (u : Url) (fields : List (String × String)) : String :=
  let lines := fields.map fun (name, value) ↦ s!"{name}: {value}\r\n"
  s!"GET {u.target} HTTP/1.1\r\n" ++ String.join lines ++ "\r\n"

end AgentReply.Http
