import AgentReply.Watch.Wired

/-!
# Plans of watches

All that a watch needs before its first connection.
-/

namespace AgentReply

structure WatchPlan where
  session : Session
  options : Watch.Options
  /-- Where the channels connect. -/
  endpoints : Endpoints

/-- Begins a watch; the key with which the socket of a generation opens is given by `keyOf`. -/
def WatchPlan.begin [Idna] (p : WatchPlan) (keyOf : Nat → String) : List Effect × WiredWatch :=
  let w : WiredWatch :=
    { watch := Watch.begin p.session p.options, endpoints := p.endpoints, keyOf := keyOf }
  w.start

end AgentReply
