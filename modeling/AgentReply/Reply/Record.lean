import AgentReply.Reply.Arguments
import AgentReply.Reply.Basic

/-!
# Records in collections

The artifacts, tool calls and tool results that the items of the collections describe.
-/

namespace AgentReply

structure Artifact where
  identifier : Option String := none
  kind : Option String := none
  language : Option String := none
  title : Option String := none
  /-- The payload as it was received. -/
  content : Option String := none
  complete : Bool
deriving DecidableEq, Repr

def Artifact.ofNode (n : Node) : Artifact where
  identifier := n.childText? "identifier"
  kind := n.childText? "type"
  language := n.childText? "language"
  title := n.childText? "title"
  content := n.childText? "content"
  complete := n.complete

/-- The content without line breaks before it and blanks after it. -/
def Artifact.trimmedContent (a : Artifact) : Option String :=
  a.content.map fun text ↦
    String.ofList (Text.trimEnd (text.toList.dropWhile fun c ↦ c == '\n' || c == '\r'))

structure ToolCall where
  name : String
  arguments : List (String × Json)
  complete : Bool
deriving DecidableEq, Repr

def ToolCall.ofNode (n : Node) : ToolCall where
  name := (n.childText? "name").getD ""
  arguments := ((n.childText? "arguments").map Arguments.parse).getD []
  complete := n.complete

structure ToolResult where
  name : String
  result : Option String
  complete : Bool
deriving DecidableEq, Repr

def ToolResult.ofNode (n : Node) : ToolResult where
  name := (n.childText? "name").getD ""
  result := n.childText? "result"
  complete := n.complete

namespace Reply

def artifacts (r : Reply) : List Artifact := (r.items "artifacts").map Artifact.ofNode

def toolCalls (r : Reply) : List ToolCall := (r.items "tool_calls").map ToolCall.ofNode

def toolResults (r : Reply) : List ToolResult :=
  (r.items "tool_call_results").map ToolResult.ofNode

end Reply
end AgentReply
