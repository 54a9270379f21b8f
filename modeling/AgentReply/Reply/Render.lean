import AgentReply.Json.Writer
import AgentReply.Reply.Record
import AgentReply.Text.Lines

/-!
# Replies as text

A reply is shown as one block of lines for each key, with the untagged runs between the blocks. The
collections are shown by their records, all else as an indented tree.
-/

namespace AgentReply

namespace Render

def indent (depth : Nat) : String :=
  String.ofList (List.replicate (2 * depth) ' ')

def mark (complete : Bool) : String :=
  if complete then "" else " (incomplete)"

/-- A labelled text: on one line, or below the label if it has line breaks. -/
def leaf (depth : Nat) (label text : String) (complete : Bool) : List String :=
  if text.toList.contains '\n' then
    s!"{indent depth}{label}:{mark complete}" ::
      (Text.lines text).map fun line ↦ s!"{indent (depth + 1)}{line}"
  else [s!"{indent depth}{label}: {text}{mark complete}"]

mutual

def node (depth : Nat) : Node → List String
  | .leaf name text complete => leaf depth name text complete
  | .branch name children complete =>
    s!"{indent depth}{name}:{mark complete}" :: nodes (depth + 1) children

def nodes (depth : Nat) : List Node → List String
  | [] => []
  | n :: rest => node depth n ++ nodes depth rest

end

def entry (key : String) : Entry → List String
  | .leaf text complete => leaf 0 key text complete
  | .nested children complete => s!"{key}:{mark complete}" :: nodes 1 children
  | .sequence items complete => s!"{key}:{mark complete}" :: nodes 1 items

/-- The number of a record, counted from one, in brackets. -/
def number (index : Nat) : String := s!"[{index + 1}]"

def artifact (index : Nat) (a : Artifact) : List String :=
  let label := (a.title.or a.identifier).getD "untitled"
  let detail :=
    match a.kind.toList ++ a.language.toList with
    | [] => ""
    | details => " (" ++ ", ".intercalate details ++ ")"
  s!"{indent 1}{number index} {label}{detail}{mark a.complete}" ::
    ((a.trimmedContent.map Text.lines).getD []).map fun line ↦ s!"{indent 2}{line}"

def toolCall (index : Nat) (c : ToolCall) : List String :=
  let arguments := (Json.object c.arguments).compact
  [s!"{indent 1}{number index} {c.name} {arguments}{mark c.complete}"]

def toolResult (index : Nat) (r : ToolResult) : List String :=
  let label := s!"{number index} {r.name}"
  match r.result with
  | some text => leaf 1 label text r.complete
  | none => [s!"{indent 1}{label}{mark r.complete}"]

def block (r : Reply) (key : String) (e : Entry) : List String :=
  let titled (records : List (List String)) : List String :=
    s!"{key}:{mark e.complete}" :: records.flatten
  match key with
  | "artifacts" => titled (r.artifacts.mapIdx artifact)
  | "tool_calls" => titled (r.toolCalls.mapIdx toolCall)
  | "tool_call_results" => titled (r.toolResults.mapIdx toolResult)
  | _ => entry key e

/-- The blocks of the entries, of which the first is entry number `index`, each after the untagged runs
that stand before it. -/
def blocks (r : Reply) (index : Nat) (untagged : List Untagged) :
    List (String × Entry) → List String
  | [] => untagged.map Untagged.text
  | (key, e) :: rest =>
    let before := untagged.takeWhile fun run ↦ run.entry ≤ index
    let after := untagged.dropWhile fun run ↦ run.entry ≤ index
    before.map Untagged.text ++ block r key e ++ blocks r (index + 1) after rest

end Render

/-- The lines that show a reply. An untagged run counts as one line. -/
def Reply.lines (r : Reply) : List String :=
  Render.blocks r 0 r.untagged r.entries

/-- The text that shows a reply; every line is ended. -/
def Reply.render (r : Reply) : String :=
  String.join (r.lines.map fun line ↦ line ++ "\n")

end AgentReply
