import PuCli.Session.GraphCodec

namespace PuCli

open Json

def renderMessage (node : MessageNode) (position : Int) : ChatMessage :=
  match node.payload with
  | .user p =>
      { id := position, timestamp := node.timestamp, role := .user, content := p.content,
        fromPeer := p.fromPeer }
  | .assistant p =>
      { id := position, timestamp := node.timestamp, role := .assistant, content := p.content,
        reasoning := p.reasoning,
        toolCalls := if p.toolCalls.isEmpty then .null
          else .array (p.toolCalls.map toolCallToJson) }
  | .system p =>
      { id := position, timestamp := node.timestamp, role := .system, content := p.content }
  | .tool p =>
      { id := position, timestamp := node.timestamp, role := .tool, content := p.content,
        toolName := p.toolName, toolCallId := p.toolCallId }

structure Newer where
  rank : Nat
  buffer : String

def pageOrigin (node : MessageNode) : Option Origin :=
  match node.payload with
  | .tool p => p.origin
  | _ => none

def supersededFrom (newerBehind : String → Newer) : List MessageNode → List (Option String)
  | [] => []
  | node :: earlier =>
      match pageOrigin node with
      | none => none :: supersededFrom newerBehind earlier
      | some page =>
          let seen := newerBehind page.source
          let newest := if seen.rank < page.rank then ⟨page.rank, page.buffer⟩ else seen
          (if page.rank < seen.rank then some seen.buffer else none) ::
            supersededFrom (Function.update newerBehind page.source newest) earlier

def supersededPages (chain : List MessageNode) : List (Option String) :=
  (supersededFrom (fun _ => ⟨0, ""⟩) chain.reverse).reverse

structure RequestInputs where
  systemPrompt : String
  environment : String

def systemText (inputs : RequestInputs) : String :=
  if inputs.environment = "" then inputs.systemPrompt
  else if inputs.systemPrompt = "" then inputs.environment
  else inputs.systemPrompt ++ "\n\n" ++ inputs.environment

def systemMessages (inputs : RequestInputs) : List ChatMessage :=
  if systemText inputs = "" then [] else [{ role := .system, content := systemText inputs }]

def shownContent (text : JsonText) (content : String) : Option String → Except String String
  | none => .ok content
  | some buffer => Origin.supersededReceipt text content buffer

def renderPath (text : JsonText) (position : Int) :
    List (MessageNode × Option String) → Except String (List ChatMessage)
  | [] => .ok []
  | (node, replaced) :: rest => do
      let msg := renderMessage node position
      let content ← shownContent text msg.content replaced
      let later ← renderPath text (position + 1) rest
      .ok ({ msg with content := content } :: later)

def buildRequestPath (text : JsonText) (graph : MessageGraph) (inputs : RequestInputs) :
    Except String (List ChatMessage) := do
  let system := systemMessages inputs
  let turns ← renderPath text (system.length + 1) (graph.chain.zip (supersededPages graph.chain))
  .ok (system ++ turns)

end PuCli
