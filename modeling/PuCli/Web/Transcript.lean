import PuCli.App.SessionRunner

namespace PuCli

open Json

structure Page where
  jsonParse : String → Option Json
  stringOf : Json → String

inductive Prose where
  | thinking
  | text
  deriving DecidableEq

inductive CallState where
  | running
  | pending
  | interrupted
  | done
  deriving DecidableEq

structure CallBlock where
  id : String
  name : String
  args : Json
  output : String
  error : String
  status : CallState
  deriving DecidableEq

inductive PageBlock where
  | prose (kind : Prose) (content : String)
  | toolCall (call : CallBlock)
  deriving DecidableEq

def appendAtEnd (kind : Prose) (text : String) (blocks : List PageBlock) : List PageBlock :=
  match blocks.getLast? with
  | some (.prose last content) =>
      if last = kind then blocks.dropLast ++ [.prose kind (content ++ text)]
      else blocks ++ [.prose kind text]
  | _ => blocks ++ [.prose kind text]

def settleFirst (id output error : String) : List PageBlock → List PageBlock
  | [] => []
  | .prose kind content :: blocks => .prose kind content :: settleFirst id output error blocks
  | .toolCall call :: blocks =>
      if call.id = id then
        .toolCall { call with output := output, error := error, status := .done } :: blocks
      else .toolCall call :: settleFirst id output error blocks

def PageBlock.hasId (id : String) : PageBlock → Bool
  | .prose _ _ => false
  | .toolCall call => call.id = id

def handleChunk (text : String) (blocks : List PageBlock) : List PageBlock :=
  appendAtEnd .text text blocks

def handleThinking (text : String) (blocks : List PageBlock) : List PageBlock :=
  if text = "" then blocks else appendAtEnd .thinking text blocks

def handleToolStart (id name : String) (args : Json) (blocks : List PageBlock) : List PageBlock :=
  blocks ++ [.toolCall ⟨id, name, args, "", "", .running⟩]

def handleToolEnd (id name : String) (args : Json) (output error : String)
    (blocks : List PageBlock) : List PageBlock :=
  if blocks.any (PageBlock.hasId id) then settleFirst id output error blocks
  else blocks ++ [.toolCall ⟨id, name, args, output, error, .done⟩]

def dispatchFrame (blocks : List PageBlock) : Frame → List PageBlock
  | .chunk text => handleChunk text blocks
  | .thinking text => handleThinking text blocks
  | .toolStart id name args => handleToolStart id name args blocks
  | .toolEnd id name args output error => handleToolEnd id name args output error blocks
  | .error _ => []
  | _ => blocks

def liveBlocks (frames : List Frame) : List PageBlock := frames.foldl dispatchFrame []

structure HistoryItem where
  id : Int
  role : Role
  content : String
  fromPeer : String
  toolCalls : List Json
  toolCallStatus : List String
  toolCallId : String
  reasoning : List Json
  output : String
  error : String
  usage : Option TurnUsage

def viewStatus : ToolCallStatus → String
  | .completed => "done"
  | .interrupted => "interrupted"
  | .pending => "pending"

def projectReasoning (blocks : List ReasoningBlock) : List Json :=
  blocks.map (fun block =>
    if block.raw = .null then
      .object (("text", .string block.text) ::
        if block.signature = "" then [] else [("signature", .string block.signature)])
    else block.raw)

def historyItem (text : JsonText) (usage : Option TurnUsage) (node : MessageNode) (position : Int) :
    HistoryItem :=
  let msg := renderMessage node position
  let parsed := parseToolResult text msg.content
  { id := msg.id
    role := msg.role
    content := msg.content
    fromPeer := msg.fromPeer
    toolCalls := if msg.hasToolCalls then msg.toolCalls.asArray else []
    toolCallStatus := if msg.hasToolCalls then
      node.payload.records.map (fun r => viewStatus r.status) else []
    toolCallId := msg.toolCallId
    reasoning := projectReasoning msg.reasoning
    output := if msg.role = .tool then (if parsed.valid then parsed.output else msg.content) else ""
    error := if msg.role = .tool then parsed.error else ""
    usage := usage }

def historyFromNode (text : JsonText) (s : Session) : Nat → List MessageNode → List HistoryItem
  | _, [] => []
  | before, node :: nodes =>
      historyItem text s.usage[node.id]? node (before + 1) :: historyFromNode text s (before + 1) nodes

def handleApiHistory (text : JsonText) (s : Session) : List HistoryItem :=
  historyFromNode text s 0 s.conversation.chain

def parseToolArguments (page : Page) : Option Json → Json
  | none => .null
  | some (.string raw) => (page.jsonParse raw).getD (.string raw)
  | some args => args

def callStatus : Option String → CallState
  | none => .done
  | some stored =>
      if stored = "pending" then .pending
      else if stored = "interrupted" then .interrupted
      else .done

def textMember (page : Page) (block : Json) : String :=
  match block.get? "text" with
  | none => ""
  | some (.string text) => text
  | some other => page.stringOf other

def thinkingText (page : Page) (item : HistoryItem) : String :=
  String.join (item.reasoning.map (textMember page))

def wordOr (default : String) : Option Json → String
  | some (.string word) => if word = "" then default else word
  | _ => default

def toolCallBlock (page : Page) (call : Json) (status : CallState) : PageBlock :=
  let fn := (call.get? "function").getD (.object [])
  .toolCall ⟨wordOr "unknown" (call.get? "id"), wordOr "unknown" (fn.get? "name"),
    parseToolArguments page (fn.get? "arguments"), "", "", status⟩

def toolCallBlocks (page : Page) : List Json → List String → List PageBlock
  | [], _ => []
  | call :: calls, statuses =>
      toolCallBlock page call (callStatus statuses.head?) :: toolCallBlocks page calls statuses.tail

structure Bubble where
  blocks : List PageBlock := []
  usage : Option TurnUsage := none

inductive Entry where
  | system (text : String)
  | user (text : String) (turn : Int) (fromPeer : String)
  | assistant (bubble : Bubble)

structure Grouping where
  turns : List Entry := []
  reply : Option Bubble := none

namespace Grouping

def closeReply (g : Grouping) : Grouping :=
  match g.reply with
  | none => g
  | some bubble => { turns := g.turns ++ [.assistant bubble] }

def currentReply (g : Grouping) : Bubble := g.reply.getD {}

def foldAssistant (page : Page) (item : HistoryItem) (bubble : Bubble) : Bubble :=
  let thought := thinkingText page item
  let blocks :=
    if thought = "" then bubble.blocks else appendAtEnd .thinking thought bubble.blocks
  let blocks := blocks ++ toolCallBlocks page item.toolCalls item.toolCallStatus
  { blocks := if item.content = "" then blocks else appendAtEnd .text item.content blocks
    usage := item.usage.or bubble.usage }

def foldTool (item : HistoryItem) (bubble : Bubble) : Bubble :=
  { bubble with blocks := settleFirst item.toolCallId item.output item.error bubble.blocks }

def fold (page : Page) (g : Grouping) (item : HistoryItem) : Grouping :=
  match item.role with
  | .system => { turns := g.closeReply.turns ++ [.system item.content] }
  | .user => { turns := g.closeReply.turns ++ [.user item.content item.id item.fromPeer] }
  | .tool => { g with reply := some (foldTool item g.currentReply) }
  | .assistant => { g with reply := some (foldAssistant page item g.currentReply) }

end Grouping

def groupHistory (page : Page) (history : List HistoryItem) : List Entry :=
  (history.foldl (Grouping.fold page) {}).closeReply.turns

def Entry.blocks : Entry → List PageBlock
  | .assistant bubble => bubble.blocks
  | _ => []

def Entry.asks (turn : Int) : Entry → Bool
  | .user _ id _ => id = turn
  | _ => false

def blocksOfTurn (turn : Int) (entries : List Entry) : List PageBlock :=
  (entries.dropWhile (fun entry => !entry.asks turn)).flatMap Entry.blocks

end PuCli
