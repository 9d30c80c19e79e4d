import PuCli.Session.Message

namespace PuCli

open Json

structure ToolContext where
  note : String
  peerOrigin : String

inductive Refusal where
  | none
  | policy
  | nobodyToAsk
  deriving DecidableEq

structure ToolResult where
  valid : Bool := false
  success : Bool := false
  blocked : Bool := false
  refusal : Refusal := .none
  output : String := ""
  error : String := ""

def makeToolResultJson (text : JsonText) (success : Bool) (output error : String) (exitCode : Int)
    (blocked : Bool) : String :=
  text.serialize (.object [("success", .bool success), ("blocked", .bool blocked),
    ("output", .string output), ("error", .string error), ("exit_code", .int64 exitCode)])

def makeRefusal (text : JsonText) (error : String) (blocked : Bool) : String :=
  makeToolResultJson text false "" error (-1) blocked

def parseToolResult (text : JsonText) (raw : String) : ToolResult :=
  match text.parse raw with
  | some (.object members) =>
      match find members "success" with
      | none => {}
      | some (.bool success) =>
          let j := Json.object members
          let blocked := valueOrDefault j "blocked" false
          { valid := true
            success := success
            blocked := blocked
            refusal := if valueOrDefault j "refusal" "" = "nobody_to_ask" then .nobodyToAsk
              else if blocked then .policy else .none
            output := valueOrDefault j "output" ""
            error := valueOrDefault j "error" "" }
      | some _ => { valid := true }
  | _ => {}

structure PeerEntry where
  name : String
  url : String
  deriving DecidableEq

structure PeerConfig where
  selfName : String
  token : String
  peers : List PeerEntry

def PeerConfig.findPeer (cfg : PeerConfig) (name : String) : Option PeerEntry :=
  cfg.peers.find? (fun entry => entry.name = name)

def PeerConfig.knows (cfg : PeerConfig) (name : String) : Bool := (cfg.findPeer name).isSome

structure Post where
  url : String
  body : String
  deriving DecidableEq

structure PeerWire where
  job : Except String String
  message : Except String String

structure PostedJob where
  id : String
  dueAt : String

namespace PeerTool

def name : String := "send_to_peer"

def kPeerPath : String := "/api/peer/message"

def kJobsPath : String := "/api/jobs"

def jobPost (text : JsonText) (cfg : PeerConfig) (peer : PeerEntry) (intent due : String) : Post :=
  ⟨peer.url ++ kJobsPath, text.serialize (.object
    ([("from", .string cfg.selfName), ("to", .string peer.name), ("intent", .string intent)] ++
      if due = "" then [] else [("due", .string due)]))⟩

def postJob (text : JsonText) (answer : Except String String) : Except String PostedJob := do
  let received ← answer
  match text.parse received with
  | none => .error (text.parseError received)
  | some reply =>
      match reply.get? "job" with
      | none => .error (text.kindError reply)
      | some job =>
          let id := valueOrDefault job "id" ""
          if id = "" then .error "the board did not return a job id"
          else .ok ⟨id, valueOrDefault job "due_at" ""⟩

def messagePost (text : JsonText) (cfg : PeerConfig) (peer : PeerEntry) (message : String)
    (job : PostedJob) : Post :=
  ⟨peer.url ++ kPeerPath, text.serialize (.object [("from", .string cfg.selfName),
    ("message", .string message), ("job", .string job.id), ("hop", .int64 1)])⟩

def send (text : JsonText) (answer : Except String String) : Except String Json := do
  let received ← answer
  match text.parse received with
  | none => .error (text.parseError received)
  | some reply => .ok reply

def originRefusal (origin : String) : String :=
  kPeerOriginNote ++ " (this turn was asked by '" ++ origin ++ "', so only '" ++ origin ++
    "' can be reached)"

def saidText (name : String) (job : PostedJob) (reply : Json) : String :=
  let turn := valueOrDefault reply "turn" ""
  let model := valueOrDefault reply "model" ""
  "Job '" ++ job.id ++ "' is on '" ++ name ++ "'s board and the turn is " ++
    (if turn = "" then "queued" else "'" ++ turn ++ "'") ++
    (if job.dueAt = "" then "" else ", due " ++ job.dueAt) ++
    (if model = "" then "" else ", running as " ++ model) ++
    ". It answers in a later turn, so do not wait for it or ask again."

def deliver (text : JsonText) (cfg : PeerConfig) (wire : PeerWire) (name message : String)
    (peer : PeerEntry) (job : PostedJob) : String × List Post :=
  let post := messagePost text cfg peer message job
  match send text wire.message with
  | .error what =>
      (makeRefusal text ("Job '" ++ job.id ++ "' was posted on '" ++ name ++
        "' but the message did not arrive: " ++ what) false, [post])
  | .ok reply =>
      if valueOrDefault reply "accepted" false then
        (makeToolResultJson text true (saidText name job reply) "" 0 false, [post])
      else
        (makeRefusal text ("Job '" ++ job.id ++ "' was posted but '" ++ name ++ "' refused it: " ++
          valueOrDefault reply "error" "the peer did not say why") false, [post])

def reach (text : JsonText) (cfg : PeerConfig) (wire : PeerWire) (args : Json)
    (name intent message : String) (peer : PeerEntry) : String × List Post :=
  let post := jobPost text cfg peer intent (valueOrDefault args "due" "")
  match postJob text wire.job with
  | .error what =>
      (makeRefusal text ("Peer '" ++ name ++ "' did not take the job, so nothing was sent: " ++
        what) false, [post])
  | .ok job =>
      let sent := deliver text cfg wire name message peer job
      (sent.1, post :: sent.2)

def execute (text : JsonText) (cfg : PeerConfig) (ctx : ToolContext) (wire : PeerWire)
    (args : Json) : String × List Post :=
  let name := valueOrDefault args "peer" ""
  let intent := valueOrDefault args "intent" ""
  let message := valueOrDefault args "message" ""
  if name = "" ∨ intent = "" ∨ message = "" then
    (makeRefusal text "A peer, an intent and a message are all required" true, [])
  else if ctx.peerOrigin ≠ "" ∧ name ≠ ctx.peerOrigin then
    (makeRefusal text (originRefusal ctx.peerOrigin) true, [])
  else match cfg.findPeer name with
    | none => (makeRefusal text ("No peer named '" ++ name ++ "' is configured") true, [])
    | some peer => reach text cfg wire args name intent message peer

theorem execute_confined {text : JsonText} {cfg : PeerConfig} {ctx : ToolContext} {wire : PeerWire}
    {args : Json} (ho : ctx.peerOrigin ≠ "")
    (hn : (valueOrDefault args "peer" "" : String) ≠ ctx.peerOrigin) :
    ∃ why, execute text cfg ctx wire args = (makeRefusal text why true, []) := by
  unfold execute
  dsimp only
  split
  · exact ⟨_,rfl⟩
  · rw [if_pos ⟨ho,hn⟩]
    exact ⟨_,rfl⟩

theorem execute_unrestricted {text : JsonText} {cfg : PeerConfig} {ctx : ToolContext}
    {wire : PeerWire} {args : Json} {peer : PeerEntry} (ho : ctx.peerOrigin = "")
    (hp : cfg.findPeer (valueOrDefault args "peer" "") = some peer)
    (hf : (valueOrDefault args "peer" "" : String) ≠ "" ∧
      (valueOrDefault args "intent" "" : String) ≠ "" ∧
      (valueOrDefault args "message" "" : String) ≠ "") :
    jobPost text cfg peer (valueOrDefault args "intent" "") (valueOrDefault args "due" "") ∈
      (execute text cfg ctx wire args).2 := by
  have hfull : ¬ ((valueOrDefault args "peer" "" : String) = "" ∨
      (valueOrDefault args "intent" "" : String) = "" ∨
      (valueOrDefault args "message" "" : String) = "") := by
    rintro (h | h | h)
    · exact hf.1 h
    · exact hf.2.1 h
    · exact hf.2.2 h
  have hopen : ¬ (ctx.peerOrigin ≠ "" ∧
      (valueOrDefault args "peer" "" : String) ≠ ctx.peerOrigin) := fun h => h.1 ho
  unfold execute
  simp only [if_neg hfull,if_neg hopen,hp]
  unfold reach
  dsimp only
  split <;> simp

end PeerTool

structure Toolbox where
  peers : Option PeerConfig
  names : List String

structure ToolAnswer where
  result : Except String String
  wire : PeerWire

namespace Toolbox

def executeTool (text : JsonText) (box : Toolbox) (ctx : ToolContext) (answer : ToolAnswer)
    (name : String) (args : Json) : Except String String × List Post :=
  match box.peers with
  | some cfg =>
      if name = PeerTool.name then
        let run := PeerTool.execute text cfg ctx answer.wire args
        (.ok run.1, run.2)
      else if name ∈ box.names then (answer.result, [])
      else (.ok (makeToolResultJson text false "" ("Tool not found: " ++ name) (-1) false), [])
  | none =>
      if name ∈ box.names then (answer.result, [])
      else (.ok (makeToolResultJson text false "" ("Tool not found: " ++ name) (-1) false), [])

end Toolbox

end PuCli
