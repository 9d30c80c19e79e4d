import PuCli.App.Worker
import PuCli.Config.PeerToken
import PuCli.Core.Utf8Valid
import PuCli.Serve.Snapshot
import PuCli.Session.InForce

namespace PuCli

open Json InPlace
open Serve (Board BoardError JobRequest Tick Clock ActionResult)

namespace Http

inductive Method where
  | get
  | post
  | patch
  | other
  deriving DecidableEq

inductive Audience where
  | kAnyone
  | kLoopback
  | kPeerToken
  deriving DecidableEq

inductive Admission where
  | kAllowed
  | kNotFromHere
  | kNoTopology
  | kWrongToken
  deriving DecidableEq

-- An absent header and an empty one are read alike.
structure Request where
  method : Method
  target : String
  authorization : List UInt8 := []
  body : String := ""

inductive ApiError where
  | notFound (what : String)
  | generic (what : String)
  | refused (what : String)
  | other (what : String)

def ApiError.what : ApiError → String
  | .notFound what => what
  | .generic what => what
  | .refused what => what
  | .other what => what

def errorStatus : ApiError → Nat
  | .notFound _ => 404
  | .generic _ => 500
  | .refused _ => 400
  | .other _ => 500

def boardError : BoardError → ApiError
  | .refused what => .refused what
  | .notFound what => .notFound what

-- A server without a runner takes no peer turn, one without a board answers no job.
structure Server where
  runtime : Runtime
  jobs : Option (List Job) := some []
  board : Option Board := some {}

-- The bodies of the routes that only read, as far as no other part of the model draws them.
structure Views where
  session : Runtime → Backend → Nat → Json
  history : Runtime → Json
  agents : Runtime → Json
  servers : Json

-- `saving` is what is thrown where `.pu` cannot be made, and nothing where it can.
structure Call where
  tick : Tick
  clock : Clock
  peer : String
  port : Nat
  saving : Option String

abbrev ApiM := InPlace ApiError Server

section Handlers

variable (site : Site) (views : Views)

def openSession : ApiM Unit := modify (fun s => { s with runtime := s.runtime.defaultSession })

def currentBackend : ApiM Backend := do
  let s ← get
  match s.runtime.currentBackend site.host with
  | .ok backend => pure backend
  | .error what => throw (.other what)

def withRuntime (act : Runtime → Except String Unit × Runtime) : ApiM Unit := do
  let s ← get
  modify (fun s => { s with runtime := (act s.runtime).2 })
  match (act s.runtime).1 with
  | .ok () => pure ()
  | .error what => throw (.other what)

def requireString (body : Json) (key : String) : ApiM String :=
  match body.get? key with
  | some (.string text) => pure text
  | _ => throw (.refused ("Missing or invalid '" ++ key ++ "'"))

def handleApiSession (c : Call) (_ : Json) : ApiM Json := do
  openSession
  let backend ← currentBackend site
  let s ← get
  pure (views.session s.runtime backend c.port)

def handleApiHistory (_ : Call) (_ : Json) : ApiM Json := do
  openSession
  let s ← get
  pure (views.history s.runtime)

def handleApiAgents (_ : Call) (_ : Json) : ApiM Json := do
  openSession
  let s ← get
  pure (views.agents s.runtime)

-- The directory is made first, or throws; a file that does not open in it is only warned of.
def saveCurrentSession (c : Call) : ApiM Unit := do
  let s ← get
  match s.runtime.session, c.saving with
  | some _, some what => throw (.other what)
  | _, _ => pure ()

def handleApiAgentSwitch (c : Call) (body : Json) : ApiM Json := do
  let name ← requireString body "agent_name"
  let s ← get
  match s.runtime.agents.agentConfig name with
  | none => throw (.notFound ("Agent not found: " ++ name))
  | some agent =>
      withRuntime (fun rt => rt.switchAgent site agent)
      if s.runtime.switchSaves agent then saveCurrentSession c
      pure (.object [("agent", .string name)])

def handleApiServers (_ : Call) (_ : Json) : ApiM Json := pure views.servers

def rewindBefore (c : Call) (turn : Nat) : ApiM Bool := do
  openSession
  let s ← get
  match s.runtime.current.conversation.rewindBefore turn with
  | .error what => throw (.refused what)
  | .ok (false, _) => pure false
  | .ok (true, moved) =>
      modify (fun s =>
        { s with runtime := s.runtime.store { s.runtime.current with conversation := moved } })
      saveCurrentSession c
      pure true

def handleApiRewind (c : Call) (body : Json) : ApiM Json :=
  let turn : Int32 := valueOrDefault body "turn" 0
  if turn < 1 then throw (.refused "Missing or invalid 'turn'")
  else do
    let moved ← rewindBefore c turn.toInt.toNat
    if moved then pure (.object []) else throw (.refused "No such turn")

def viewJson (view : SettingView) : Json :=
  .object [("name", .string view.name), ("type", .string view.type), ("value", view.value),
    ("source", .string view.source), ("agent_value", view.agentValue)]

def settingsBody : ApiM Json := do
  let s ← get
  pure (.object [("settings", .array ((viewSettings s.runtime.configuredBackend
    s.runtime.configuredToolBudget s.runtime.overrides).map viewJson))])

def handleApiSettings (_ : Call) (_ : Json) : ApiM Json := settingsBody

def handleApiSetSetting (c : Call) (body : Json) : ApiM Json := do
  let name ← requireString body "name"
  let raw := (body.get? "value").getD .null
  match parseSetting name raw with
  | .error what => throw (.refused what)
  | .ok _ =>
      withRuntime (fun rt => rt.setSetting site.host name raw)
      saveCurrentSession c
      settingsBody

def handleApiResetSettings (c : Call) (_ : Json) : ApiM Json := do
  withRuntime (fun rt => rt.clearSettings site.host)
  saveCurrentSession c
  settingsBody

def boardOf : ApiM Board := do
  let s ← get
  match s.board with
  | none => throw (.notFound "This server has no board")
  | some board => pure board

def moveBoard (act : Board → Except BoardError (ActionResult × Board)) : ApiM ActionResult := do
  let board ← boardOf
  match act board with
  | .error refusal => throw (boardError refusal)
  | .ok (result, board) =>
      modify (fun s => { s with board := some board })
      pure result

def onBoard (c : Call) (act : Board → Except BoardError (ActionResult × Board)) : ApiM Json := do
  let result ← moveBoard act
  pure (Serve.renderResult c.clock result)

def handleApiJobsGet (c : Call) (_ : Json) : ApiM Json := do
  let board ← boardOf
  pure (board.snapshot c.clock Serve.kOfflineAfter)

def handleApiBoard (c : Call) (_ : Json) : ApiM Json := do
  let board ← boardOf
  pure (board.page c.clock).toJson

def jobFrom (body : Json) (full : Bool) : JobRequest :=
  if full then
    { sender := optionalOrDefault body "from", job := optionalOrDefault body "job"
      state := optionalOrDefault body "state", result := optionalOrDefault body "result"
      question := optionalOrDefault body "question", note := optionalOrDefault body "note" }
  else
    { sender := optionalOrDefault body "from", holder := optionalOrDefault body "to"
      intent := optionalOrDefault body "intent", due := optionalOrDefault body "due" }

def handleApiJobsPost (c : Call) (body : Json) : ApiM Json :=
  onBoard c (fun b => b.post c.tick (jobFrom body false))

def handleApiJobsPatch (c : Call) (body : Json) : ApiM Json :=
  onBoard c (fun b => b.update c.tick (jobFrom body true))

-- A verb of a person: the job it names, and the text it may not come without.
def personVerb (c : Call) (body : Json) (key missing : String)
    (act : Board → String → String → Except BoardError (ActionResult × Board)) : ApiM Json :=
  let id : String := valueOrDefault body "job" ""
  let text : String := valueOrDefault body key ""
  if id = "" then throw (.refused "a board verb needs the job's 'id'")
  else if text = "" then throw (.refused missing)
  else onBoard c (fun b => act b id text)

def handleApiJobsAnswer (c : Call) (body : Json) : ApiM Json :=
  personVerb c body "answer" "an answer needs the 'answer' text to send back"
    (fun b id text => b.answer c.tick id text)

def handleApiJobsChase (c : Call) (body : Json) : ApiM Json :=
  personVerb c body "note" "asking about a job needs the 'note' to send"
    (fun b id text => b.chase c.tick id text)

def handleApiJobsDrop (c : Call) (body : Json) : ApiM Json :=
  personVerb c body "note" "taking a job back needs the 'note' that says why"
    (fun b id text => b.drop c.tick id text)

def selfName (peers : Option PeerConfig) : String := (peers.map PeerConfig.selfName).getD ""

def claimJob (c : Call) (id : String) : ApiM Unit := do
  let s ← get
  if id = "" ∨ s.board = none then pure ()
  else do
    let taken ← moveBoard (fun b => b.update c.tick
      (SessionRunner.claim (selfName s.runtime.peers) id))
    if taken.job.state ≠ .claimed then
      throw (.refused ("job " ++ id ++ " did not end up claimed"))
    else pure ()

def submitFromPeer (jobs : List Job) (sender message id : String) : ApiM String := do
  let s ← get
  let submitted := SessionRunner.submitFromPeer site.host ⟨s.runtime,jobs⟩ sender message id
  modify (fun s => { s with runtime := submitted.runtime, jobs := some submitted.jobs })
  pure (site.host.newId s.runtime.drawn)

def unknownPeer (peers : Option PeerConfig) (sender : String) : Bool :=
  match peers with
  | none => false
  | some cfg => decide (sender ≠ "") && !cfg.knows sender

def handlePeerMessage (c : Call) (body : Json) : ApiM Json := do
  let s ← get
  match s.jobs with
  | none => throw (.refused "This server cannot accept a peer turn")
  | some jobs =>
      let sender : String := valueOrDefault body "from" ""
      let message : String := valueOrDefault body "message" ""
      let id : String := valueOrDefault body "job" ""
      if unknownPeer s.runtime.peers sender then throw (.refused ("Unknown peer: " ++ sender))
      else if sender = "" then throw (.refused "Missing or invalid 'from'")
      else if message = "" then throw (.refused "Missing or invalid 'message'")
      else do
        claimJob c id
        let turn ← submitFromPeer site jobs sender message id
        let backend ← currentBackend site
        let s ← get
        pure (.object [("accepted", .bool true), ("from", .string (selfName s.runtime.peers)),
          ("turn", .string turn), ("agent", .string s.runtime.current.spec.agentName),
          ("model", .string backend.model)])

structure Route where
  target : String
  method : Method
  handler : Call → Json → ApiM Json
  key : String := ""
  audience : Audience
  status : Nat := 200
  hasBody : Bool := false
  needsBoard : Bool := false

def routes : List Route := [
  { target := "/api/session", method := .get, handler := handleApiSession site views
    audience := .kAnyone },
  { target := "/api/history", method := .get, handler := handleApiHistory views, key := "messages"
    audience := .kAnyone },
  { target := "/api/agents", method := .get, handler := handleApiAgents views, key := "agents"
    audience := .kAnyone },
  { target := "/api/agent/switch", method := .post, handler := handleApiAgentSwitch site
    audience := .kAnyone, hasBody := true },
  { target := "/api/rewind", method := .post, handler := handleApiRewind, audience := .kAnyone
    hasBody := true },
  { target := "/api/settings", method := .get, handler := handleApiSettings, audience := .kAnyone },
  { target := "/api/settings", method := .post, handler := handleApiSetSetting site
    audience := .kAnyone, hasBody := true },
  { target := "/api/settings/reset", method := .post, handler := handleApiResetSettings site
    audience := .kAnyone },
  { target := "/api/servers", method := .get, handler := handleApiServers views, key := "servers"
    audience := .kLoopback },
  { target := "/api/board", method := .get, handler := handleApiBoard, audience := .kLoopback
    needsBoard := true },
  { target := "/api/jobs", method := .get, handler := handleApiJobsGet, audience := .kPeerToken
    needsBoard := true },
  { target := "/api/jobs", method := .post, handler := handleApiJobsPost, audience := .kPeerToken
    hasBody := true, needsBoard := true },
  { target := "/api/jobs", method := .patch, handler := handleApiJobsPatch, audience := .kPeerToken
    hasBody := true, needsBoard := true },
  { target := "/api/jobs/answer", method := .post, handler := handleApiJobsAnswer
    audience := .kPeerToken, hasBody := true, needsBoard := true },
  { target := "/api/jobs/chase", method := .post, handler := handleApiJobsChase
    audience := .kPeerToken, hasBody := true, needsBoard := true },
  { target := "/api/jobs/drop", method := .post, handler := handleApiJobsDrop
    audience := .kPeerToken, hasBody := true, needsBoard := true },
  { target := "/api/peer/message", method := .post, handler := handlePeerMessage site
    audience := .kPeerToken, status := 202, hasBody := true }]

end Handlers

def kBearer : List UInt8 := Utf8.bytesOf "Bearer "

def bearerToken (authorization : List UInt8) : List UInt8 :=
  if kBearer.length < authorization.length ∧ kBearer.isPrefixOf authorization then
    authorization.drop kBearer.length
  else []

def accepts (cfg : PeerConfig) (token : List UInt8) : Bool :=
  PeerToken.accepts (Utf8.bytesOf cfg.token) token

def peerForToken (peers : Option PeerConfig) (token : List UInt8) : String :=
  match peers with
  | none => ""
  | some cfg => if token.isEmpty ∨ ¬ accepts cfg token then "" else cfg.selfName

def isLoopback (address : String) : Bool :=
  "127.".toList.isPrefixOf address.toList || address = "::1" || address = "::ffff:127.0.0.1"

def admits (audience : Audience) (address : String) (token : List UInt8)
    (peers : Option PeerConfig) : Admission :=
  match audience with
  | .kAnyone => .kAllowed
  | .kLoopback => if isLoopback address then .kAllowed else .kNotFromHere
  | .kPeerToken =>
      match peers with
      | none => .kNoTopology
      | some cfg => if token.isEmpty ∨ ¬ accepts cfg token then .kWrongToken else .kAllowed

inductive Response where
  | file (target : String)
  | json (status : Nat) (body : Json) (authenticate : Bool)
  | notFound

-- A page file is answered by the disk, which is not the model's.
def Response.status : Response → Nat
  | .file _ => 200
  | .json status _ _ => status
  | .notFound => 404

def sendError (status : Nat) (message : String) (authenticate : Bool) : Response :=
  .json status (.object [("success", .bool false), ("error", .string message)]) authenticate

def sendRefusal (target : String) : Admission → Option Response
  | .kAllowed => none
  | .kNotFromHere =>
      some (sendError 403 (target ++ " is answered on the machine the server runs on") false)
  | .kNoTopology => some (sendError 404 "Peer messaging is not configured" false)
  | .kWrongToken => some (sendError 401 (target ++ " requires the peer token") true)

def wrap (key : String) (result : Json) : Json :=
  if key ≠ "" then .object [(key, result), ("success", .bool true)]
  else .object (assign result.asObject "success" (.bool true))

def parseBody (text : JsonText) (body : String) : Except ApiError Json :=
  if body = "" then .ok (.object [])
  else match text.parse body with
    | some j => .ok j
    | none => .error (.refused "Invalid JSON")

-- `pages` are the regular files of the page directory.
def isPageFile (pages : List String) (target : String) : Bool :=
  target = "/" || decide (String.ofList target.toList.tail ≠ "" ∧ '/' ∉ target.toList.tail ∧
    String.ofList target.toList.tail ∈ pages)

structure Received where
  request : Request
  address : String
  tick : Tick
  clock : Clock
  port : Nat := 0
  saving : Option String := none

section Dispatch

variable (site : Site) (views : Views) (pages : List String)

def touched (c : Call) (route : Route) (s : Server) : Server :=
  if route.audience = .kPeerToken ∧ route.needsBoard ∧ c.peer ≠ "" then
    { s with board := s.board.map (fun b => b.touchPeer c.tick c.peer "") }
  else s

def handled (route : Route) (c : Call) (body : String) : ApiM Json :=
  if route.hasBody then
    match parseBody site.host.text body with
    | .ok j => route.handler c j
    | .error e => throw e
  else route.handler c .null

def settled (route : Route) : Except ApiError Json × Server → Response × Server
  | (.ok result, s) => (.json route.status (wrap route.key result) false, s)
  | (.error e, s) => (sendError (errorStatus e) e.what false, s)

def callOf (q : Received) (s : Server) : Call :=
  ⟨q.tick,q.clock,peerForToken s.runtime.peers (bearerToken q.request.authorization),q.port,q.saving⟩

def answer (route : Route) (q : Received) (s : Server) : Response × Server :=
  match sendRefusal route.target
      (admits route.audience q.address (bearerToken q.request.authorization) s.runtime.peers) with
  | some refusal => (refusal, s)
  | none =>
      if route.needsBoard ∧ s.board = none then
        (sendError 404 "This server has no board" false, s)
      else settled route (ran (handled site route (callOf q s) q.request.body)
        (touched (callOf q s) route s))

def routeFor (request : Request) : Option Route :=
  (routes site views).find? (fun route =>
    decide (route.target = request.target ∧ route.method = request.method))

def dispatch (q : Received) (s : Server) : Response × Server :=
  if isPageFile pages q.request.target then (.file q.request.target, s)
  else match routeFor site views q.request with
    | none => (.notFound, s)
    | some route => answer site route q s

end Dispatch

end Http

end PuCli
