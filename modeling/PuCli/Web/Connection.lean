import Mathlib.Data.List.Basic
import PuCli.Web.Hold
import PuCli.Web.Transcript

namespace PuCli

namespace Connection

inductive ReadyState where
  | connecting
  | opened
  | closing
  | closed
  deriving DecidableEq

-- The handler a close runs: the one the socket was made with, the one a handover leaves it, or none.
inductive OnClose where
  | own
  | handover
  | none
  deriving DecidableEq

structure Socket where
  origin : String
  readyState : ReadyState := .connecting
  onopen : Bool := true
  onmessage : Bool := true
  onclose : OnClose := .own
  refused : Bool := false
  deriving DecidableEq

def Socket.live (k : Socket) : Bool :=
  decide (k.readyState = .connecting) || decide (k.readyState = .opened)

def Socket.close (k : Socket) : Socket := if k.live then { k with readyState := .closing } else k

inductive PageFrame where
  | frame (frame : Frame)
  | busy (text : String)
  | other
  deriving DecidableEq

def PageFrame.progress : PageFrame → Bool
  | .frame (.chunk _) => true
  | .frame (.thinking _) => true
  | .frame (.toolStart _ _ _) => true
  | .frame (.toolEnd _ _ _ _ _) => true
  | _ => false

inductive ConnState where
  | connecting
  | online
  | offline
  deriving DecidableEq

inductive Message where
  | run (text : String)
  | cancel
  | resolveApproval (allow : Bool) (note : String)
  deriving DecidableEq

def kMaxBusyRetries : Nat := 2
def kWatchdogStreamMs : Nat := 60000
def kWatchdogToolMs : Nat := 300000
def kBusyReason : String := "This session is already open in another page."
def kReplyLost : String := "Disconnected; the reply in progress was stopped and is not kept."
def kStillAnswering : String := "This server is still answering. Let the turn finish before switching."

-- The fields of `PU` a connection reads and writes. `sockets` are all the page has made, in order;
-- `adopting` counts the switches whose reads are still out. `sent` and `drawn` are an observer's:
-- what went out on which socket, and each frame drawn with the server attached to and its own.
structure Tab where
  origin : String
  sockets : List Socket := []
  ws : Option Nat := none
  supersededSocket : Option Nat := none
  reconnectAttempts : Nat := 0
  reconnectTimer : Option Nat := none
  connState : ConnState := .connecting
  replyLostToDisconnect : Bool := false
  busyRefusals : Nat := 0
  isStreaming : Bool := false
  stopRequested : Bool := false
  watchdogTimer : Option Nat := none
  watchdogToolGrace : Bool := false
  currentAssistantEl : Bool := false
  currentAssistantBlocks : List PageBlock := []
  approvalPending : Option String := none
  notice : Option String := none
  hold : Hold.Page (String × PageFrame) := {}
  adopting : Nat := 0
  sent : List (Nat × Message) := []
  drawn : List (String × String × PageFrame) := []
  deriving DecidableEq

namespace Tab

def setSocket (s : Tab) (i : Nat) (f : Socket → Socket) : Tab :=
  { s with sockets := s.sockets.modify i f }

def setSendButtonState (s : Tab) (streaming : Bool) : Tab := { s with isStreaming := streaming }

def setConnectionState (s : Tab) (state : ConnState) : Tab :=
  if state = s.connState then s
  else
    { s with
      notice :=
        if state = .offline ∧ s.connState = .online ∧ s.replyLostToDisconnect then some kReplyLost
        else if state = .online ∧ s.connState = .offline then none
        else s.notice
      replyLostToDisconnect := false
      connState := state }

def openSocket? (s : Tab) : Option Nat :=
  s.ws.filter (fun i => s.sockets[i]?.map Socket.readyState = some .opened)

def sendFrame (s : Tab) (m : Message) : Option Tab :=
  s.openSocket?.map (fun i => { s with sent := s.sent ++ [(i, m)] })

def removeCurrentAssistantMessage (s : Tab) : Tab :=
  if s.currentAssistantEl then { s with currentAssistantEl := false, currentAssistantBlocks := [] } else s

def finishAssistantMessage (s : Tab) : Tab := s.removeCurrentAssistantMessage

def startAssistantMessage (s : Tab) : Tab :=
  { s with currentAssistantEl := true, currentAssistantBlocks := [] }

def attached (s : Tab) : Bool :=
  s.ws.any (fun i => s.sockets[i]?.any Socket.live)

def connectWebSocket (s : Tab) : Tab :=
  let s := { s with reconnectTimer := none }
  if s.attached then s
  else { s with ws := some s.sockets.length, sockets := s.sockets ++ [{ origin := s.origin }] }

def scheduleReconnect (s : Tab) : Tab :=
  match s.reconnectTimer with
  | some _ => s
  | none =>
      { s with
        reconnectTimer := some (min (500 * 2 ^ s.reconnectAttempts) 8000)
        reconnectAttempts := s.reconnectAttempts + 1 }

def handleBusy (s : Tab) (text : String) : Tab :=
  let reason := if text = "" then kBusyReason else text
  { s with
    busyRefusals := s.busyRefusals + 1
    notice := some (reason ++ if kMaxBusyRetries < s.busyRefusals + 1
      then " Reload this page once it is free." else " Trying again…") }

def toolIsRunning (s : Tab) : Bool :=
  s.currentAssistantBlocks.any (fun block =>
    match block with
    | .prose _ _ => false
    | .toolCall call => decide (call.status = .running))

def armWatchdog (s : Tab) : Tab :=
  { s with watchdogToolGrace := false, watchdogTimer := some kWatchdogStreamMs }

def releaseSupersededSocket (s : Tab) : Tab :=
  match s.supersededSocket with
  | none => s
  | some stale =>
      { s with supersededSocket := none }.setSocket stale
        (fun k => { k with onmessage := false, onclose := .none }.close)

def handOver (s : Tab) : Tab :=
  match s.ws with
  | none => s
  | some stale =>
      { s with ws := none, supersededSocket := some stale }.setSocket stale
        (fun k => { k with onopen := false, onclose := .handover })

def reopenSilentSocket (s : Tab) : Tab :=
  let s := { s with watchdogTimer := none, watchdogToolGrace := false }
  if s.isStreaming then
    { s.releaseSupersededSocket.handOver with reconnectAttempts := 0 }.connectWebSocket
  else s

def onWatchdogElapsed (s : Tab) : Tab :=
  let s := { s with watchdogTimer := none }
  if s.isStreaming then
    if s.toolIsRunning ∧ s.watchdogToolGrace = false then
      { s with watchdogToolGrace := true, watchdogTimer := some kWatchdogToolMs }
    else s.reopenSilentSocket
  else s

def handleDone (s : Tab) : Tab :=
  let s := if s.currentAssistantBlocks = [] then s.removeCurrentAssistantMessage
    else s.finishAssistantMessage
  let s := { s with watchdogTimer := none, watchdogToolGrace := false }
  { s.releaseSupersededSocket.setSendButtonState false with stopRequested := false }

def handleError (s : Tab) : Tab :=
  let s := { s.removeCurrentAssistantMessage with stopRequested := false }
  s.releaseSupersededSocket.setSendButtonState false

def handleNotice (s : Tab) (text : String) : Tab :=
  if text = "" then s else { s with notice := some text }

def handle (s : Tab) : PageFrame → Tab
  | .frame (.approvalAsk command) => { s with approvalPending := some command }
  | .frame (.error _) => s.handleError
  | .frame (.done _) => s.handleDone
  | .frame (.notice text) => s.handleNotice text
  | .frame (.usage _) => s
  | .frame frame => { s with currentAssistantBlocks := PuCli.dispatchFrame s.currentAssistantBlocks frame }
  | .busy text => s.handleBusy text
  | .other => s

def dispatchFrame (s : Tab) (data : String × PageFrame) : Tab :=
  { s.handle data.2 with drawn := s.drawn ++ [(s.origin, data)] }

def loseReply (s : Tab) : Tab :=
  if s.isStreaming then
    { s.removeCurrentAssistantMessage.setSendButtonState false with replyLostToDisconnect := true }
  else s

def goOffline (s : Tab) (refused : Bool) : Tab :=
  if refused then
    let s := { s with replyLostToDisconnect := false }.setConnectionState .offline
    if s.busyRefusals ≤ kMaxBusyRetries then s.scheduleReconnect else s
  else ({ s with busyRefusals := 0 }.setConnectionState .offline).scheduleReconnect

def handleSocketClose (s : Tab) (refused : Bool) : Tab :=
  let s := { s with watchdogTimer := none, watchdogToolGrace := false }
  { s.releaseSupersededSocket with approvalPending := none }.loseReply.goOffline refused

def endLoad (s : Tab) (replay : Bool) : Tab :=
  let released := { s with hold := s.hold.endLoad replay }
  if replay then s.hold.loadingFrames.foldl dispatchFrame released else released

def resyncAfterReconnect (s : Tab) : Tab :=
  if s.isStreaming then s.endLoad true
  else { s with hold := s.hold.resyncAfterReconnect false }

def onOpen (s : Tab) (i : Nat) : Tab :=
  if s.ws = some i then
    ({ s with reconnectAttempts := 0 }.setConnectionState .online).resyncAfterReconnect
  else s

def readFrame (s : Tab) (i : Nat) : PageFrame → Tab
  | .busy _ => s.setSocket i (fun k => { k with refused := true })
  | _ => { s with busyRefusals := 0 }

def onMessage (s : Tab) (i : Nat) (origin : String) (data : PageFrame) : Tab :=
  if s.ws = some i ∨ s.supersededSocket = some i then
    let s := s.readFrame i data
    let kept := { s with hold := s.hold.onMessage (decide (s.ws = some i)) (origin, data) }
    if s.hold.loading then kept
    else (if data.progress then kept.armWatchdog else kept).dispatchFrame (origin, data)
  else s

def onClose (s : Tab) (i : Nat) (k : Socket) : Tab :=
  match k.onclose with
  | .own => if s.ws = some i then { s with ws := none }.handleSocketClose k.refused else s
  | .handover => if s.supersededSocket = some i then { s with supersededSocket := none } else s
  | .none => s

def rebuilt (s : Tab) (number : Nat) : Tab :=
  if s.hold.Outstanding number then
    { s with hold := { s.hold with settled := number :: s.hold.settled } }.endLoad
      (decide (s.hold.gens[number]? = some s.hold.loadGen))
  else s

def loadElapsed (s : Tab) : Tab :=
  if s.hold.loadingTimer then { s with hold := { s.hold with loadingTimer := false } }.endLoad true
  else s

def cancelReply (s : Tab) : Tab :=
  match s.sendFrame .cancel with
  | none => s.setSendButtonState false
  | some s => { s with stopRequested := true }.removeCurrentAssistantMessage

-- `text` is what is left of the input after `trim`.
def sendMessage (s : Tab) (text : String) : Tab :=
  if s.isStreaming then s.cancelReply
  else if text = "" then s
  else
    match s.sendFrame (.run text) with
    | none => s
    | some s => ({ s with stopRequested := false }.startAssistantMessage).setSendButtonState true

def resolveApproval (s : Tab) (allow : Bool) (note : String) : Tab :=
  match s.approvalPending, s.sendFrame (.resolveApproval allow note) with
  | some _, some s => { s with approvalPending := none }
  | _, _ => s

def letGo (s : Tab) : Tab :=
  match s.ws with
  | none => s
  | some i =>
      { s with ws := none }.setSocket i (fun k => { k with onmessage := false, onclose := .none }.close)

def adoptServer (s : Tab) (origin : String) : Tab :=
  let s := { s with origin := origin }.letGo.releaseSupersededSocket
  { s.setSendButtonState false with adopting := s.adopting + 1 }

def switchToServer (s : Tab) (origin : String) : Tab :=
  if s.isStreaming then { s with notice := some kStillAnswering } else s.adoptServer origin

def adopted (s : Tab) : Tab :=
  if 0 < s.adopting then { s with adopting := s.adopting - 1 }.connectWebSocket else s

end Tab

-- What the browser delivers, one task at a time. A message is read as its data, or not at all.
inductive Event where
  | opened (i : Nat)
  | message (i : Nat) (data : Option PageFrame)
  | closing (i : Nat)
  | closed (i : Nat)
  | reconnectElapsed
  | watchdogElapsed
  | loadElapsed
  | rebuilt (number : Nat)
  | sendMessage (text : String)
  | resolveApproval (allow : Bool) (note : String)
  | switchToServer (origin : String)
  | adopted
  deriving DecidableEq

namespace Tab

def step (s : Tab) : Event → Tab
  | .opened i =>
      match s.sockets[i]? with
      | some k =>
          if k.readyState = .connecting then
            let s := s.setSocket i (fun k => { k with readyState := .opened })
            if k.onopen then s.onOpen i else s
          else s
      | none => s
  | .message i data =>
      match s.sockets[i]?, data with
      | some k, some data =>
          if k.readyState = .opened ∧ k.onmessage then s.onMessage i k.origin data else s
      | _, _ => s
  | .closing i =>
      s.setSocket i (fun k => if k.readyState = .opened then { k with readyState := .closing } else k)
  | .closed i =>
      match s.sockets[i]? with
      | some k =>
          if k.readyState = .closed then s
          else (s.setSocket i (fun k => { k with readyState := .closed })).onClose i k
      | none => s
  | .reconnectElapsed =>
      match s.reconnectTimer with
      | some _ => { s with reconnectTimer := none }.connectWebSocket
      | none => s
  | .watchdogElapsed =>
      match s.watchdogTimer with
      | some _ => s.onWatchdogElapsed
      | none => s
  | .loadElapsed => s.loadElapsed
  | .rebuilt number => s.rebuilt number
  | .sendMessage text => s.sendMessage text
  | .resolveApproval allow note => s.resolveApproval allow note
  | .switchToServer origin => s.switchToServer origin
  | .adopted => s.adopted

def start (origin : String) : Tab := connectWebSocket { origin := origin }

end Tab

end Connection

end PuCli
