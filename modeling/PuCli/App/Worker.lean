import PuCli.App.AnswerFrames
import PuCli.Runtime.Routing
import PuCli.Runtime.TurnFrames
import PuCli.Serve.Board

namespace PuCli

open Serve (Board BoardError JobRequest Tick Verb)

variable {ρ : Type}

structure Fault where
  index : Nat
  kept : Bool
  what : String

structure Watch where
  during : List (Tick × Verb) := []
  closing : Tick
  after : List (Tick × Verb) := []
  reporting : Tick

structure Worked where
  runtime : Runtime
  record : TurnRecord
  board : Option Board

def JobClose.request (close : JobClose) : JobRequest :=
  Board.closing close.sender close.job close.failed close.result

namespace SessionRunner

def closeOn (tick : Tick) (board : Option Board) (close : Option JobClose) :
    Except BoardError (Option Board) :=
  match board, close with
  | some b, some c => (b.update tick c.request).map (fun done => some done.2)
  | board, _ => .ok board

-- AppendFrame throws on one of the frames: what it has recorded by then stays.
def sayAll (fault : Option Fault) (frames : List Frame) : List Frame × Option String :=
  match fault with
  | none => (frames, none)
  | some f =>
      if f.index < frames.length then
        (frames.take (if f.kept then f.index + 1 else f.index), some f.what)
      else (frames, none)

def reportFailedTurn (watch : Watch) (job : Job) (run : JobRun) (said : List Frame)
    (reason : String) (board : Option Board) : Worked :=
  let board := board.map (fun b => b.serveAll watch.after)
  { runtime := run.runtime
    record := { run.record with closing := said ++ [.error reason, .done ""], finished := true }
    board :=
      match closeOn watch.reporting board (closeBoardJob run.runtime.peers job.boardJob {}) with
      | .ok board => board
      | .error _ => board }

def work (site : Site) (serve : Conversation → ρ → Conversation) (script : Script ρ)
    (ending : Ending) (fault : Option Fault) (watch : Watch) (job : Job) (rt : Runtime)
    (board : Option Board) : Worked :=
  let run := runJob site serve script ending job rt
  let board := board.map (fun b => b.serveAll watch.during)
  match sayAll fault run.record.closing with
  | (said, some what) => reportFailedTurn watch job run said what board
  | (said, none) =>
      match closeOn watch.closing board run.closed with
      | .ok board => ⟨run.runtime, run.record, board⟩
      | .error refusal => reportFailedTurn watch job run said refusal.what board

def claim (self id : String) : JobRequest :=
  { job := some id, sender := some self, state := some (Serve.jobStateName .claimed) }

def claimOn (tick : Tick) (board : Option Board) (cfg : PeerConfig) (id : String) :
    Except String (Option Board) :=
  match board with
  | none => .ok none
  | some b =>
      if id = "" then .ok (some b)
      else match b.update tick (claim cfg.selfName id) with
        | .error refusal => .error refusal.what
        | .ok (taken, b') =>
            if taken.job.state ≠ .claimed then
              .error ("job " ++ id ++ " did not end up claimed")
            else .ok (some b')

def handlePeerMessage (host : Host) (tick : Tick) (cfg : PeerConfig) (board : Option Board)
    (r : SessionRunner) (sender message id : String) :
    Except String (Option Board × SessionRunner) :=
  if sender ≠ "" ∧ ¬ cfg.knows sender then .error ("Unknown peer: " ++ sender)
  else if sender = "" then .error "Missing or invalid 'from'"
  else if message = "" then .error "Missing or invalid 'message'"
  else do
    let board ← claimOn tick board cfg id
    .ok (board, r.submitFromPeer host sender message id)

end SessionRunner

theorem CommandRouter.routeLaw_peers (site : Site) :
    RouteLaw site (fun rt rt' => rt'.peers = rt.peers) where
  refl _ := rfl
  agent _ agent := (Runtime.sameTalk_switchAgent agent).peers
  backend _ backend := (Runtime.sameTalk_switchBackend backend).peers
  level _ _ := (Runtime.sameTalk_setSetting _ _).peers
  clear _ := rfl
  rewind _ := rfl

theorem Runtime.peers_processInput {site : Site} {rt : Runtime} {token : Bool}
    {serve : Conversation → ρ → Conversation} {script : Script ρ} {input origin : String} :
    (processInput site token serve script input origin rt).runtime.peers = rt.peers := by
  unfold processInput
  dsimp only
  split
  · have hr := (CommandRouter.routeLaw_peers site).route
      (defaultSession { rt with peerOrigin := origin }) input
    unfold runCommand
    split
    · next hroute => rwa [hroute] at hr
    · next hroute => rwa [hroute] at hr
  · split
    · rfl
    · unfold runTurn
      split <;> rfl

end PuCli
