import PuCli.Runtime.ProcessInput

namespace PuCli

open Json

structure Job where
  text : String
  conn : Bool := false
  peerOrigin : String := ""
  turnId : String
  boardJob : String := ""
  deriving DecidableEq

structure Ending where
  cancels : Bool := false
  pageAsked : Bool := false
  pageHere : Bool := false

structure JobClose where
  job : String
  sender : String
  failed : Bool
  result : String
  deriving DecidableEq

structure TurnRecord where
  id : String
  earlier : List Frame := []
  last : List Frame := []
  closing : List Frame := []
  finished : Bool := true

def TurnRecord.frames (r : TurnRecord) : List Frame := r.earlier ++ r.last ++ r.closing

structure JobRun where
  runtime : Runtime
  record : TurnRecord
  closed : Option JobClose := none

structure SessionRunner where
  runtime : Runtime
  jobs : List Job := []

namespace SessionRunner

variable {ρ : Type}

def submit (host : Host) (r : SessionRunner) (text : String) : SessionRunner :=
  { runtime := { r.runtime with drawn := r.runtime.drawn + 1 }
    jobs := r.jobs ++ [{ text := text, conn := true, turnId := host.newId r.runtime.drawn }] }

def peerJob (host : Host) (r : SessionRunner) (sender text job : String) : Job :=
  { text := text, peerOrigin := sender, turnId := host.newId r.runtime.drawn, boardJob := job }

def submitFromPeer (host : Host) (r : SessionRunner) (sender text job : String) : SessionRunner :=
  { runtime := { r.runtime with drawn := r.runtime.drawn + 1 }
    jobs := r.jobs ++ [peerJob host r sender text job] }

def resultText (result : ExecutionResult) : String :=
  if result.errorMessage ≠ "" then result.errorMessage else result.content

def closeBoardJob (peers : Option PeerConfig) (job : String) (result : ExecutionResult) :
    Option JobClose :=
  match peers with
  | none => none
  | some cfg =>
      if job = "" ∨ cfg.selfName = "" then none
      else some ⟨job, cfg.selfName, result.hasError,
        if result.hasError then resultText result else result.content⟩

def noticeFrames (result : ExecutionResult) : List Frame :=
  if result.notice = "" then [] else [.notice result.notice]

def usageFrames (rt : Runtime) (result : ExecutionResult) : List Frame :=
  match result.usage with
  | none => []
  | some _ =>
      let s := rt.current
      let nodeId := lastAssistant s.conversation.chain
      [.usage (if nodeId = "" then none else s.usage[nodeId]?)]

def endFrame (result : ExecutionResult) : Frame :=
  if result.hasError then .error (resultText result) else .done result.model

def closingFrames (rt : Runtime) (result : ExecutionResult) : List Frame :=
  noticeFrames result ++ usageFrames rt result ++ [endFrame result]

def talkFrames (p : Processed ρ) : List Frame × List Frame :=
  match p.talk with
  | none => ([], [])
  | some st => (st.earlier, st.frames)

def wasCancelled (p : Processed ρ) (ending : Ending) : Bool :=
  match p.talk with
  | none => ending.cancels
  | some st => st.cancelled || ending.cancels

def report (job : Job) (ending : Ending) (p : Processed ρ) : JobRun :=
  let frames := talkFrames p
  if ¬ p.ended then
    { runtime := p.runtime
      record := { id := job.turnId, earlier := frames.1, last := frames.2, finished := false } }
  else if wasCancelled p ending ∧ ¬ (ending.pageAsked ∧ job.conn ∧ ending.pageHere) then
    { runtime := p.runtime
      record := { id := job.turnId, earlier := frames.1, last := frames.2 } }
  else
    { runtime := p.runtime
      record :=
        { id := job.turnId, earlier := frames.1, last := frames.2
          closing := closingFrames p.runtime p.result }
      closed := closeBoardJob p.runtime.peers job.boardJob p.result }

def runJob (site : Site) (serve : Conversation → ρ → Conversation) (script : Script ρ)
    (ending : Ending) (job : Job) (rt : Runtime) : JobRun :=
  if ¬ job.conn ∧ job.peerOrigin = "" then
    { runtime := rt, record := { id := job.turnId, finished := false } }
  else report job ending (rt.processInput site true serve script job.text job.peerOrigin)

end SessionRunner

end PuCli
