import PuCli.App.Wire
import PuCli.Runtime.Approval

namespace PuCli

structure ServeJob where
  conn : Option Nat := none
  peerOrigin : String := ""
  boardJob : String := ""
  deriving DecidableEq

inductive WorkerAt where
  | idle
  | picked (job : ServeJob)
  | began (job : ServeJob)
  | talking (job : ServeJob)
  | asking (job : ServeJob) (command : String)
  | waiting (job : ServeJob)
  | collected (job : ServeJob) (asked : Bool) (closing : List Frame)
  | released (job : ServeJob) (asked cancelled : Bool) (closing : List Frame)
  | closing (job : ServeJob) (frames : List Frame)
  | failing (job : ServeJob) (frames : List Frame)
  | ending (job : ServeJob)
  deriving DecidableEq

-- One finished turn: the sockets whose cancel reached it while attached, and the wire as it ended.
structure TurnEnd where
  asked : List Nat
  wire : Wire

structure Serving where
  wire : Wire := {}
  reading : List Nat := []
  jobs : List ServeJob := []
  worker : WorkerAt := .idle
  token : Option Bool := none
  cancelRequested : Bool := false
  gate : Gate := {}
  stopping : Bool := false
  halted : Bool := false
  asked : List Nat := []
  stopped : Bool := false
  heard : Bool := false
  held : Bool := false
  abandoned : List (Nat × ServeJob) := []
  ends : List TurnEnd := []

inductive ServeEvent where
  | submit (conn : Nat)
  | submitFromPeer (sender boardJob : String)
  | cancel (conn : Nat)
  | resolve (conn : Nat) (allow : Bool) (note : String)
  | attach (conn : Nat)
  | snapshot
  | replay
  | enter
  | finish (conn : Nat)
  | unflag
  | detach
  | abandon
  | stop
  | halt
  | take
  | openTurn
  | arm
  | say (frame : Frame)
  | aim
  | send
  | ask (command : String)
  | announce
  | wake
  | fail (what : String)
  | collect (rt : Runtime) (result : ExecutionResult)
  | release
  | look
  | speak
  | closeBoard (refusal : Option String)
  | finishTurn

def Frame.talks : Frame → Bool
  | .chunk _ => true
  | .thinking _ => true
  | .toolStart _ _ _ => true
  | .toolEnd _ _ _ _ _ => true
  | _ => false

def Frame.ends : Frame → Bool
  | .error _ => true
  | .done _ => true
  | _ => false

def WorkerAt.inFlight : WorkerAt → Option ServeJob
  | .talking job => some job
  | .asking job _ => some job
  | .waiting job => some job
  | .collected job _ _ => some job
  | _ => none

namespace Serving

def reads (s : Serving) (conn : Nat) : Bool :=
  decide (s.wire.io = .free) && decide (conn ∈ s.reading) && decide (conn ∉ s.wire.closed)

def requestCancel (s : Serving) (byPage : Bool) : Serving :=
  match s.token with
  | none => s
  | some _ => { s with cancelRequested := s.cancelRequested || byPage, token := some true }

def submit (s : Serving) (conn : Nat) : Serving :=
  if s.reads conn then { s with jobs := s.jobs ++ [{ conn := some conn }] } else s

def submitFromPeer (s : Serving) (sender boardJob : String) : Serving :=
  if s.wire.io = .free then
    { s with jobs := s.jobs ++ [{ peerOrigin := sender, boardJob := boardJob }] }
  else s

def heardFrom (s : Serving) (conn : Nat) : List Nat :=
  if s.worker ≠ .idle ∧ s.wire.attached = some conn then s.asked ++ [conn] else s.asked

def cancel (s : Serving) (conn : Nat) : Serving :=
  if s.reads conn then { s with asked := s.heardFrom conn }.requestCancel true else s

def resolve (s : Serving) (conn : Nat) (allow : Bool) (note : String) : Serving :=
  if s.reads conn then { s with gate := Gate.resolve allow note } else s

def enter (s : Serving) : Serving :=
  match s.wire.io with
  | .replaying conn [] => { s with wire := s.wire.enter, reading := s.reading ++ [conn] }
  | _ => s

def abandon (s : Serving) : Serving :=
  match s.wire.io with
  | .left conn =>
      let s := { s with wire := s.wire.settle }
      match s.token, s.worker.inFlight with
      | some false, some job => { s with abandoned := s.abandoned ++ [(conn, job)] }.requestCancel false
      | _, _ => s.requestCancel false
  | _ => s

def stop (s : Serving) : Serving :=
  if s.stopping then s else { s with stopping := true, jobs := [] }

def halt (s : Serving) : Serving :=
  if s.stopping ∧ ¬ s.halted then { s with halted := true, token := s.token.map (fun _ => true) }
  else s

def take (s : Serving) : Serving :=
  match s.worker, s.jobs with
  | .idle, job :: jobs => { s with worker := .picked job, jobs := jobs, asked := [] }
  | _, _ => s

def openTurn (s : Serving) : Serving :=
  match s.worker with
  | .picked job =>
      { s with
        wire := s.wire.begin
        stopped := false, heard := false, held := false
        worker := if job.conn = none ∧ job.peerOrigin = "" then .idle else .began job }
  | _ => s

def arm (s : Serving) : Serving :=
  match s.worker with
  | .began job => { s with token := some false, cancelRequested := false, worker := .talking job }
  | _ => s

def ready (s : Serving) : Bool := decide (s.wire.hand = .rest)

def say (s : Serving) (frame : Frame) : Serving :=
  match s.worker with
  | .talking _ => if s.ready ∧ frame.talks then { s with wire := s.wire.record frame } else s
  | _ => s

def ask (s : Serving) (command : String) : Serving :=
  match s.worker with
  | .talking job =>
      if s.ready then { s with gate := s.gate.opened, worker := .asking job command } else s
  | _ => s

def announce (s : Serving) : Serving :=
  match s.worker with
  | .asking job command =>
      { s with wire := s.wire.record (.approvalAsk command), worker := .waiting job }
  | _ => s

def wake (s : Serving) : Serving :=
  match s.worker with
  | .waiting job =>
      if s.ready ∧ s.gate.answered then { s with worker := .talking job } else s
  | _ => s

def failed (what : String) : List Frame := [.error what, .done ""]

def fail (s : Serving) (what : String) : Serving :=
  match s.worker with
  | .talking job => if s.ready then { s with worker := .failing job (failed what) } else s
  | _ => s

def collect (s : Serving) (rt : Runtime) (result : ExecutionResult) : Serving :=
  match s.worker with
  | .talking job =>
      if s.ready then
        { s with
          cancelRequested := false
          heard := s.cancelRequested
          worker := .collected job s.cancelRequested (SessionRunner.closingFrames rt result) }
      else s
  | _ => s

def release (s : Serving) : Serving :=
  match s.worker with
  | .collected job asked frames =>
      { s with
        token := none
        stopped := s.token = some true
        worker := .released job asked (decide (s.token = some true)) frames }
  | _ => s

def pageIsHere (s : Serving) (job : ServeJob) : Bool :=
  match job.conn with
  | none => false
  | some conn => decide (conn ∈ s.wire.onPage)

def look (s : Serving) : Serving :=
  match s.worker with
  | .released job asked cancelled frames =>
      let here := s.pageIsHere job
      { s with
        held := here
        worker := if cancelled ∧ ¬ (asked ∧ here) then .ending job else .closing job frames }
  | _ => s

def speak (s : Serving) : Serving :=
  match s.worker with
  | .closing job (frame :: frames) =>
      if s.ready then { s with wire := s.wire.record frame, worker := .closing job frames } else s
  | .failing job (frame :: frames) =>
      if s.ready then { s with wire := s.wire.record frame, worker := .failing job frames } else s
  | _ => s

def closeBoard (s : Serving) (refusal : Option String) : Serving :=
  match s.worker with
  | .closing job [] =>
      if s.ready then
        match refusal with
        | some what =>
            { s with worker := if job.boardJob = "" then .ending job else .failing job (failed what) }
        | none => { s with worker := .ending job }
      else s
  | .failing job [] => if s.ready then { s with worker := .ending job } else s
  | _ => s

def finishTurn (s : Serving) : Serving :=
  match s.worker with
  | .ending _ => { s with worker := .idle, ends := s.ends ++ [⟨s.asked, s.wire⟩] }
  | _ => s

variable (client : Nat → String)

def step (s : Serving) : ServeEvent → Serving
  | .submit conn => s.submit conn
  | .submitFromPeer sender boardJob => s.submitFromPeer sender boardJob
  | .cancel conn => s.cancel conn
  | .resolve conn allow note => s.resolve conn allow note
  | .attach conn => { s with wire := s.wire.attach client conn }
  | .snapshot => { s with wire := s.wire.snapshot }
  | .replay => { s with wire := s.wire.replay }
  | .enter => s.enter
  | .finish conn => { s with wire := s.wire.finish conn }
  | .unflag => { s with wire := s.wire.unflag }
  | .detach => { s with wire := s.wire.detach }
  | .abandon => s.abandon
  | .stop => s.stop
  | .halt => s.halt
  | .take => s.take
  | .openTurn => s.openTurn
  | .arm => s.arm
  | .say frame => s.say frame
  | .aim => { s with wire := s.wire.aim }
  | .send => { s with wire := s.wire.send }
  | .ask command => s.ask command
  | .announce => s.announce
  | .wake => s.wake
  | .fail what => s.fail what
  | .collect rt result => s.collect rt result
  | .release => s.release
  | .look => s.look
  | .speak => s.speak
  | .closeBoard refusal => s.closeBoard refusal
  | .finishTurn => s.finishTurn

def wireEvent : ServeEvent → Option WireEvent
  | .attach conn => some (.attach conn)
  | .snapshot => some .snapshot
  | .replay => some .replay
  | .finish conn => some (.finish conn)
  | .unflag => some .unflag
  | .detach => some .detach
  | .aim => some .aim
  | .send => some .send
  | _ => none

inductive Did (client : Nat → String) (s : Serving) : ServeEvent → Serving → Prop where
  | idle (e : ServeEvent) : Did client s e s
  | submit (conn : Nat) :
      Did client s (.submit conn) { s with jobs := s.jobs ++ [{ conn := some conn }] }
  | submitFromPeer (sender boardJob : String) :
      Did client s (.submitFromPeer sender boardJob)
        { s with jobs := s.jobs ++ [{ peerOrigin := sender, boardJob := boardJob }] }
  | cancelNothing (conn : Nat) : s.reads conn = true → s.token = none →
      Did client s (.cancel conn) { s with asked := s.heardFrom conn }
  | cancel (conn : Nat) (set : Bool) : s.reads conn = true → s.token = some set →
      Did client s (.cancel conn) { s with
        asked := s.heardFrom conn
        cancelRequested := s.cancelRequested || true
        token := some true }
  | resolve (conn : Nat) (allow : Bool) (note : String) : s.reads conn = true →
      Did client s (.resolve conn allow note) { s with gate := Gate.resolve allow note }
  | wire (e : ServeEvent) (we : WireEvent) : wireEvent e = some we →
      Did client s e { s with wire := Wire.step client s.wire we }
  | enter (conn : Nat) : s.wire.io = .replaying conn [] →
      Did client s .enter { s with wire := s.wire.enter, reading := s.reading ++ [conn] }
  | leave (conn : Nat) : s.wire.io = .left conn → s.token = none →
      Did client s .abandon { s with wire := s.wire.settle }
  | leaveSet (conn : Nat) (set : Bool) : s.wire.io = .left conn → s.token = some set →
      (set = false → s.worker.inFlight = none) → Did client s .abandon { s with
        wire := s.wire.settle
        cancelRequested := s.cancelRequested || false
        token := some true }
  | abandon (conn : Nat) (job : ServeJob) : s.wire.io = .left conn → s.token = some false →
      s.worker.inFlight = some job → Did client s .abandon { s with
        wire := s.wire.settle
        cancelRequested := s.cancelRequested || false
        token := some true
        abandoned := s.abandoned ++ [(conn, job)] }
  | stop : Did client s .stop { s with stopping := true, jobs := [] }
  | halt : s.stopping = true → s.halted = false →
      Did client s .halt { s with halted := true, token := s.token.map (fun _ => true) }
  | take (job : ServeJob) (jobs : List ServeJob) : s.worker = .idle → s.jobs = job :: jobs →
      Did client s .take { s with worker := .picked job, jobs := jobs, asked := [] }
  | openTurn (job : ServeJob) : s.worker = .picked job → Did client s .openTurn { s with
        wire := s.wire.begin
        stopped := false, heard := false, held := false
        worker := if job.conn = none ∧ job.peerOrigin = "" then .idle else .began job }
  | arm (job : ServeJob) : s.worker = .began job → Did client s .arm { s with
        token := some false, cancelRequested := false, worker := .talking job }
  | say (job : ServeJob) (frame : Frame) : s.worker = .talking job → s.wire.hand = .rest →
      frame.talks = true → Did client s (.say frame) { s with wire := s.wire.record frame }
  | ask (job : ServeJob) (command : String) : s.worker = .talking job → s.wire.hand = .rest →
      Did client s (.ask command) { s with gate := s.gate.opened, worker := .asking job command }
  | announce (job : ServeJob) (command : String) : s.worker = .asking job command →
      Did client s .announce { s with
        wire := s.wire.record (.approvalAsk command), worker := .waiting job }
  | wake (job : ServeJob) : s.worker = .waiting job → s.wire.hand = .rest → s.gate.answered = true →
      Did client s .wake { s with worker := .talking job }
  | fail (job : ServeJob) (what : String) : s.worker = .talking job → s.wire.hand = .rest →
      Did client s (.fail what) { s with worker := .failing job (failed what) }
  | collect (job : ServeJob) (rt : Runtime) (result : ExecutionResult) : s.worker = .talking job →
      s.wire.hand = .rest → Did client s (.collect rt result) { s with
        cancelRequested := false
        heard := s.cancelRequested
        worker := .collected job s.cancelRequested (SessionRunner.closingFrames rt result) }
  | release (job : ServeJob) (asked : Bool) (frames : List Frame) :
      s.worker = .collected job asked frames → Did client s .release { s with
        token := none
        stopped := s.token = some true
        worker := .released job asked (decide (s.token = some true)) frames }
  | look (job : ServeJob) (asked cancelled : Bool) (frames : List Frame) :
      s.worker = .released job asked cancelled frames → Did client s .look { s with
        held := s.pageIsHere job
        worker := if cancelled ∧ ¬ (asked ∧ s.pageIsHere job) then .ending job
          else .closing job frames }
  | speak (job : ServeJob) (frame : Frame) (frames : List Frame) :
      s.worker = .closing job (frame :: frames) → s.wire.hand = .rest →
      Did client s .speak { s with wire := s.wire.record frame, worker := .closing job frames }
  | report (job : ServeJob) (frame : Frame) (frames : List Frame) :
      s.worker = .failing job (frame :: frames) → s.wire.hand = .rest →
      Did client s .speak { s with wire := s.wire.record frame, worker := .failing job frames }
  | refused (job : ServeJob) (what : String) : s.worker = .closing job [] → s.wire.hand = .rest →
      Did client s (.closeBoard (some what)) { s with
        worker := if job.boardJob = "" then .ending job else .failing job (failed what) }
  | close (job : ServeJob) : s.worker = .closing job [] → s.wire.hand = .rest →
      Did client s (.closeBoard none) { s with worker := .ending job }
  | reported (job : ServeJob) (refusal : Option String) : s.worker = .failing job [] →
      s.wire.hand = .rest → Did client s (.closeBoard refusal) { s with worker := .ending job }
  | finishTurn (job : ServeJob) : s.worker = .ending job →
      Did client s .finishTurn { s with worker := .idle, ends := s.ends ++ [⟨s.asked, s.wire⟩] }

variable {client : Nat → String} {s s' : Serving} {e : ServeEvent}

theorem ready_iff : s.ready = true ↔ s.wire.hand = .rest := by simp [ready]

theorem did_cancel (conn : Nat) : Did client s (.cancel conn) (s.cancel conn) := by
  unfold Serving.cancel
  split
  · next hr =>
      unfold requestCancel
      split
      · next ht => exact .cancelNothing conn hr ht
      · next set ht => exact .cancel conn set hr ht
  · exact .idle _

theorem did_abandon : Did client s .abandon s.abandon := by
  unfold Serving.abandon
  split
  · next conn hio =>
      dsimp only
      split
      · next job ht hj =>
          unfold requestCancel
          dsimp only
          rw [ht]
          exact .abandon conn job hio ht hj
      · next hn =>
          unfold requestCancel
          dsimp only
          split
          · next ht => exact .leave conn hio ht
          · next set ht =>
              refine .leaveSet conn set hio ht (fun hset => ?_)
              rw [hset] at ht
              cases hj : s.worker.inFlight with
              | none => rfl
              | some job => exact absurd hj (hn job ht)
  · exact .idle _

theorem did_speak : Did client s .speak s.speak := by
  unfold Serving.speak
  split
  · next job frame frames hw =>
      split
      · next hr => exact .speak job frame frames hw (ready_iff.mp hr)
      · exact .idle _
  · next job frame frames hw =>
      split
      · next hr => exact .report job frame frames hw (ready_iff.mp hr)
      · exact .idle _
  · exact .idle _

theorem did_closeBoard (refusal : Option String) :
    Did client s (.closeBoard refusal) (s.closeBoard refusal) := by
  unfold Serving.closeBoard
  split
  · next job hw =>
      split
      · next hr =>
          cases refusal with
          | none => exact .close job hw (ready_iff.mp hr)
          | some what => exact .refused job what hw (ready_iff.mp hr)
      · exact .idle _
  · next job hw =>
      split
      · next hr => exact .reported job refusal hw (ready_iff.mp hr)
      · exact .idle _
  · exact .idle _

theorem did_step (client : Nat → String) (s : Serving) (e : ServeEvent) :
    Did client s e (step client s e) := by
  cases e with
  | submit conn =>
      simp only [step,Serving.submit]
      split
      · exact .submit conn
      · exact .idle _
  | submitFromPeer sender boardJob =>
      simp only [step,Serving.submitFromPeer]
      split
      · exact .submitFromPeer sender boardJob
      · exact .idle _
  | cancel conn => exact did_cancel conn
  | resolve conn allow note =>
      simp only [step,Serving.resolve]
      split
      · next hr => exact .resolve conn allow note hr
      · exact .idle _
  | attach conn => exact .wire (.attach conn) (.attach conn) rfl
  | snapshot => exact .wire .snapshot .snapshot rfl
  | replay => exact .wire .replay .replay rfl
  | enter =>
      simp only [step,Serving.enter]
      split
      · next conn hio => exact .enter conn hio
      · exact .idle _
  | finish conn => exact .wire (.finish conn) (.finish conn) rfl
  | unflag => exact .wire .unflag .unflag rfl
  | detach => exact .wire .detach .detach rfl
  | abandon => exact did_abandon
  | stop =>
      simp only [step,Serving.stop]
      split
      · exact .idle _
      · exact .stop
  | halt =>
      simp only [step,Serving.halt]
      split
      · next hh => exact .halt hh.1 (eq_false_of_ne_true hh.2)
      · exact .idle _
  | take =>
      simp only [step,Serving.take]
      split
      · next job jobs hw hj => exact .take job jobs hw hj
      · exact .idle _
  | openTurn =>
      simp only [step,Serving.openTurn]
      split
      · next job hw => exact .openTurn job hw
      · exact .idle _
  | arm =>
      simp only [step,Serving.arm]
      split
      · next job hw => exact .arm job hw
      · exact .idle _
  | say frame =>
      simp only [step,Serving.say]
      split
      · next job hw =>
          split
          · next hr => exact .say job frame hw (ready_iff.mp hr.1) hr.2
          · exact .idle _
      · exact .idle _
  | aim => exact .wire .aim .aim rfl
  | send => exact .wire .send .send rfl
  | ask command =>
      simp only [step,Serving.ask]
      split
      · next job hw =>
          split
          · next hr => exact .ask job command hw (ready_iff.mp hr)
          · exact .idle _
      · exact .idle _
  | announce =>
      simp only [step,Serving.announce]
      split
      · next job command hw => exact .announce job command hw
      · exact .idle _
  | wake =>
      simp only [step,Serving.wake]
      split
      · next job hw =>
          split
          · next hr => exact .wake job hw (ready_iff.mp hr.1) hr.2
          · exact .idle _
      · exact .idle _
  | fail what =>
      simp only [step,Serving.fail]
      split
      · next job hw =>
          split
          · next hr => exact .fail job what hw (ready_iff.mp hr)
          · exact .idle _
      · exact .idle _
  | collect rt result =>
      simp only [step,Serving.collect]
      split
      · next job hw =>
          split
          · next hr => exact .collect job rt result hw (ready_iff.mp hr)
          · exact .idle _
      · exact .idle _
  | release =>
      simp only [step,Serving.release]
      split
      · next job asked frames hw => exact .release job asked frames hw
      · exact .idle _
  | look =>
      simp only [step,Serving.look]
      split
      · next job asked cancelled frames hw => exact .look job asked cancelled frames hw
      · exact .idle _
  | speak => exact did_speak
  | closeBoard refusal => exact did_closeBoard refusal
  | finishTurn =>
      simp only [step,Serving.finishTurn]
      split
      · next job hw => exact .finishTurn job hw
      · exact .idle _

def still : WorkerAt → Bool
  | .talking _ => false
  | .waiting _ => false
  | .closing _ _ => false
  | .failing _ _ => false
  | _ => true

structure Served (s : Serving) : Prop where
  wired : Wire.Wired s.wire
  quiet : still s.worker = true → s.wire.hand = .rest
  armed : s.worker.inFlight ≠ none → s.token ≠ none

theorem served_start : Served {} := ⟨Wire.wired_start,fun _ => rfl,fun h => absurd rfl h⟩

theorem wire_did (hd : Did client s e s') :
    s'.wire = s.wire ∨ ∃ we, s'.wire = Wire.step client s.wire we := by
  cases hd with
  | wire e we he => exact .inr ⟨we,rfl⟩
  | enter conn hio => exact .inr ⟨.enter,rfl⟩
  | leave conn hio ht => exact .inr ⟨.settle,rfl⟩
  | leaveSet conn set hio ht hj => exact .inr ⟨.settle,rfl⟩
  | abandon conn job hio ht hj => exact .inr ⟨.settle,rfl⟩
  | openTurn job hw => exact .inr ⟨.begin,rfl⟩
  | say job frame hw hr ht => exact .inr ⟨.record frame,rfl⟩
  | announce job command hw => exact .inr ⟨.record (.approvalAsk command),rfl⟩
  | speak job frame frames hw hr => exact .inr ⟨.record frame,rfl⟩
  | report job frame frames hw hr => exact .inr ⟨.record frame,rfl⟩
  | _ => exact .inl rfl

theorem hand_rest {w w' : Wire} {we : WireEvent} (hd : Wire.Did client w we w')
    (hr : w.hand = .rest)
    (hrecord : ∀ frame, we ≠ .record frame) : w'.hand = .rest := by
  cases hd with
  | record frame hh => exact absurd rfl (hrecord frame)
  | aim f hh hio =>
      rw [hr] at hh
      cases hh
  | send f conn hh => rfl
  | keep f hh => rfl
  | _ => exact hr

theorem wireEvent_quiet {we : WireEvent} (h : wireEvent e = some we) (frame : Frame) :
    we ≠ .record frame := by
  rintro rfl
  cases e <;> cases h

theorem served_did (h : Served s) (hd : Did client s e s') : Served s' := by
  have hw : Wire.Wired s'.wire := by
    rcases wire_did hd with hsame | ⟨we,hwe⟩
    · rw [hsame]
      exact h.wired
    · rw [hwe]
      exact Wire.wired_step h.wired we
  have hkeep : ∀ we, (∀ frame, we ≠ .record frame) → still s.worker = true →
      (Wire.step client s.wire we).hand = .rest := fun we hrecord hs =>
    hand_rest (Wire.did_step client s.wire we) (h.quiet hs) hrecord
  cases hd with
  | idle e => exact h
  | submit conn => exact ⟨hw,h.quiet,h.armed⟩
  | submitFromPeer sender boardJob => exact ⟨hw,h.quiet,h.armed⟩
  | cancelNothing conn hr ht => exact ⟨hw,h.quiet,h.armed⟩
  | cancel conn set hr ht => exact ⟨hw,h.quiet,fun _ hn => by cases hn⟩
  | resolve conn allow note hr => exact ⟨hw,h.quiet,h.armed⟩
  | wire e we he => exact ⟨hw,hkeep we (wireEvent_quiet he),h.armed⟩
  | enter conn hio => exact ⟨hw,hkeep .enter (fun _ hn => by cases hn),h.armed⟩
  | leave conn hio ht => exact ⟨hw,hkeep .settle (fun _ hn => by cases hn),h.armed⟩
  | leaveSet conn set hio ht hj =>
      exact ⟨hw,hkeep .settle (fun _ hn => by cases hn),fun _ hn => by cases hn⟩
  | abandon conn job hio ht hj =>
      exact ⟨hw,hkeep .settle (fun _ hn => by cases hn),fun _ hn => by cases hn⟩
  | stop => exact ⟨hw,h.quiet,h.armed⟩
  | halt hs hh => exact ⟨hw,h.quiet,fun hj hn => h.armed hj (Option.map_eq_none_iff.mp hn)⟩
  | take job jobs hidle hj =>
      exact ⟨hw,fun _ => h.quiet (by rw [hidle]; rfl),fun hn => absurd rfl hn⟩
  | openTurn job hp =>
      refine ⟨hw,fun _ => hkeep .begin (fun _ hn => by cases hn) (by rw [hp]; rfl),fun hn => ?_⟩
      dsimp only at hn
      split at hn <;> exact absurd rfl hn
  | arm job hb => exact ⟨hw,fun hs => (by cases hs),fun _ hn => by cases hn⟩
  | say job frame ht hr hf =>
      refine ⟨hw,fun hs => ?_,h.armed⟩
      dsimp only at hs
      rw [ht] at hs
      cases hs
  | ask job command ht hr =>
      exact ⟨hw,fun _ => hr,fun _ => h.armed (by rw [ht]; intro hn; cases hn)⟩
  | announce job command ha =>
      exact ⟨hw,fun hs => (by cases hs),fun _ => h.armed (by rw [ha]; intro hn; cases hn)⟩
  | wake job hwt hr hg =>
      exact ⟨hw,fun hs => (by cases hs),fun _ => h.armed (by rw [hwt]; intro hn; cases hn)⟩
  | fail job what ht hr => exact ⟨hw,fun hs => (by cases hs),fun hn => absurd rfl hn⟩
  | collect job rt result ht hr =>
      exact ⟨hw,fun _ => hr,fun _ => h.armed (by rw [ht]; intro hn; cases hn)⟩
  | release job asked frames hc =>
      exact ⟨hw,fun _ => h.quiet (by rw [hc]; rfl),fun hn => absurd rfl hn⟩
  | look job asked cancelled frames hl =>
      refine ⟨hw,fun _ => h.quiet (by rw [hl]; rfl),fun hn => ?_⟩
      dsimp only at hn
      split at hn <;> exact absurd rfl hn
  | speak job frame frames hc hr => exact ⟨hw,fun hs => (by cases hs),fun hn => absurd rfl hn⟩
  | report job frame frames hf hr => exact ⟨hw,fun hs => (by cases hs),fun hn => absurd rfl hn⟩
  | refused job what hc hr =>
      refine ⟨hw,fun _ => hr,fun hn => ?_⟩
      dsimp only at hn
      split at hn <;> exact absurd rfl hn
  | close job hc hr => exact ⟨hw,fun _ => hr,fun hn => absurd rfl hn⟩
  | reported job refusal hf hr => exact ⟨hw,fun _ => hr,fun hn => absurd rfl hn⟩
  | finishTurn job he => exact ⟨hw,fun _ => h.quiet (by rw [he]; rfl),fun hn => absurd rfl hn⟩

theorem served_step (h : Served s) (e : ServeEvent) : Served (step client s e) :=
  served_did h (did_step client s e)

end Serving

end PuCli
