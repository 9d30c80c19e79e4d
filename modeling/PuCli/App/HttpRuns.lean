import PuCli.App.HttpEffects

namespace PuCli

open Serve (Board Tick Verb)

namespace Http

-- The server between two requests, with the turn its worker is running.
structure Live where
  server : Server
  running : Option Job := none

namespace Live

-- A session moves outside the requests too, in a turn or by the page's socket: the peers it is
-- configured with are all that the requests rely on there.
inductive Event where
  | request (q : Received)
  | submit (text : String)
  | start
  | session (rt : Runtime)
  | close (tick : Tick) (result : ExecutionResult)
  | finish
  | stop

section Step

variable (site : Site) (views : Views) (pages : List String)

def step (l : Live) : Event → Live
  | .request q => { l with server := (dispatch site views pages q l.server).2 }
  | .submit text =>
      match l.server.jobs with
      | none => l
      | some jobs =>
          let r := SessionRunner.submit site.host ⟨l.server.runtime,jobs⟩ text
          { l with server := { l.server with runtime := r.runtime, jobs := some r.jobs } }
  | .start =>
      match l.running, l.server.jobs with
      | none, some (job :: jobs) =>
          { server := { l.server with jobs := some jobs }, running := some job }
      | _, _ => l
  | .session rt =>
      { l with
        server := { l.server with runtime := { rt with peers := l.server.runtime.peers } } }
  | .close tick result =>
      match l.running with
      | none => l
      | some job =>
          match SessionRunner.closeOn tick l.server.board
              (SessionRunner.closeBoardJob l.server.runtime.peers job.boardJob result) with
          | .ok board => { l with server := { l.server with board := board } }
          | .error _ => l
  | .finish => { l with running := none }
  | .stop => { l with server := { l.server with jobs := l.server.jobs.map (fun _ => []) } }

end Step

variable {site : Site} {views : Views} {pages : List String} {l l' : Live} {e : Event}

theorem step_session_runJob {ρ : Type} (serve : Conversation → ρ → Conversation) (script : Script ρ)
    (ending : Ending) (job : Job) :
    step site views pages l
        (.session (SessionRunner.runJob site serve script ending job l.server.runtime).runtime) =
      { l with server := { l.server with
        runtime := (SessionRunner.runJob site serve script ending job l.server.runtime).runtime } } := by
  have hpeers : (SessionRunner.runJob site serve script ending job l.server.runtime).runtime.peers =
      l.server.runtime.peers := by
    unfold SessionRunner.runJob
    split
    · rfl
    · rw [SessionRunner.runtime_report]
      exact Runtime.peers_processInput
  rw [step,← hpeers]

theorem peers_step : (step site views pages l e).server.runtime.peers = l.server.runtime.peers := by
  cases e with
  | request q =>
      have heffect := @effect_dispatch site pages views q l.server
      rw [step]
      generalize dispatch site views pages q l.server = p at heffect
      cases heffect with
      | spared _ _ hpeers _ => exact hpeers
      | touched _ _ _ _ => rfl
      | served _ _ _ _ _ _ => rfl
      | queued _ _ _ _ _ _ => rfl
  | submit text =>
      rw [step]
      split <;> rfl
  | start =>
      rw [step]
      split <;> rfl
  | session rt => rfl
  | close tick result =>
      rw [step]
      split
      · rfl
      · split <;> rfl
  | finish => rfl
  | stop => rfl

def turns (l : Live) : List Job := l.running.toList ++ l.server.jobs.getD []

-- No turn waits or runs that another server asked for.
def Own (l : Live) : Prop := ∀ job ∈ l.turns, job.peerOrigin = "" ∧ job.boardJob = ""

theorem own_step (hown : Own l) (h : ∀ q, e = .request q → ¬ Admitted q l.server) :
    Own (step site views pages l e) ∧ (step site views pages l e).server.board = l.server.board := by
  cases e with
  | request q =>
      have hno := h q rfl
      have heffect := @effect_dispatch site pages views q l.server
      rw [step]
      generalize dispatch site views pages q l.server = p at heffect
      cases heffect with
      | spared hboard hjobs _ _ =>
          refine ⟨?_,hboard⟩
          unfold Own turns
          rw [hjobs]
          exact hown
      | touched _ ha _ _ => exact absurd ha hno
      | served _ _ ha _ _ _ => exact absurd ha hno
      | queued ha _ _ _ _ _ => exact absurd ha hno
  | submit text =>
      rw [step]
      split
      · exact ⟨hown,rfl⟩
      · next jobs hjobs =>
          refine ⟨?_,rfl⟩
          intro job hjob
          unfold Own turns at hown
          rw [hjobs] at hown
          simp only [turns,SessionRunner.submit,Option.getD_some,← List.append_assoc] at hjob
          rcases List.mem_append.mp hjob with hold | hnew
          · exact hown job hold
          · rw [List.mem_singleton.mp hnew]
            exact ⟨rfl,rfl⟩
  | start =>
      rw [step]
      split
      · next job jobs hrunning hjobs =>
          refine ⟨?_,rfl⟩
          unfold Own turns at hown ⊢
          rw [hrunning,hjobs] at hown
          exact hown
      · exact ⟨hown,rfl⟩
  | session rt => exact ⟨hown,rfl⟩
  | close tick result =>
      rw [step]
      split
      · exact ⟨hown,rfl⟩
      · next job hrunning =>
          have hjob : job.boardJob = "" := (hown job (by simp [turns,hrunning])).2
          have hnone : SessionRunner.closeBoardJob l.server.runtime.peers job.boardJob result = none := by
            unfold SessionRunner.closeBoardJob
            split
            · rfl
            · rw [if_pos (.inl hjob)]
          rw [hnone]
          cases hb : l.server.board <;> exact ⟨hown,rfl⟩
  | finish =>
      refine ⟨?_,rfl⟩
      intro job hjob
      exact hown job (List.mem_append_right _ hjob)
  | stop =>
      refine ⟨?_,rfl⟩
      intro job hjob
      refine hown job (List.mem_append_left _ ?_)
      unfold turns step at hjob
      dsimp only at hjob
      cases hjobs : l.server.jobs <;> simpa [hjobs] using hjob

def Tokenless (s : Server) (e : Event) : Prop := ∀ q, e = .request q → ¬ Admitted q s

theorem tokenless_of_peers {s s' : Server} (h : s'.runtime.peers = s.runtime.peers)
    (he : Tokenless s e) : Tokenless s' e := by
  intro q hq
  unfold Admitted
  rw [h]
  exact he q hq

theorem run_without_token (hown : Own l) (es : List Event) (h : ∀ e ∈ es, Tokenless l.server e) :
    ∀ t ∈ Run.visited (step site views pages) l es, Own t ∧ t.server.board = l.server.board := by
  have hstep : ∀ t e, ((Own t ∧ t.server.board = l.server.board) ∧
      t.server.runtime.peers = l.server.runtime.peers) → Tokenless l.server e →
      (Own (step site views pages t e) ∧
        (step site views pages t e).server.board = l.server.board) ∧
      (step site views pages t e).server.runtime.peers = l.server.runtime.peers := by
    rintro t e ⟨⟨ht,hboard⟩,hpeers⟩ he
    obtain ⟨hnext,hkept⟩ := @own_step site views pages t e ht (tokenless_of_peers hpeers he)
    exact ⟨⟨hnext,hkept.trans hboard⟩,peers_step.trans hpeers⟩
  have hrun := Run.visited_inv hstep ⟨⟨hown,rfl⟩,rfl⟩ (Run.along_of_forall h)
  exact fun t ht => (hrun t ht).1

def freshC : Live := ⟨{ runtime := Runtime.servingC },none⟩

def readsJobs (authorization : String) : Event := .request {
  request := { method := .get, target := "/api/jobs", authorization := Utf8.bytesOf authorization }
  address := "10.0.0.2"
  tick := Board.tickAt "1" ""
  clock := ⟨"",fun _ => none⟩ }

theorem run_without_token_wrong :
    (([readsJobs "Bearer guess", .submit "hi", .start].foldl (step asksSite noViews []) freshC).turns.map
        Job.text = ["hi"]) ∧
      ∀ t ∈ Run.visited (step asksSite noViews []) freshC
          [readsJobs "Bearer guess", .submit "hi", .start],
        Own t ∧ t.server.board = freshC.server.board := by
  refine ⟨by decide,run_without_token (fun job hjob => absurd hjob List.not_mem_nil) _ ?_⟩
  intro e he q hq
  simp only [List.mem_cons,List.not_mem_nil,or_false] at he
  rcases he with rfl | rfl | rfl
  · rw [readsJobs,Event.request.injEq] at hq
    rw [← hq]
    decide
  · cases hq
  · cases hq

def HeardOnly (self : String) (board : Option Board) : Prop :=
  ∀ b ∈ board, b.heard = [] ∨ b.heard = [self]

theorem HeardOnly.of_heard {self : String} {b b' : Board} (h : HeardOnly self (some b))
    (hb : b'.heard = b.heard) : HeardOnly self (some b') := by
  intro c hc
  rw [← Option.some.inj hc,hb]
  exact h b rfl

theorem HeardOnly.touchPeer {self : String} {b : Board} (tick : Tick) (h : HeardOnly self (some b)) :
    HeardOnly self (some (b.touchPeer tick self "")) := by
  intro c hc
  rw [← Option.some.inj hc]
  exact Board.heard_touchPeer tick "" (h b rfl)

theorem heardOnly_received {self : String} {tick : Tick} {cfg : PeerConfig} {a : Arrival}
    {before board : Option Board} (h : HeardOnly self before)
    (hreceived : SessionRunner.received tick cfg before a = .ok board) : HeardOnly self board := by
  cases before with
  | none =>
      unfold SessionRunner.received SessionRunner.claimOn at hreceived
      split at hreceived
      · cases hreceived
      · split at hreceived
        · cases hreceived
        · split at hreceived
          · cases hreceived
          · cases hreceived
            exact h
  | some b =>
      rcases (Intake.received_ok hreceived).2 with rfl | ⟨r,b',hup,rfl⟩
      · exact h
      · exact h.of_heard (Board.heard_accepted (.update hup))

theorem heardOnly_closeOn {self : String} {tick : Tick} {close : Option JobClose}
    {before board : Option Board} (h : HeardOnly self before)
    (hclose : SessionRunner.closeOn tick before close = .ok board) : HeardOnly self board := by
  unfold SessionRunner.closeOn at hclose
  split at hclose
  · next b c =>
      cases hup : b.update tick c.request with
      | error what =>
          rw [hup] at hclose
          cases hclose
      | ok done =>
          rw [hup] at hclose
          cases hclose
          exact h.of_heard (Board.heard_accepted (.update hup))
  · cases hclose
    exact h

theorem heardOnly_step {cfg : PeerConfig} (hpeers : l.server.runtime.peers = some cfg)
    (h : HeardOnly cfg.selfName l.server.board) :
    HeardOnly cfg.selfName (step site views pages l e).server.board := by
  cases e with
  | request q =>
      have heffect := @effect_dispatch site pages views q l.server
      rw [step]
      generalize dispatch site views pages q l.server = p at heffect
      cases heffect with
      | spared hboard _ _ _ =>
          dsimp only
          rwa [hboard]
      | touched _ _ hpeers' hb =>
          obtain rfl := Option.some.inj (hpeers.symm.trans hpeers')
          rw [hb] at h
          exact h.touchPeer q.tick
      | served verb hv _ hpeers' hb _ =>
          obtain rfl := Option.some.inj (hpeers.symm.trans hpeers')
          rw [hb] at h
          exact (h.touchPeer q.tick).of_heard (Board.heard_serve hv)
      | queued _ _ _ _ hreceived _ => exact heardOnly_received h hreceived
  | submit text =>
      rw [step]
      split <;> exact h
  | start =>
      rw [step]
      split <;> exact h
  | session rt => exact h
  | close tick result =>
      rw [step]
      split
      · exact h
      · split
        · next hclose => exact heardOnly_closeOn h hclose
        · exact h
  | finish => exact h
  | stop => exact h

theorem run_hears_only_itself {cfg : PeerConfig} (hpeers : l.server.runtime.peers = some cfg)
    (h : HeardOnly cfg.selfName l.server.board) (es : List Event) :
    ∀ t ∈ Run.visited (step site views pages) l es, HeardOnly cfg.selfName t.server.board := by
  have hstep : ∀ t e,
      (t.server.runtime.peers = some cfg ∧ HeardOnly cfg.selfName t.server.board) → True →
      (step site views pages t e).server.runtime.peers = some cfg ∧
        HeardOnly cfg.selfName (step site views pages t e).server.board := by
    rintro t e ⟨ht,hheard⟩ _
    exact ⟨peers_step.trans ht,heardOnly_step ht hheard⟩
  have hrun := Run.visited_inv hstep ⟨hpeers,h⟩ (Run.along_true l es)
  exact fun t ht => (hrun t ht).2

theorem run_hears_only_itself_read :
    (([readsJobs "Bearer secret"].foldl (step asksSite noViews []) freshC).server.board.map
        Board.heard = some ["C"]) ∧
      ∀ t ∈ Run.visited (step asksSite noViews []) freshC [readsJobs "Bearer secret"],
        HeardOnly "C" t.server.board := by
  refine ⟨by decide,?_⟩
  refine @run_hears_only_itself asksSite noViews [] freshC Runtime.twoPeers rfl ?_ _
  intro b hb
  rw [← Option.some.inj hb]
  exact .inl rfl

-- The intake machine's view of a live server, between two of its requests.
structure Shows (cfg : PeerConfig) (l : Live) (d : Intake) : Prop where
  peers : l.server.runtime.peers = some cfg
  board : l.server.board = some d.board
  jobs : l.server.jobs = some d.jobs
  running : l.running = d.running
  claimed : d.claimed = none

-- What the machine does for a request: it stands, hears who asked, serves a verb besides, or
-- claims what a message brings and queues it.
inductive Answered (text : JsonText) (pages : List String) (q : Received) : List Intake.Event → Prop
  | stood : Answered text pages q []
  | heard (self : String) : Answered text pages q [.verb (q.tick, .touch self "")]
  | served (self : String) (verb : Verb) (hv : ∀ peer state, verb ≠ .touch peer state) :
      Answered text pages q [.verb (q.tick, .touch self ""), .verb (q.tick, verb)]
  | message {a : Arrival} (turnId : String) (h : Hands text pages q a) :
      Answered text pages q [.claim q.tick a, .submitFromPeer turnId]

def Plays (text : JsonText) (pages : List String) (e : Event) (block : List Intake.Event) : Prop :=
  match e with
  | .request q => Answered text pages q block
  | .submit said => ∃ turnId, block = [.submit said turnId]
  | .start => block = [.start]
  | .session _ => block = []
  | .close tick _ => block = [] ∨ ∃ failed said, block = [.close tick failed said]
  | .finish => block = [.finish]
  | .stop => block = [.stop]

theorem shows_request {cfg : PeerConfig} {d : Intake} (q : Received) (h : Shows cfg l d) :
    ∃ block, Answered site.host.text pages q block ∧
      Shows cfg (step site views pages l (.request q)) (block.foldl (Intake.step cfg) d) := by
  obtain ⟨hpeers,hboard,hjobs,hrunning,hclaimed⟩ := h
  have heffect := @effect_dispatch site pages views q l.server
  rw [step]
  generalize dispatch site views pages q l.server = p at heffect
  cases heffect with
  | spared hsame hqueue htopology _ =>
      exact ⟨[],.stood,htopology.trans hpeers,hsame.trans hboard,hqueue.trans hjobs,hrunning,
        hclaimed⟩
  | touched _ _ hpeers' hb =>
      obtain rfl := Option.some.inj (hpeers.symm.trans hpeers')
      obtain rfl := Option.some.inj (hb.symm.trans hboard)
      exact ⟨_,.heard cfg.selfName,hpeers,rfl,hjobs,hrunning,hclaimed⟩
  | served verb hv _ hpeers' hb _ =>
      obtain rfl := Option.some.inj (hpeers.symm.trans hpeers')
      obtain rfl := Option.some.inj (hb.symm.trans hboard)
      exact ⟨_,.served cfg.selfName verb hv,hpeers,rfl,hjobs,hrunning,hclaimed⟩
  | @queued _ a jobs board _ _ hpeers' hhands hjobs' hreceived _ =>
      obtain rfl := Option.some.inj (hpeers.symm.trans hpeers')
      obtain rfl := Option.some.inj (hjobs'.symm.trans hjobs)
      rw [hboard] at hreceived
      have htaken : ∃ b', board = some b' := by
        rcases (Intake.received_ok hreceived).2 with hsame | ⟨_,b',_,hb'⟩
        · exact ⟨_,hsame⟩
        · exact ⟨b',hb'⟩
      obtain ⟨b',rfl⟩ := htaken
      refine ⟨_,.message (site.host.newId l.server.runtime.drawn) hhands,?_⟩
      simp only [List.foldl_cons,List.foldl_nil,Intake.step,hclaimed,hreceived]
      exact ⟨hpeers,rfl,rfl,hrunning,rfl⟩

theorem closeOn_cases (tick : Tick) (b : Board) (close : JobClose) :
    (∃ what, SessionRunner.closeOn tick (some b) (some close) = .error what ∧
      b.serve (tick, .update close.request) = b) ∨
    SessionRunner.closeOn tick (some b) (some close) =
      .ok (some (b.serve (tick, .update close.request))) := by
  unfold SessionRunner.closeOn Board.serve
  dsimp only
  cases b.update tick close.request with
  | error what => exact .inl ⟨what,rfl,rfl⟩
  | ok done => exact .inr rfl

theorem closeBoardJob_request {cfg : PeerConfig} {job : String} {result : ExecutionResult}
    {close : JobClose} (h : SessionRunner.closeBoardJob (some cfg) job result = some close) :
    ∃ failed text, close.request = Board.closing cfg.selfName job failed text := by
  unfold SessionRunner.closeBoardJob at h
  dsimp only at h
  split at h
  · cases h
  · cases h
    exact ⟨_,_,rfl⟩

theorem shows_close {cfg : PeerConfig} {d : Intake} (tick : Tick) (result : ExecutionResult)
    (h : Shows cfg l d) :
    ∃ block, Plays site.host.text pages (.close tick result) block ∧
      Shows cfg (step site views pages l (.close tick result)) (block.foldl (Intake.step cfg) d) := by
  rw [step,h.peers,h.board]
  cases hr : l.running with
  | none => exact ⟨[],.inl rfl,h⟩
  | some job =>
      have hrunning : d.running = some job := h.running.symm.trans hr
      cases hclose : SessionRunner.closeBoardJob (some cfg) job.boardJob result with
      | none =>
          refine ⟨[],.inl rfl,?_⟩
          simp only [hclose]
          exact ⟨h.peers,rfl,h.jobs,hrunning.symm,h.claimed⟩
      | some close =>
          obtain ⟨failed,text,hrequest⟩ := closeBoardJob_request hclose
          refine ⟨[.close tick failed text],.inr ⟨_,_,rfl⟩,?_⟩
          simp only [hclose,List.foldl_cons,List.foldl_nil,Intake.step,hrunning,← hrequest]
          rcases closeOn_cases tick d.board close with ⟨what,hno,hsame⟩ | hok
          · rw [hno,hsame]
            exact ⟨h.peers,h.board,h.jobs,h.running.trans hrunning,h.claimed⟩
          · rw [hok]
            exact ⟨h.peers,rfl,h.jobs,rfl,h.claimed⟩

theorem shows_step {cfg : PeerConfig} {d : Intake} (h : Shows cfg l d) (e : Event) :
    ∃ block, Plays site.host.text pages e block ∧
      Shows cfg (step site views pages l e) (block.foldl (Intake.step cfg) d) := by
  cases e with
  | request q => exact shows_request q h
  | submit text =>
      refine ⟨[.submit text (site.host.newId l.server.runtime.drawn)],⟨_,rfl⟩,?_⟩
      rw [step,h.jobs]
      exact ⟨h.peers,h.board,rfl,h.running,h.claimed⟩
  | start =>
      refine ⟨[.start],rfl,?_⟩
      simp only [step,List.foldl_cons,List.foldl_nil,Intake.step,h.running,h.jobs]
      split
      · next job jobs hrunning hjobs =>
          rw [hrunning,Option.some.inj hjobs]
          exact ⟨h.peers,h.board,rfl,rfl,h.claimed⟩
      · next hno =>
          split
          · next job jobs hrunning hjobs => exact absurd (congrArg some hjobs) (hno job jobs hrunning)
          · exact h
  | session rt => exact ⟨[],rfl,h.peers,h.board,h.jobs,h.running,h.claimed⟩
  | close tick result => exact shows_close tick result h
  | finish => exact ⟨[.finish],rfl,h.peers,h.board,h.jobs,rfl,h.claimed⟩
  | stop =>
      refine ⟨[.stop],rfl,h.peers,h.board,?_,h.running,h.claimed⟩
      rw [step,h.jobs]
      rfl

-- After any part of a run the machine stands where the blocks for that part have brought it.
theorem run_refines_intake {cfg : PeerConfig} {d : Intake} (h : Shows cfg l d) (es : List Event) :
    ∃ blocks, List.Forall₂ (Plays site.host.text pages) es blocks ∧
      ∀ n, Shows cfg ((es.take n).foldl (step site views pages) l)
        ((blocks.take n).flatten.foldl (Intake.step cfg) d) :=
  Run.simulated (R := Shows cfg) (fun _ _ e hs => shows_step hs e) h es

def arrivedA : Intake where
  jobs := [(⟨"A","go",""⟩ : Arrival).turn (asksSite.host.newId 0)]

theorem run_refines_intake_message :
    ([.claim fromA.tick ⟨"A","go",""⟩,.submitFromPeer (asksSite.host.newId 0)] :
        List Intake.Event).foldl (Intake.step Runtime.twoPeers) {} = arrivedA ∧
      Shows Runtime.twoPeers (step asksSite noViews [] freshC (.request fromA)) arrivedA ∧
      ∃ blocks, List.Forall₂ (Plays asksSite.host.text []) [.request fromA,.start,.finish] blocks ∧
        ∀ n, Shows Runtime.twoPeers
          ((([.request fromA,.start,.finish] : List Event).take n).foldl (step asksSite noViews [])
            freshC)
          ((blocks.take n).flatten.foldl (Intake.step Runtime.twoPeers) {}) :=
  ⟨rfl,⟨rfl,rfl,rfl,rfl,rfl⟩,run_refines_intake ⟨rfl,rfl,rfl,rfl,rfl⟩ _⟩

end Live

end Http

end PuCli
