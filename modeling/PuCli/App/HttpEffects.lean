import PuCli.App.HttpRoutes
import PuCli.App.Intake

namespace PuCli

open Json InPlace
open Serve (Board BoardError JobRequest Tick Verb)

theorem Runtime.sameTalk_clearSettings {host : Host} (rt : Runtime) :
    SameTalk rt (rt.clearSettings host).2 := by
  unfold clearSettings applyToolBudget
  dsimp only
  cases (rt.store rt.current.clearOverrides).inForce host <;> exact ⟨rfl,rfl⟩

theorem Runtime.currentBackend_error_iff {host : Host} {rt : Runtime} :
    (∃ what, rt.currentBackend host = .error what) ↔ ¬ Typed rt.overrides := by
  unfold currentBackend
  cases hs : rt.session with
  | none =>
      have hover : rt.overrides = ∅ := by
        unfold overrides
        rw [hs]
      rw [hover]
      simp [typed_empty]
  | some s =>
      dsimp only
      unfold inForce
      cases hr : InForce.resolve host.text host.toFloat rt.configuredBackend rt.configuredToolBudget
          rt.overrides with
      | ok f =>
          have ht := (InForce.resolve_eq_ok_iff.mp hr).1
          simp [ht,Except.map]
      | error what =>
          have hno : ¬ Typed rt.overrides := by
            intro ht
            rw [InForce.resolve_of_typed ht] at hr
            cases hr
          simp [hno,Except.map]

theorem SessionRunner.claimed_of_update {tick : Tick} {b b' : Board} {self id : String}
    {r : Serve.ActionResult} (h : b.update tick (claim self id) = .ok (r, b')) :
    r.job.state = .claimed := by
  obtain ⟨_,_,_,moved,_,_,_,_,hmoved,hjob,_⟩ := Board.update_ok h
  have hstate : some Serve.JobState.claimed = some moved.state := (Board.move_ok hmoved).1
  rw [hjob]
  exact (Option.some.inj hstate).symm

namespace Http

-- A request that asks for nothing a peer is told or a turn hears.
structure Quiet (s s' : Server) : Prop where
  board : s'.board = s.board
  jobs : s'.jobs = s.jobs
  peers : s'.runtime.peers = s.runtime.peers
  talk : s'.runtime.talk = s.runtime.talk

theorem Quiet.of_sameTalk {s : Server} {rt : Runtime} (h : Runtime.SameTalk s.runtime rt) :
    Quiet s { s with runtime := rt } := ⟨rfl,rfl,h.peers,h.talk⟩

instance : IsPreorder Server Quiet where
  refl _ := ⟨rfl,rfl,rfl,rfl⟩
  trans _ _ _ h h' :=
    ⟨h'.board.trans h.board,h'.jobs.trans h.jobs,h'.peers.trans h.peers,h'.talk.trans h.talk⟩

section Sparing

variable {site : Site} {views : Views} {s : Server} {c : Call} {body : Json}

theorem quiet_openSession : Within Quiet openSession := fun _ => .of_sameTalk ⟨rfl,rfl⟩

theorem ran_currentBackend : ran (currentBackend site) s =
    ((s.runtime.currentBackend site.host).mapError .other, s) := by
  unfold currentBackend
  rw [ran_bind_get]
  cases s.runtime.currentBackend site.host <;> rfl

theorem quiet_currentBackend : Within Quiet (currentBackend site) := by
  intro s
  rw [ran_currentBackend]
  exact refl_of Quiet s

theorem quiet_withRuntime {act : Runtime → Except String Unit × Runtime}
    (h : ∀ rt, Runtime.SameTalk rt (act rt).2) : Within Quiet (withRuntime act) := by
  intro s
  unfold withRuntime
  rw [ran_bind_get,ran_bind_modify]
  cases (act s.runtime).1 <;> exact .of_sameTalk (h s.runtime)

theorem ran_saveCurrentSession (c : Call) (s : Server) : ran (saveCurrentSession c) s =
    (match s.runtime.session, c.saving with
      | some _, some what => .error (.other what)
      | _, _ => .ok (), s) := by
  unfold saveCurrentSession
  rw [ran_bind_get]
  cases s.runtime.session <;> cases c.saving <;> rfl

theorem quiet_saveCurrentSession : Within Quiet (saveCurrentSession c) := by
  intro s
  rw [ran_saveCurrentSession]
  exact refl_of Quiet s

theorem quiet_requireString {key : String} : Within Quiet (requireString body key) := by
  unfold requireString
  split
  · exact within_pure _
  · exact within_throw _

theorem quiet_settingsBody : Within Quiet settingsBody :=
  within_bind within_get (fun _ => within_pure _)

theorem quiet_session : Within Quiet (handleApiSession site views c body) := by
  refine within_bind quiet_openSession (fun _ => within_bind quiet_currentBackend (fun _ => ?_))
  exact within_bind within_get (fun _ => within_pure _)

theorem quiet_agentSwitch : Within Quiet (handleApiAgentSwitch site c body) := by
  refine within_bind quiet_requireString (fun name => within_bind within_get (fun s => ?_))
  split
  · exact within_throw _
  · next agent _ =>
      refine within_bind (quiet_withRuntime (fun rt => ?_)) (fun _ => ?_)
      · exact Runtime.sameTalk_switchAgent agent
      · split
        · exact within_bind quiet_saveCurrentSession (fun _ => within_pure _)
        · exact within_pure _

theorem quiet_setSetting : Within Quiet (handleApiSetSetting site c body) := by
  refine within_bind quiet_requireString (fun name => ?_)
  dsimp only
  split
  · exact within_throw _
  · refine within_bind (quiet_withRuntime (fun rt => ?_)) (fun _ => ?_)
    · exact Runtime.sameTalk_setSetting _ _
    · exact within_bind quiet_saveCurrentSession (fun _ => quiet_settingsBody)

theorem quiet_resetSettings : Within Quiet (handleApiResetSettings site c body) := by
  refine within_bind (quiet_withRuntime Runtime.sameTalk_clearSettings) (fun _ => ?_)
  exact within_bind quiet_saveCurrentSession (fun _ => quiet_settingsBody)

theorem quiet_read {read : Runtime → Json} :
    Within Quiet (do openSession; let s ← get; pure (read s.runtime)) :=
  within_bind quiet_openSession (fun _ => within_bind within_get (fun _ => within_pure _))

theorem quiet_boardOf : Within Quiet boardOf := by
  refine within_bind within_get (fun s => ?_)
  split
  · exact within_throw _
  · exact within_pure _

end Sparing

def turnOf (body : Json) : Int32 := valueOrDefault body "turn" 0

-- A rewind that goes through on a session that cannot be saved afterwards.
def Cuts (c : Call) (body : Json) (s : Server) : Prop :=
  c.saving ≠ none ∧ ¬ turnOf body < 1 ∧
    ∃ cut, s.runtime.talk.rewindBefore (turnOf body).toInt.toNat = .ok (true, cut)

-- A rewind is the one of them that moves the conversation, and `exempt` says where it then fails.
structure Spares (exempt : Prop) (s : Server) (r : Except ApiError Json) (s' : Server) : Prop where
  board : s'.board = s.board
  jobs : s'.jobs = s.jobs
  peers : s'.runtime.peers = s.runtime.peers
  talk : ∀ e, r = .error e → ¬ exempt → s'.runtime.talk = s.runtime.talk

theorem Spares.of_quiet {exempt : Prop} {m : ApiM Json} (h : Within Quiet m) (s : Server) :
    Spares exempt s (ran m s).1 (ran m s).2 :=
  ⟨(h s).board,(h s).jobs,(h s).peers,fun _ _ _ => (h s).talk⟩

theorem Spares.mono {exempt exempt' : Prop} {s s' : Server} {r : Except ApiError Json}
    (h : Spares exempt s r s') (hle : exempt → exempt') : Spares exempt' s r s' :=
  ⟨h.board,h.jobs,h.peers,fun e he hno => h.talk e he (mt hle hno)⟩

theorem ran_rewindBefore (c : Call) (turn : Nat) (s : Server) : ran (rewindBefore c turn) s =
    match s.runtime.talk.rewindBefore turn with
    | .error what => (.error (.refused what), { s with runtime := s.runtime.defaultSession })
    | .ok (false, _) => (.ok false, { s with runtime := s.runtime.defaultSession })
    | .ok (true, cut) =>
        (match c.saving with
          | some what => .error (.other what)
          | none => .ok true,
          { s with runtime := s.runtime.store { s.runtime.current with conversation := cut } }) := by
  unfold rewindBefore
  rw [ran_bind,show ran openSession s = (.ok ⟨⟩, _) from rfl,resumed,ran_bind_get]
  change ran (match s.runtime.talk.rewindBefore turn with
    | .error what => _
    | .ok (false, _) => _
    | .ok (true, cut) => _) _ = _
  rcases s.runtime.talk.rewindBefore turn with what | ⟨moved,cut⟩
  · rfl
  · cases moved with
    | false => rfl
    | true =>
        dsimp only
        rw [ran_bind_modify,ran_bind,ran_saveCurrentSession]
        cases c.saving <;> rfl

theorem handleApiRewind_eq (c : Call) (body : Json) : handleApiRewind c body =
    if turnOf body < 1 then throw (.refused "Missing or invalid 'turn'")
    else rewindBefore c (turnOf body).toInt.toNat >>= fun moved =>
      if moved then pure (.object []) else throw (.refused "No such turn") := rfl

theorem spares_rewind (c : Call) (body : Json) (s : Server) :
    Spares (Cuts c body s) s (ran (handleApiRewind c body) s).1
      (ran (handleApiRewind c body) s).2 := by
  rw [handleApiRewind_eq]
  split
  · exact .of_quiet (within_throw _) s
  · next hturn =>
      rw [ran_bind,ran_rewindBefore]
      cases hr : s.runtime.talk.rewindBefore (turnOf body).toInt.toNat with
      | error what => exact ⟨rfl,rfl,rfl,fun _ _ _ => rfl⟩
      | ok done =>
          obtain ⟨moved,cut⟩ := done
          cases moved with
          | false => exact ⟨rfl,rfl,rfl,fun _ _ _ => rfl⟩
          | true =>
              cases hsaving : c.saving with
              | none => exact ⟨rfl,rfl,rfl,fun e he => by cases he⟩
              | some what =>
                  refine ⟨rfl,rfl,rfl,fun e _ hno => absurd ⟨?_,hturn,cut,hr⟩ hno⟩
                  rw [hsaving]
                  exact Option.some_ne_none what

theorem ran_rewind_cuts {c : Call} {body : Json} {s : Server} (h : Cuts c body s) :
    ∃ cut, s.runtime.talk.rewindBefore (turnOf body).toInt.toNat = .ok (true, cut) ∧
      (ran (handleApiRewind c body) s).2.runtime.talk = cut := by
  obtain ⟨hsaving,hturn,cut,hr⟩ := h
  obtain ⟨what,hwhat⟩ := Option.ne_none_iff_exists'.mp hsaving
  refine ⟨cut,hr,?_⟩
  rw [handleApiRewind_eq,if_neg hturn,ran_bind,ran_rewindBefore,hr,hwhat]
  rfl

section Routes

variable {site : Site} {views : Views}

def Route.isRewind (route : Route) : Prop := route.target = "/api/rewind" ∧ route.method = .post

theorem spares_of_audience {route : Route} (hroute : route ∈ routes site views)
    (h : route.audience ≠ .kPeerToken) (c : Call) (body : Json) (s : Server) :
    Spares (route.isRewind ∧ Cuts c body s) s (ran (route.handler c body) s).1
      (ran (route.handler c body) s).2 := by
  revert h
  revert route
  simp only [routes,List.forall_mem_cons,ne_eq,not_true_eq_false,false_implies,List.not_mem_nil,
    implies_true,and_true]
  refine ⟨?_,?_,?_,?_,?_,?_,?_,?_,?_,?_⟩
  all_goals intro _
  · exact .of_quiet quiet_session s
  · exact .of_quiet quiet_read s
  · exact .of_quiet quiet_read s
  · exact .of_quiet quiet_agentSwitch s
  · exact (spares_rewind c body s).mono (fun h => ⟨⟨rfl,rfl⟩,h⟩)
  · exact .of_quiet quiet_settingsBody s
  · exact .of_quiet quiet_setSetting s
  · exact .of_quiet quiet_resetSettings s
  · exact .of_quiet (within_pure _) s
  · exact .of_quiet (within_bind quiet_boardOf (fun _ => within_pure _)) s

-- What a peer's route may do to the board it needs: stand, or one verb that it answers.
inductive Moves (tick : Tick) (s : Server) : Except ApiError Json × Server → Prop
  | stood (r : Except ApiError Json) : Moves tick s (r, s)
  | served {b : Board} (j : Json) (verb : Verb) (hv : ∀ peer state, verb ≠ .touch peer state)
      (hb : s.board = some b) : Moves tick s (.ok j, { s with board := some (b.serve (tick, verb)) })

section MoveBoard

variable {act : Board → Except BoardError (Serve.ActionResult × Board)} {s : Server} {b : Board}

theorem ran_moveBoard_error {refusal : BoardError} (hb : s.board = some b)
    (h : act b = .error refusal) : ran (moveBoard act) s = (.error (boardError refusal), s) := by
  unfold moveBoard boardOf
  rw [ran_bind,ran_bind_get,hb,ran_pure,resumed,h]
  rfl

theorem ran_moveBoard_ok {r : Serve.ActionResult} {b' : Board} (hb : s.board = some b)
    (h : act b = .ok (r, b')) : ran (moveBoard act) s = (.ok r, { s with board := some b' }) := by
  unfold moveBoard boardOf
  rw [ran_bind,ran_bind_get,hb,ran_pure,resumed,h]
  rfl

end MoveBoard

theorem moves_onBoard {c : Call} {act : Board → Except BoardError (Serve.ActionResult × Board)}
    (verb : Verb) (hv : ∀ peer state, verb ≠ .touch peer state)
    (h : ∀ b : Board, b.serve (c.tick, verb) = b.kept (act b)) (s : Server) :
    Moves c.tick s (ran (onBoard c act) s) := by
  unfold onBoard
  cases hb : s.board with
  | none =>
      have hm : ran (moveBoard act) s = (.error (.notFound "This server has no board"), s) := by
        unfold moveBoard boardOf
        rw [ran_bind,ran_bind_get,hb,ran_throw,resumed]
      rw [ran_bind_error hm]
      exact .stood _
  | some b =>
      cases ha : act b with
      | error refusal =>
          rw [ran_bind_error (ran_moveBoard_error hb ha)]
          exact .stood _
      | ok done =>
          have hserve : b.serve (c.tick, verb) = done.2 := by
            rw [h,ha]
            rfl
          have hm := @Moves.served c.tick s b (Serve.renderResult c.clock done.1) verb hv hb
          rw [ran_bind_ok (ran_moveBoard_ok hb ha),← hserve]
          exact hm

theorem moves_personVerb {c : Call} {body : Json} {key missing : String}
    {act : Board → String → String → Except BoardError (Serve.ActionResult × Board)}
    (verb : String → String → Verb) (hv : ∀ id text peer state, verb id text ≠ .touch peer state)
    (h : ∀ id text (b : Board), b.serve (c.tick, verb id text) = b.kept (act b id text)) (s : Server) :
    Moves c.tick s (ran (personVerb c body key missing act) s) := by
  unfold personVerb
  dsimp only
  split
  · exact .stood _
  · split
    · exact .stood _
    · exact moves_onBoard (verb _ _) (hv _ _) (h _ _) s

theorem moves_jobsGet (c : Call) (body : Json) (s : Server) :
    Moves c.tick s (ran (handleApiJobsGet c body) s) := by
  unfold handleApiJobsGet boardOf
  rw [ran_bind,ran_bind_get]
  cases s.board <;> exact .stood _

theorem moves_of_needsBoard {route : Route} (hroute : route ∈ routes site views)
    (h : route.audience = .kPeerToken) (hneeds : route.needsBoard = true) (c : Call) (body : Json)
    (s : Server) : Moves c.tick s (ran (route.handler c body) s) := by
  revert hneeds
  revert h
  revert route
  simp only [routes,List.forall_mem_cons,reduceCtorEq,false_implies,true_and,List.not_mem_nil,
    implies_true,and_true,Bool.false_eq_true,forall_const]
  refine ⟨?_,?_,?_,?_,?_,?_⟩
  · exact moves_jobsGet c body s
  · exact moves_onBoard (.post (jobFrom body false)) (by simp) (fun _ => rfl) s
  · exact moves_onBoard (.update (jobFrom body true)) (by simp) (fun _ => rfl) s
  · exact moves_personVerb (fun id text => .answer id text) (by simp) (fun _ _ _ => rfl) s
  · exact moves_personVerb (fun id text => .chase id text) (by simp) (fun _ _ _ => rfl) s
  · exact moves_personVerb (fun id text => .drop id text) (by simp) (fun _ _ _ => rfl) s

end Routes

def arrivalOf (body : Json) : Arrival :=
  ⟨valueOrDefault body "from" "",valueOrDefault body "message" "",valueOrDefault body "job" ""⟩

def queued (host : Host) (s : Server) (jobs : List Job) (board : Option Board) (a : Arrival) :
    Server :=
  { runtime := { s.runtime with drawn := s.runtime.drawn + 1 }
    jobs := some (jobs ++ [a.turn (host.newId s.runtime.drawn)])
    board := board }

-- A turn is queued before the backend is asked for, so the answer may be an error all the same.
inductive Hears (host : Host) (tick : Tick) (cfg : PeerConfig) (a : Arrival) (s : Server) :
    Except ApiError Json × Server → Prop
  | refused (e : ApiError)
      (h : ∀ jobs board, s.jobs = some jobs → SessionRunner.received tick cfg s.board a ≠ .ok board) :
      Hears host tick cfg a s (.error e, s)
  | queued {jobs : List Job} {board : Option Board} (r : Except ApiError Json)
      (hjobs : s.jobs = some jobs) (hreceived : SessionRunner.received tick cfg s.board a = .ok board)
      (hr : (∃ e, r = .error e) ↔ ∃ what, s.runtime.currentBackend host = .error what) :
      Hears host tick cfg a s (r, Http.queued host s jobs board a)

section Hearing

variable {site : Site} {c : Call} {s : Server} {cfg : PeerConfig} {id : String}

theorem ran_claimJob (hpeers : s.runtime.peers = some cfg) :
    (∃ e what, SessionRunner.claimOn c.tick s.board cfg id = .error what ∧
      ran (claimJob c id) s = (.error e, s)) ∨
    ∃ board, SessionRunner.claimOn c.tick s.board cfg id = .ok board ∧
      ran (claimJob c id) s = (.ok (), { s with board := board }) := by
  unfold claimJob SessionRunner.claimOn
  rw [ran_bind_get,hpeers]
  cases hb : s.board with
  | none =>
      refine .inr ⟨none,rfl,?_⟩
      rw [if_pos (.inr rfl),ran_pure,← hb]
  | some b =>
      by_cases hid : id = ""
      · refine .inr ⟨some b,if_pos hid,?_⟩
        rw [if_pos (.inl hid),ran_pure,← hb]
      · rw [if_neg (by simp [hid])]
        dsimp only
        rw [if_neg hid]
        cases hup : b.update c.tick (SessionRunner.claim cfg.selfName id) with
        | error refusal =>
            refine .inl ⟨boardError refusal,_,rfl,?_⟩
            exact ran_bind_error (ran_moveBoard_error hb hup)
        | ok done =>
            have hclaimed := SessionRunner.claimed_of_update hup
            refine .inr ⟨some done.2,if_neg (not_not_intro hclaimed),?_⟩
            rw [ran_bind_ok (ran_moveBoard_ok hb hup),if_neg (not_not_intro hclaimed),ran_pure]

theorem unknownPeer_eq (sender : String) :
    unknownPeer (some cfg) sender = decide (sender ≠ "" ∧ ¬ cfg.knows sender) := by
  simp [unknownPeer]

theorem ran_submitFromPeer {jobs : List Job} (a : Arrival) :
    ran (submitFromPeer site jobs a.sender a.message a.job) s =
      (.ok (site.host.newId s.runtime.drawn), queued site.host s jobs s.board a) := rfl

theorem hears_peerMessage (hpeers : s.runtime.peers = some cfg) (body : Json) :
    Hears site.host c.tick cfg (arrivalOf body) s (ran (handlePeerMessage site c body) s) := by
  unfold handlePeerMessage
  rw [ran_bind_get]
  cases hjobs : s.jobs with
  | none => exact .refused _ (by simp [hjobs])
  | some jobs =>
      dsimp only
      generalize ha : arrivalOf body = a
      have hfrom : valueOrDefault body "from" "" = a.sender := congrArg Arrival.sender ha
      have hmessage : valueOrDefault body "message" "" = a.message := congrArg Arrival.message ha
      have hid : valueOrDefault body "job" "" = a.job := congrArg Arrival.job ha
      rw [hfrom,hmessage,hid,hpeers,unknownPeer_eq]
      have hreceived := @SessionRunner.received.eq_def c.tick cfg s.board a
      simp only [decide_eq_true_eq]
      split
      · next hunknown =>
          rw [if_pos hunknown] at hreceived
          exact .refused _ (by simp [hreceived])
      · next hknown =>
          rw [if_neg hknown] at hreceived
          split
          · next hsender =>
              rw [if_pos hsender] at hreceived
              exact .refused _ (by simp [hreceived])
          · next hsender =>
              rw [if_neg hsender] at hreceived
              split
              · next hempty =>
                  rw [if_pos hempty] at hreceived
                  exact .refused _ (by simp [hreceived])
              · next hempty =>
                  rw [if_neg hempty] at hreceived
                  rcases @ran_claimJob c s cfg a.job hpeers with ⟨e,what,hclaim,hran⟩ | ⟨board,hclaim,hran⟩
                  · rw [ran_bind_error hran]
                    exact .refused _ (by simp [hreceived,hclaim])
                  · rw [ran_bind_ok hran,ran_bind_ok (ran_submitFromPeer a),ran_bind,ran_currentBackend]
                    change Hears site.host c.tick cfg a s (resumed _
                      ((s.runtime.currentBackend site.host).mapError .other,
                        queued site.host s jobs board a))
                    cases hback : s.runtime.currentBackend site.host with
                    | error what =>
                        refine .queued _ hjobs (hreceived.trans hclaim) ?_
                        exact ⟨fun _ => ⟨what,hback⟩,fun _ => ⟨_,rfl⟩⟩
                    | ok backend =>
                        refine .queued _ hjobs (hreceived.trans hclaim) ?_
                        constructor
                        · rintro ⟨_,he⟩
                          cases he
                        · rintro ⟨_,he⟩
                          rw [hback] at he
                          cases he

end Hearing

theorem errorStatus_ge (e : ApiError) : 400 ≤ errorStatus e := by cases e <;> simp [errorStatus]

theorem settled_cases {route : Route} (h : route.status < 400) (p : Except ApiError Json × Server) :
    ∃ r, settled route p = (r, p.2) ∧ (400 ≤ r.status ↔ ∃ e, p.1 = .error e) := by
  obtain ⟨r,s⟩ := p
  cases r with
  | ok j =>
      refine ⟨_,rfl,?_⟩
      constructor
      · intro hle
        exact absurd h (not_lt_of_ge hle)
      · rintro ⟨_,he⟩
        cases he
  | error e => exact ⟨_,rfl,fun _ => ⟨e,rfl⟩,fun _ => errorStatus_ge e⟩

def Admitted (q : Received) (s : Server) : Prop :=
  admits .kPeerToken q.address (bearerToken q.request.authorization) s.runtime.peers = .kAllowed

instance (q : Received) (s : Server) : Decidable (Admitted q s) := inferInstanceAs (Decidable (_ = _))

theorem Admitted.config {q : Received} {s : Server} (h : Admitted q s) :
    ∃ cfg, s.runtime.peers = some cfg ∧ (callOf q s).peer = cfg.selfName := by
  unfold Admitted admits at h
  unfold callOf peerForToken
  cases hpeers : s.runtime.peers with
  | none =>
      rw [hpeers] at h
      cases h
  | some cfg =>
      rw [hpeers] at h
      refine ⟨cfg,rfl,?_⟩
      dsimp only at h ⊢
      split at h
      · cases h
      · next hno => rw [if_neg hno]

-- The message a request hands over, where it is one the peer route reads.
def Hands (text : JsonText) (pages : List String) (q : Received) (a : Arrival) : Prop :=
  isPageFile pages q.request.target = false ∧ q.request.target = "/api/peer/message" ∧
    q.request.method = .post ∧ ∃ body, parseBody text q.request.body = .ok body ∧ arrivalOf body = a

-- A rewind that is served, on a session that cannot be saved.
def Unsaved (text : JsonText) (pages : List String) (q : Received) (s : Server) : Prop :=
  isPageFile pages q.request.target = false ∧ q.request.target = "/api/rewind" ∧
    q.request.method = .post ∧
    ∃ body, parseBody text q.request.body = .ok body ∧ Cuts (callOf q s) body s

inductive Effect (host : Host) (pages : List String) (q : Received) (s : Server) :
    Response × Server → Prop
  | spared {r : Response} {s' : Server} (hboard : s'.board = s.board) (hjobs : s'.jobs = s.jobs)
      (hpeers : s'.runtime.peers = s.runtime.peers)
      (htalk : 400 ≤ r.status → ¬ Unsaved host.text pages q s → s'.runtime.talk = s.runtime.talk) :
      Effect host pages q s (r, s')
  | touched {cfg : PeerConfig} {b : Board} (r : Response) (ha : Admitted q s)
      (hpeers : s.runtime.peers = some cfg) (hb : s.board = some b) :
      Effect host pages q s (r, { s with board := some (b.touchPeer q.tick cfg.selfName "") })
  | served {cfg : PeerConfig} {b : Board} {r : Response} (verb : Verb)
      (hv : ∀ peer state, verb ≠ .touch peer state) (ha : Admitted q s) (hpeers : s.runtime.peers = some cfg)
      (hb : s.board = some b) (hr : ¬ 400 ≤ r.status) :
      Effect host pages q s
        (r, { s with board := some ((b.touchPeer q.tick cfg.selfName "").serve (q.tick, verb)) })
  | queued {cfg : PeerConfig} {a : Arrival} {jobs : List Job} {board : Option Board} {r : Response}
      (ha : Admitted q s) (hpeers : s.runtime.peers = some cfg) (hhands : Hands host.text pages q a)
      (hjobs : s.jobs = some jobs) (hreceived : SessionRunner.received q.tick cfg s.board a = .ok board)
      (hr : 400 ≤ r.status ↔ ∃ what, s.runtime.currentBackend host = .error what) :
      Effect host pages q s (r, queued host s jobs board a)

section Dispatching

variable {site : Site} {views : Views} {pages : List String} {q : Received} {s : Server}
variable {route : Route}

theorem status_of_mem (hroute : route ∈ routes site views) : route.status < 400 := by
  revert route
  simp [routes]

theorem effect_refused (r : Response) : Effect site.host pages q s (r, s) :=
  .spared rfl rfl rfl (fun _ _ => rfl)

theorem effect_spared (hroute : route ∈ routes site views) (h : route.audience ≠ .kPeerToken)
    (hpage : isPageFile pages q.request.target = false) (htarget : route.target = q.request.target)
    (hmethod : route.method = q.request.method) :
    Effect site.host pages q s (settled route (ran (handled site route (callOf q s) q.request.body)
      (touched (callOf q s) route s))) := by
  rw [touched,if_neg (by simp [h])]
  have hspares : Spares (Unsaved site.host.text pages q s) s
      (ran (handled site route (callOf q s) q.request.body) s).1
      (ran (handled site route (callOf q s) q.request.body) s).2 := by
    unfold handled
    split
    · split
      · next body hbody =>
          refine (spares_of_audience hroute h (callOf q s) body s).mono ?_
          rintro ⟨⟨hrewind,hpost⟩,hcuts⟩
          exact ⟨hpage,htarget.symm.trans hrewind,hmethod.symm.trans hpost,body,hbody,hcuts⟩
      · exact .of_quiet (within_throw _) s
    · refine (spares_of_audience hroute h (callOf q s) .null s).mono ?_
      rintro ⟨-,-,hturn,-⟩
      exact absurd (show turnOf .null < 1 from by decide) hturn
  obtain ⟨r,hset,hstatus⟩ := settled_cases (status_of_mem hroute)
    (ran (handled site route (callOf q s) q.request.body) s)
  rw [hset]
  refine .spared hspares.board hspares.jobs hspares.peers (fun hle hno => ?_)
  obtain ⟨e,he⟩ := hstatus.mp hle
  exact hspares.talk e he hno

theorem touched_board {cfg : PeerConfig} {b : Board} (h : route.audience = .kPeerToken)
    (hneeds : route.needsBoard = true) (hpeer : (callOf q s).peer = cfg.selfName)
    (hb : s.board = some b) : touched (callOf q s) route s =
      { s with board := some (b.touchPeer q.tick cfg.selfName "") } := by
  unfold touched
  rw [hpeer,hb]
  split
  · rfl
  · next hno =>
      have hself : cfg.selfName = "" := by
        by_contra hne
        exact hno ⟨h,hneeds,hne⟩
      rw [Board.touchPeer,if_pos hself,← hb]

theorem effect_board (hroute : route ∈ routes site views) (h : route.audience = .kPeerToken)
    (hneeds : route.needsBoard = true) (ha : Admitted q s) {b : Board} (hb : s.board = some b) :
    Effect site.host pages q s (settled route (ran (handled site route (callOf q s) q.request.body)
      (touched (callOf q s) route s))) := by
  obtain ⟨cfg,hpeers,hpeer⟩ := ha.config
  rw [touched_board h hneeds hpeer hb]
  set s' : Server := { s with board := some (b.touchPeer q.tick cfg.selfName "") }
  have hmoves : Moves q.tick s' (ran (handled site route (callOf q s) q.request.body) s') := by
    unfold handled
    split
    · split
      · exact moves_of_needsBoard hroute h hneeds (callOf q s) _ s'
      · exact .stood _
    · exact moves_of_needsBoard hroute h hneeds (callOf q s) _ s'
  obtain ⟨r,hset,hstatus⟩ := settled_cases (status_of_mem hroute)
    (ran (handled site route (callOf q s) q.request.body) s')
  rw [hset]
  generalize ran (handled site route (callOf q s) q.request.body) s' = p at hmoves hstatus
  cases hmoves with
  | stood _ => exact .touched r ha hpeers hb
  | served j verb hv hb' =>
      obtain rfl := Option.some.inj hb'
      refine .served verb hv ha hpeers hb (fun hle => ?_)
      obtain ⟨e,he⟩ := hstatus.mp hle
      cases he

def messageRoute (site : Site) : Route :=
  { target := "/api/peer/message", method := .post, handler := handlePeerMessage site
    audience := .kPeerToken, status := 202, hasBody := true }

theorem eq_messageRoute (hroute : route ∈ routes site views) (h : route.audience = .kPeerToken)
    (hneeds : route.needsBoard = false) : route = messageRoute site := by
  revert hneeds
  revert h
  revert route
  simp [routes,messageRoute]

theorem handled_message (site : Site) (c : Call) (body : String) :
    handled site (messageRoute site) c body = match parseBody site.host.text body with
      | .ok j => handlePeerMessage site c j
      | .error e => throw e := rfl

theorem effect_message (hpage : isPageFile pages q.request.target = false)
    (htarget : q.request.target = "/api/peer/message") (hmethod : q.request.method = .post)
    (ha : Admitted q s) :
    Effect site.host pages q s (settled (messageRoute site)
      (ran (handled site (messageRoute site) (callOf q s) q.request.body)
        (touched (callOf q s) (messageRoute site) s))) := by
  obtain ⟨cfg,hpeers,-⟩ := ha.config
  rw [touched,if_neg (by simp [messageRoute])]
  obtain ⟨r,hset,hstatus⟩ := @settled_cases (messageRoute site) (by simp [messageRoute])
    (ran (handled site (messageRoute site) (callOf q s) q.request.body) s)
  rw [hset]
  rw [handled_message] at hstatus ⊢
  cases hbody : parseBody site.host.text q.request.body with
  | error e => exact effect_refused r
  | ok body =>
      rw [hbody] at hstatus
      have hhears := @hears_peerMessage site (callOf q s) s cfg hpeers body
      change 400 ≤ r.status ↔ ∃ e, (ran (handlePeerMessage site (callOf q s) body) s).1 = .error e
        at hstatus
      change Effect site.host pages q s (r, (ran (handlePeerMessage site (callOf q s) body) s).2)
      generalize ran (handlePeerMessage site (callOf q s) body) s = p at hhears hstatus
      cases hhears with
      | refused e _ => exact effect_refused r
      | queued _ hjobs hreceived hr =>
          exact .queued ha hpeers ⟨hpage,htarget,hmethod,body,hbody,rfl⟩ hjobs hreceived
            (hstatus.trans hr)

theorem effect_dispatch (views : Views) (q : Received) (s : Server) :
    Effect site.host pages q s (dispatch site views pages q s) := by
  unfold dispatch
  split
  · exact effect_refused _
  · next hpage =>
      split
      · exact effect_refused _
      · next route hfor =>
          have hroute : route ∈ routes site views := List.mem_of_find?_eq_some hfor
          have hfound := List.find?_some hfor
          obtain ⟨htarget,hmethod⟩ := of_decide_eq_true hfound
          unfold answer
          split
          · exact effect_refused _
          · next hadmits =>
              split
              · exact effect_refused _
              · next hboard =>
                  by_cases haudience : route.audience = .kPeerToken
                  · have ha : Admitted q s := by
                      rw [haudience] at hadmits
                      unfold Admitted
                      generalize admits _ _ _ _ = admission at hadmits
                      cases admission with
                      | kAllowed => rfl
                      | _ => cases hadmits
                    cases hneeds : route.needsBoard with
                    | true =>
                        cases hb : s.board with
                        | none => exact absurd ⟨hneeds,hb⟩ hboard
                        | some b => exact effect_board hroute haudience hneeds ha hb
                    | false =>
                        obtain rfl := eq_messageRoute hroute haudience hneeds
                        exact effect_message (by simpa using hpage) htarget.symm hmethod.symm ha
                  · exact effect_spared hroute haudience (by simpa using hpage) htarget hmethod

theorem routeFor_message (views : Views) (htarget : q.request.target = "/api/peer/message")
    (hmethod : q.request.method = .post) :
    routeFor site views q.request = some (messageRoute site) := by
  unfold routeFor
  rw [htarget,hmethod]
  simp [routes,messageRoute]

theorem queued_of_hands {cfg : PeerConfig} {a : Arrival} {jobs : List Job} {board : Option Board}
    (views : Views) (ha : Admitted q s) (hpeers : s.runtime.peers = some cfg)
    (hhands : Hands site.host.text pages q a) (hjobs : s.jobs = some jobs)
    (hreceived : SessionRunner.received q.tick cfg s.board a = .ok board) :
    (dispatch site views pages q s).2 = queued site.host s jobs board a := by
  obtain ⟨hpage,htarget,hmethod,body,hbody,rfl⟩ := hhands
  have hhears := @hears_peerMessage site (callOf q s) s cfg hpeers body
  have hadmits : sendRefusal (messageRoute site).target (admits (messageRoute site).audience q.address
      (bearerToken q.request.authorization) s.runtime.peers) = none := by
    unfold Admitted at ha
    rw [messageRoute,ha]
    rfl
  unfold dispatch
  rw [if_neg (by simp [hpage]),routeFor_message views htarget hmethod]
  dsimp only
  unfold answer
  rw [hadmits]
  dsimp only
  rw [if_neg (by simp [messageRoute]),touched,if_neg (by simp [messageRoute]),handled_message,hbody]
  obtain ⟨r,hset,-⟩ := @settled_cases (messageRoute site) (by simp [messageRoute])
    (ran (handlePeerMessage site (callOf q s) body) s)
  rw [hset]
  generalize ran (handlePeerMessage site (callOf q s) body) s = p at hhears
  cases hhears with
  | refused e h => exact absurd hreceived (h jobs board hjobs)
  | queued _ hjobs' hreceived' _ =>
      obtain rfl := Option.some.inj (hjobs'.symm.trans hjobs)
      obtain rfl := Except.ok.inj (hreceived'.symm.trans hreceived)
      rfl

def rewindRoute : Route :=
  { target := "/api/rewind", method := .post, handler := handleApiRewind, audience := .kAnyone
    hasBody := true }

theorem routeFor_rewind (views : Views) (htarget : q.request.target = "/api/rewind")
    (hmethod : q.request.method = .post) : routeFor site views q.request = some rewindRoute := by
  unfold routeFor
  rw [htarget,hmethod]
  simp [routes,rewindRoute]

theorem handled_rewind (site : Site) (c : Call) (body : String) :
    handled site rewindRoute c body = match parseBody site.host.text body with
      | .ok j => handleApiRewind c j
      | .error e => throw e := rfl

-- The conversation such a rewind leaves is the shorter one, though its answer is an error.
theorem talk_of_unsaved (views : Views) (hsound : s.runtime.talk.graph.Sound)
    (h : Unsaved site.host.text pages q s) :
    (dispatch site views pages q s).2.runtime.talk ≠ s.runtime.talk := by
  obtain ⟨hpage,htarget,hmethod,body,hbody,hcuts⟩ := h
  obtain ⟨cut,hr,htalk⟩ := ran_rewind_cuts hcuts
  unfold dispatch
  rw [if_neg (by simp [hpage]),routeFor_rewind views htarget hmethod]
  dsimp only
  unfold answer
  rw [show sendRefusal _ _ = none from rfl]
  dsimp only
  rw [if_neg (by simp [rewindRoute]),touched,if_neg (by simp [rewindRoute]),handled_rewind,hbody]
  obtain ⟨r,hset,-⟩ := @settled_cases rewindRoute (by simp [rewindRoute])
    (ran (handleApiRewind (callOf q s) body) s)
  rw [hset]
  obtain ⟨hlow,hhigh,-,-,-,-,hchain⟩ := Conversation.rewindBefore_ok hsound hr
  intro hsame
  rw [← htalk,hsame] at hchain
  have hlength := congrArg List.length hchain
  rw [List.length_take] at hlength
  omega

end Dispatching

-- Who was heard from is written down before the handler runs, so presence is not part of it.
structure Untouched (s s' : Server) : Prop where
  owed : s'.board.map Board.jobs = s.board.map Board.jobs
  audit : s'.board.map Board.audit = s.board.map Board.audit
  queue : s'.jobs = s.jobs
  talk : s'.runtime.talk = s.runtime.talk

-- A message that is taken on a session whose settings cannot be put in force.
def Stranded (text : JsonText) (pages : List String) (q : Received) (s : Server) : Prop :=
  Admitted q s ∧ ¬ Typed s.runtime.overrides ∧ ∃ cfg a jobs board,
    s.runtime.peers = some cfg ∧ Hands text pages q a ∧ s.jobs = some jobs ∧
    SessionRunner.received q.tick cfg s.board a = .ok board

theorem error_answer_untouched_iff {site : Site} {views : Views} {pages : List String}
    {q : Received} {s : Server} (hsound : s.runtime.talk.graph.Sound)
    (h : 400 ≤ (dispatch site views pages q s).1.status) :
    Untouched s (dispatch site views pages q s).2 ↔
      ¬ Stranded site.host.text pages q s ∧ ¬ Unsaved site.host.text pages q s := by
  constructor
  · intro huntouched
    constructor
    · rintro ⟨ha,-,cfg,a,jobs,board,hpeers,hhands,hjobs,hreceived⟩
      have hqueue := huntouched.queue
      rw [queued_of_hands views ha hpeers hhands hjobs hreceived,hjobs] at hqueue
      simp [queued] at hqueue
    · exact fun hunsaved => talk_of_unsaved views hsound hunsaved huntouched.talk
  · rintro ⟨hno,hsaved⟩
    have heffect := @effect_dispatch site pages views q s
    generalize dispatch site views pages q s = p at h heffect ⊢
    cases heffect with
    | spared hboard hjobs hpeers htalk =>
        exact ⟨by rw [hboard],by rw [hboard],hjobs,htalk h hsaved⟩
    | @touched cfg b r ha hpeers hb =>
        obtain ⟨hjobs,haudit⟩ := Board.touchPeer_same q.tick b cfg.selfName ""
        refine ⟨?_,?_,rfl,rfl⟩
        · rw [hb,Option.map_some,Option.map_some,hjobs]
        · rw [hb,Option.map_some,Option.map_some,haudit]
    | served _ _ _ _ _ hr => exact absurd h hr
    | queued ha hpeers hhands hjobs hreceived hr =>
        have htyped := Runtime.currentBackend_error_iff.mp (hr.mp h)
        exact absurd ⟨ha,htyped,_,_,_,_,hpeers,hhands,hjobs,hreceived⟩ hno

def askA : String := "\x7b\"from\":\"A\",\"message\":\"go\"\x7d"

def asksText : JsonText where
  parse s := if s = askA then some (.object [("from", .string "A"), ("message", .string "go")]) else none
  serialize _ := ""
  parseError s := s
  kindError _ := ""

def asksSite : Site :=
  { Runtime.boardSite with host := { Runtime.boardSite.host with text := asksText } }

def hotC : Server where
  runtime := Runtime.servingC.store
    { spec := { overrides := (∅ : Overrides).insert "temperature" (.string "hot") } }

def fromA : Received where
  request := { method := .post, target := "/api/peer/message"
               authorization := Utf8.bytesOf "Bearer secret", body := askA }
  address := "10.0.0.2"
  tick := Board.tickAt "1" ""
  clock := ⟨"",fun _ => none⟩

def noViews : Views := ⟨fun _ _ _ => .null,fun _ => .null,fun _ => .null,.null⟩

def turnOne : String := "\x7b\"turn\":1\x7d"

def turnsText : JsonText := { asksText with
  parse := fun s => if s = turnOne then some (.object [("turn", .int64 1)]) else none }

def turnsSite : Site := { asksSite with host := { asksSite.host with text := turnsText } }

def saysHi : Conversation := Conversation.new.append turnsText "u1" { role := .user, content := "hi" }

def askedC : Server where
  runtime := Runtime.servingC.store { conversation := saysHi }

-- A rewind on a server whose `.pu` is not a directory.
def takesBack : Received where
  request := { method := .post, target := "/api/rewind", body := turnOne }
  address := "127.0.0.1"
  tick := Board.tickAt "1" ""
  clock := ⟨"",fun _ => none⟩
  saving := some "cannot create directories: Not a directory [.pu]"

theorem stranded_hot : Stranded asksText [] fromA hotC := by
  refine ⟨by decide,?_,Runtime.twoPeers,⟨"A","go",""⟩,[],some {},rfl,?_,rfl,rfl⟩
  · intro ht
    have hhot := ht .temperature (.string "hot") (by decide)
    cases hhot
  · exact ⟨by decide,rfl,rfl,_,rfl,rfl⟩

theorem unsaved_asked : Unsaved turnsText [] takesBack askedC := by
  refine ⟨by decide,rfl,rfl,_,rfl,?_,by decide,_,rfl⟩
  exact Option.some_ne_none _

theorem error_answer_strands_hot :
    ((dispatch asksSite noViews [] fromA hotC).1.status = 500 ∧
      ¬ Untouched hotC (dispatch asksSite noViews [] fromA hotC).2) ∧
    (dispatch turnsSite noViews [] takesBack askedC).1.status = 500 ∧
      ¬ Untouched askedC (dispatch turnsSite noViews [] takesBack askedC).2 := by
  have hhot : (dispatch asksSite noViews [] fromA hotC).1.status = 500 := by decide
  have hasked : (dispatch turnsSite noViews [] takesBack askedC).1.status = 500 := by decide
  have hfresh : MessageGraph.empty.Fresh "u1" := ⟨by decide,by decide⟩
  have hsound : askedC.runtime.talk.graph.Sound :=
    MessageGraph.sound_appendAfterLeaf MessageGraph.sound_empty hfresh _ _
  have hempty : hotC.runtime.talk.graph.Sound := MessageGraph.sound_empty
  refine ⟨⟨hhot,?_⟩,hasked,?_⟩
  · rw [error_answer_untouched_iff hempty (by rw [hhot]; decide)]
    exact fun hno => hno.1 stranded_hot
  · rw [error_answer_untouched_iff hsound (by rw [hasked]; decide)]
    exact fun hno => hno.2 unsaved_asked

end Http

end PuCli
