import PuCli.App.SessionRunner
import PuCli.Runtime.ExecutorFollows
import PuCli.Runtime.PeerConfinement
import PuCli.Runtime.Routing
import PuCli.Session.GraphRuns

namespace PuCli

open Json

namespace CommandRouter

variable {site : Site} {rt : Runtime}

-- A command may cut the conversation short but adds nothing to it.
theorem routeLaw_chain (site : Site) : RouteLaw site (fun rt rt' => rt.talk.graph.Sound →
    rt'.talk.chain.length ≤ rt.talk.chain.length) where
  refl _ _ := Nat.le_refl _
  agent _ agent _ := (Runtime.sameTalk_switchAgent agent).chain_le
  backend _ backend _ := (Runtime.sameTalk_switchBackend backend).chain_le
  level _ _ _ := (Runtime.sameTalk_setSetting _ _).chain_le
  clear rt _ := by
    have hnil : (handleClear rt).2.talk.chain = [] :=
      MessageGraph.chain_of_leaf_eq_empty MessageGraph.sound_empty rfl
    rw [hnil]
    exact Nat.zero_le _
  rewind := by
    intro rt turn moved c hr h
    change c.chain.length ≤ _
    cases moved with
    | false =>
        rw [← Conversation.rewindBefore_unmoved hr]
        exact Nat.le_refl _
    | true =>
        obtain ⟨_,_,_,_,_,_,hc⟩ := Conversation.rewindBefore_ok h hr
        rw [hc,List.length_take]
        exact Nat.min_le_right _ _

theorem chain_route (h : rt.talk.graph.Sound) (input : String) :
    (route site rt input).2.talk.chain.length ≤ rt.talk.chain.length :=
  (routeLaw_chain site).route rt input h

end CommandRouter

theorem SettingName.applyIn_empty (text : JsonText) (toFloat : Double → Double) (f : InForce)
    (setting : SettingName) : setting.applyIn text toFloat ∅ f = .ok f := by
  simp [SettingName.applyIn]

theorem InForce.resolve_empty (text : JsonText) (toFloat : Double → Double) (backend : Backend)
    (budget : Int32) : InForce.resolve text toFloat backend budget ∅ = .ok ⟨backend, budget⟩ := by
  simp [InForce.resolve,settingTable,SettingName.applyIn_empty]
  rfl

structure ExtendsOnly (host : Host) (message sender : String) (rt rt' : Runtime) : Prop where
  appended : ∃ node rest, rt'.talk.chain = rt.talk.chain ++ node :: rest ∧
    node.payload = .user ⟨message, sender⟩
  agentName : rt'.current.spec.agentName = rt.current.spec.agentName
  overrides : rt'.overrides = rt.overrides
  adopted : rt'.agents.transientAgents = rt.agents.transientAgents
  active : rt'.agents.activeAgent = rt.agents.activeAgent
  backend : rt'.currentBackend host = rt.currentBackend host

namespace Runtime

variable {ρ : Type} {site : Site} {host : Host} {rt rt' : Runtime} {token : Bool}
variable {serve : Conversation → ρ → Conversation} {script : Script ρ} {input origin : String}

theorem currentBackend_defaultSession (host : Host) (origin : String) (rt : Runtime) :
    (defaultSession { rt with peerOrigin := origin }).currentBackend host = rt.currentBackend host := by
  cases hs : rt.session with
  | some s => simp [currentBackend,defaultSession,store,current,hs,inForce,configuredBackend,
      configuredToolBudget,overrides,activeBackend,activeAgent]
  | none =>
      simp [currentBackend,defaultSession,store,current,hs,inForce,configuredBackend,
        configuredToolBudget,overrides,activeBackend,activeAgent,InForce.resolve_empty,Except.map]
      cases rt.agents.agentConfig rt.agents.activeAgent <;> rfl

theorem currentBackend_congr {s s' : Session} (hs : rt.session = some s)
    (hs' : rt'.session = some s') (hspec : s'.spec = s.spec) (hagents : rt'.agents = rt.agents) :
    rt'.currentBackend host = rt.currentBackend host := by
  simp [currentBackend,inForce,configuredBackend,configuredToolBudget,overrides,activeBackend,
    activeAgent,hs,hs',hspec,hagents]

theorem recordTurnUsage_keeps (s : Session) (result : ExecutionResult) (backend : Backend) :
    (recordTurnUsage s result backend).conversation = s.conversation ∧
      (recordTurnUsage s result backend).spec = s.spec := by
  obtain hsame | ⟨usage,-,hrecorded⟩ := recordTurnUsage_cases s result backend
  · rw [hsame]
    exact ⟨rfl,rfl⟩
  · rw [hrecorded]
    exact ⟨rfl,rfl⟩

theorem runTurn_session (backend : Backend) (turn : Turn ρ) :
    ∃ s, (runTurn host rt backend turn script input).runtime.session = some s ∧
      s.conversation = (Executing.execute host turn script input rt.executing).2.conversation ∧
      s.spec = rt.current.spec ∧
      (runTurn host rt backend turn script input).runtime.agents = rt.agents := by
  unfold runTurn
  split
  · next st hst =>
      obtain ⟨hc,hs⟩ := recordTurnUsage_keeps (rt.keep st).current st.result backend
      exact ⟨_,rfl,by rw [hc,hst]; rfl,by rw [hs]; rfl,rfl⟩
  · next hst => exact ⟨_,rfl,by rw [hst],rfl,rfl⟩
  · next hst => exact ⟨_,rfl,by rw [hst],rfl,rfl⟩

theorem extendsOnly_runTurn {backend : Backend} {turn : Turn ρ} {base : Runtime}
    (hi : turn.Idle) (hready : Executing.Ready host (rt.executing : Executing ρ))
    (hrt : rt = defaultSession { base with peerOrigin := origin }) :
    ExtendsOnly host input origin base (runTurn host rt backend turn script input).runtime := by
  obtain ⟨s,hs,hconv,hspec,hagents⟩ :=
    @runTurn_session ρ host rt script input backend turn
  obtain ⟨rest,hrest⟩ := (Executing.follows_execute hi hready script input).chain
  have hbase : rt.session = some rt.current := by
    rw [hrt]
    rfl
  have hcurrent : rt.current = base.current := by
    rw [hrt]
    rfl
  set rt' := (runTurn host rt backend turn script input).runtime with hrt'
  have hcur : rt'.current = s := by simp [current,hs]
  refine ⟨⟨Executing.askedNode host input (rt.executing : Executing ρ),rest,?_,?_⟩,?_,?_,?_,?_,?_⟩
  · have htalk : rt'.talk = s.conversation := by rw [talk,hcur]
    have hold : base.talk.chain = (rt.executing : Executing ρ).chain := by
      rw [talk,← hcurrent]
      rfl
    rw [htalk,hconv,hold]
    exact hrest
  · rw [hrt]
    rfl
  · rw [hcur,hspec,hcurrent]
  · have hover : base.overrides = base.current.spec.overrides := by
      unfold overrides current
      cases base.session <;> rfl
    rw [hover,← hcurrent,← hspec]
    simp [overrides,hs]
  · rw [hagents,hrt]
    rfl
  · rw [hagents,hrt]
    rfl
  · rw [currentBackend_congr hbase hs hspec hagents,hrt,currentBackend_defaultSession]

theorem extendsOnly_processInput_iff (hi : ∀ c r, serve c r = c)
    (hsound : rt.talk.graph.Sound)
    (hsupply : rt.talk.graph.FreshSupply (fun i => site.host.newId (rt.drawn + i))) :
    ExtendsOnly site.host input origin rt
        (processInput site token serve script input origin rt).runtime ↔
      isCommand input = false ∧ ∃ backend, rt.readyBackend site.host = .ok backend := by
  set base := defaultSession { rt with peerOrigin := origin } with hbase
  have htalk : base.talk = rt.talk := rfl
  have hback : base.readyBackend site.host = rt.readyBackend site.host := by
    unfold readyBackend
    rw [hbase,currentBackend_defaultSession]
  have short : ∀ {rt' : Runtime}, rt'.talk.chain.length ≤ rt.talk.chain.length →
      ¬ ExtendsOnly site.host input origin rt rt' := by
    intro rt' hle hext
    obtain ⟨node,rest,hc,_⟩ := hext.appended
    rw [hc] at hle
    simp only [List.length_append,List.length_cons] at hle
    omega
  unfold processInput
  dsimp only
  rw [← hbase,hback]
  split
  · next hcmd =>
      constructor
      · intro hext
        refine absurd hext (short ?_)
        have hr := @CommandRouter.chain_route site base hsound input
        rw [htalk] at hr
        unfold runCommand
        split
        · next hroute => rwa [hroute] at hr
        · next hroute => rwa [hroute] at hr
      · intro h
        simp [h.1] at hcmd
  · next hcmd =>
      split
      · next what hb =>
          constructor
          · intro hext
            exact absurd hext (short (Nat.le_refl _))
          · rintro ⟨_,backend,hok⟩
            rw [hok] at hb
            simp at hb
      · next backend hb =>
          constructor
          · intro _
            exact ⟨Bool.eq_false_iff.mpr hcmd,backend,hb⟩
          · intro _
            exact extendsOnly_runTurn hi ⟨hsound,hsupply⟩ hbase

end Runtime

namespace SessionRunner

theorem runtime_report {ρ : Type} (job : Job) (ending : Ending) (p : Processed ρ) :
    (report job ending p).runtime = p.runtime := by
  unfold report
  dsimp only
  split
  · rfl
  · split <;> rfl

theorem runJob_asked {ρ : Type} {site : Site} {serve : Conversation → ρ → Conversation}
    {script : Script ρ} {ending : Ending} {job : Job} {rt : Runtime}
    (h : job.conn = true ∨ job.peerOrigin ≠ "") :
    runJob site serve script ending job rt =
      report job ending (rt.processInput site true serve script job.text job.peerOrigin) := by
  unfold runJob
  refine if_neg ?_
  rintro ⟨hconn,horigin⟩
  rcases h with h | h
  · exact hconn h
  · exact h horigin

theorem peer_message_extends_only_iff_plain_text {site : Site} {r : SessionRunner} {rt : Runtime}
    {script : Script Empty} {ending : Ending} {sender message boardJob : String}
    (hsender : sender ≠ "") (hbuilt : rt.talk.graph.Built)
    (hids : rt.talk.graph.FreshSupply (fun i => site.host.newId (rt.drawn + i))) :
    ∃ job, (r.submitFromPeer site.host sender message boardJob).jobs = r.jobs ++ [job] ∧
      (ExtendsOnly site.host message sender rt
          (runJob site (fun c _ => c) script ending job rt).runtime ↔
        Runtime.isCommand message = false ∧ ∃ backend, rt.readyBackend site.host = .ok backend) := by
  refine ⟨peerJob site.host r sender message boardJob,rfl,?_⟩
  unfold runJob
  rw [if_neg (fun h => hsender h.2),runtime_report]
  exact Runtime.extendsOnly_processInput_iff (fun _ _ => rfl) hbuilt.sound hids

def saidBefore : Conversation :=
  Conversation.append Runtime.boardText .new "m" { role := .user, content := "hello" }

def midTalk : Runtime :=
  Runtime.servingC.store { spec := { agentName := "main" }, conversation := saidBefore }

theorem tally_fresh_midTalk :
    midTalk.talk.graph.FreshSupply (fun i => Runtime.boardSite.host.newId (midTalk.drawn + i)) := by
  have hfind : ∀ id, id ≠ "m" → midTalk.talk.graph.find id = none := by
    intro id hid
    have hb : MessageGraph.empty.Fresh "m" := ⟨by decide,by decide⟩
    refine MessageGraph.find_appendAfterLeaf_eq_none MessageGraph.sound_empty hb _ _ ?_ hid
    simp [MessageGraph.find,MessageGraph.empty]
  refine ⟨fun i => Runtime.tally_ne_empty _,?_,?_⟩
  · intro i
    refine hfind _ ?_
    intro he
    have := congrArg String.toList he
    simp [Runtime.boardSite,Runtime.tally,List.replicate_succ] at this
  · intro i j hij
    exact Nat.add_left_cancel (Runtime.tally_injective hij)

theorem midTalk_built : midTalk.talk.graph.Built :=
  .append .empty ⟨by decide,by decide⟩ _ _

theorem peer_message_extends_only_plain_question :
    ∃ job, (submitFromPeer Runtime.boardSite.host ⟨midTalk, []⟩ "A" "ask B" "").jobs = [job] ∧
      ExtendsOnly Runtime.boardSite.host "ask B" "A" midTalk
        (runJob Runtime.boardSite (fun c _ => c) Runtime.firstRoundOnly {} job midTalk).runtime := by
  obtain ⟨job,hjob,hiff⟩ := @peer_message_extends_only_iff_plain_text Runtime.boardSite
    ⟨midTalk, []⟩ midTalk Runtime.firstRoundOnly {} "A" "ask B" "" (by decide) midTalk_built
    tally_fresh_midTalk
  exact ⟨job,hjob,hiff.mpr ⟨by decide,_,rfl⟩⟩

theorem peer_message_clears_history :
    midTalk.talk.chain ≠ [] ∧
      ∃ job, (submitFromPeer Runtime.boardSite.host ⟨midTalk, []⟩ "A" "/clear" "").jobs = [job] ∧
        (runJob Runtime.boardSite (fun c (_ : Empty) => c) ⟨[], {}⟩ {} job midTalk).runtime.talk.chain =
          [] ∧
        ¬ ExtendsOnly Runtime.boardSite.host "/clear" "A" midTalk
          (runJob Runtime.boardSite (fun c (_ : Empty) => c) ⟨[], {}⟩ {} job midTalk).runtime := by
  have hgone : (runJob Runtime.boardSite (fun c (_ : Empty) => c) ⟨[], {}⟩ {}
      (peerJob Runtime.boardSite.host ⟨midTalk, []⟩ "A" "/clear" "") midTalk).runtime.talk.chain =
        [] := by decide
  refine ⟨by decide,_,rfl,hgone,?_⟩
  intro hext
  obtain ⟨node,rest,hc,_⟩ := hext.appended
  rw [hgone] at hc
  simp at hc

end SessionRunner

end PuCli
