import PuCli.Runtime.ProcessInput

namespace PuCli

open Json

def peerNamed (call : ToolCall) : String := valueOrDefault call.arguments "peer" ""

def Asks (cfg : PeerConfig) (call : ToolCall) (peer : PeerEntry) : Prop :=
  call.name = PeerTool.name ∧ cfg.findPeer (peerNamed call) = some peer

def Complete (call : ToolCall) : Prop :=
  peerNamed call ≠ "" ∧ (valueOrDefault call.arguments "intent" "" : String) ≠ "" ∧
    (valueOrDefault call.arguments "message" "" : String) ≠ ""

instance (call : ToolCall) : Decidable (Complete call) :=
  inferInstanceAs (Decidable (_ ∧ _ ∧ _))

structure ToolRun.Refused (text : JsonText) (run : ToolRun) : Prop where
  refusal : ∃ why, run.result = makeRefusal text why true
  silent : run.posts = []

structure Confined (text : JsonText) (cfg : PeerConfig) (origin : String) (run : ToolRun) :
    Prop where
  refused : ∀ peer, Asks cfg run.call peer → peerNamed run.call ≠ origin → run.Refused text
  only : run.posts ≠ [] → peerNamed run.call = origin

def Strays (cfg : PeerConfig) (origin : String) (call : ToolCall) : Prop :=
  (∃ peer, Asks cfg call peer) ∧ peerNamed call ≠ origin ∧ Complete call

def Round.calls {ρ : Type} (round : Round ρ) : List ToolCall :=
  match round.reply.chat with
  | .ok reply => reply.toolCalls
  | .error _ => []

def Clean {ρ : Type} (cfg : PeerConfig) (origin : String) (rounds : List (Round ρ)) : Prop :=
  ∀ round ∈ rounds, ∀ call ∈ round.calls, ¬ Strays cfg origin call

def Reaches (text : JsonText) (cfg : PeerConfig) (run : ToolRun) : Prop :=
  ∀ peer, Asks cfg run.call peer → Complete run.call →
    PeerTool.jobPost text cfg peer (valueOrDefault run.call.arguments "intent" "")
      (valueOrDefault run.call.arguments "due" "") ∈ run.posts

namespace PeerTool

variable {text : JsonText} {cfg : PeerConfig} {ctx : ToolContext} {wire : PeerWire} {call : ToolCall}

theorem execute_incomplete (h : ¬ Complete call) :
    ∃ why, execute text cfg ctx wire call.arguments = (makeRefusal text why true, []) := by
  unfold execute
  dsimp only
  rw [if_pos ?_]
  · exact ⟨_,rfl⟩
  · unfold Complete peerNamed at h
    tauto

theorem execute_unknown (h : cfg.findPeer (peerNamed call) = none) :
    (execute text cfg ctx wire call.arguments).2 = [] := by
  unfold execute
  unfold peerNamed at h
  dsimp only
  split
  · rfl
  · split
    · rfl
    · rw [h]

end PeerTool

namespace Executing

variable {ρ : Type} {host : Host} {turn : Turn ρ} {st st' : Executing ρ} {cfg : PeerConfig}
variable {origin : String}

theorem mem_logOf {ctx : ToolContext} {steps : Nat → CallStep ρ} {calls : List ToolCall}
    {run : ToolRun} (hr : run ∈ logOf host turn ctx steps calls) :
    run.call ∈ calls ∧ ∃ step, (run.result, run.posts) = toolText host turn ctx step run.call := by
  induction calls generalizing steps with
  | nil => simp [logOf] at hr
  | cons call calls ih =>
      rcases List.mem_cons.mp hr with rfl | hr
      · exact ⟨by simp,steps 0,rfl⟩
      · obtain ⟨hc,hstep⟩ := ih hr
        exact ⟨List.mem_cons_of_mem _ hc,hstep⟩

theorem mem_assignIds {next : Nat} {calls : List ToolCall} {call : ToolCall}
    (hc : call ∈ (assignIds host next calls).1) :
    ∃ asked ∈ calls, asked.name = call.name ∧ asked.arguments = call.arguments := by
  induction calls generalizing next with
  | nil => simp [assignIds] at hc
  | cons asked calls ih =>
      simp only [assignIds] at hc
      split at hc
      · rcases List.mem_cons.mp hc with rfl | hc
        · exact ⟨asked,by simp,rfl,rfl⟩
        · obtain ⟨a,ha,he⟩ := ih hc
          exact ⟨a,List.mem_cons_of_mem _ ha,he⟩
      · rcases List.mem_cons.mp hc with rfl | hc
        · exact ⟨call,by simp,rfl,rfl⟩
        · obtain ⟨a,ha,he⟩ := ih hc
          exact ⟨a,List.mem_cons_of_mem _ ha,he⟩

theorem toolText_peer {ctx : ToolContext} {step : CallStep ρ} {call : ToolCall}
    (hp : turn.toolbox.peers = some cfg) (hn : call.name = PeerTool.name) :
    toolText host turn ctx step call =
      PeerTool.execute host.text cfg ctx step.answer.wire call.arguments := by
  simp [toolText,Toolbox.executeTool,hp,hn]

theorem asks_of_posts {ctx : ToolContext} {step : CallStep ρ} {call : ToolCall}
    (hp : turn.toolbox.peers = some cfg) (hposts : (toolText host turn ctx step call).2 ≠ []) :
    ∃ peer, Asks cfg call peer := by
  by_cases hn : call.name = PeerTool.name
  · rw [toolText_peer hp hn] at hposts
    cases hf : cfg.findPeer (peerNamed call) with
    | none => exact absurd (PeerTool.execute_unknown hf) hposts
    | some peer => exact ⟨peer,hn,hf⟩
  · have hnone : (turn.toolbox.executeTool host.text ctx step.answer call.name call.arguments).2 =
        [] := by
      unfold Toolbox.executeTool
      rw [hp]
      simp only [hn,if_false]
      split <;> rfl
    refine absurd ?_ hposts
    unfold toolText
    dsimp only
    split <;> exact hnone

theorem confined_of_log {ctx : ToolContext} {steps : Nat → CallStep ρ} {calls : List ToolCall}
    (hp : turn.toolbox.peers = some cfg) (ho : origin ≠ "")
    (hctx : ctx.peerOrigin = origin ∨ ∀ call ∈ calls, ¬ Strays cfg origin call) :
    ∀ run ∈ logOf host turn ctx steps calls, Confined host.text cfg origin run := by
  intro run hrun
  obtain ⟨hmem,step,htext⟩ := mem_logOf hrun
  have hrefused : ∀ peer, Asks cfg run.call peer → peerNamed run.call ≠ origin →
      run.Refused host.text := by
    intro peer hasks hother
    obtain ⟨why,hwhy⟩ : ∃ why, PeerTool.execute host.text cfg ctx step.answer.wire
        run.call.arguments = (makeRefusal host.text why true, []) := by
      rcases hctx with rfl | hclean
      · exact PeerTool.execute_confined ho hother
      · refine PeerTool.execute_incomplete ?_
        intro hfull
        exact hclean run.call hmem ⟨⟨peer,hasks⟩,hother,hfull⟩
    rw [toolText_peer hp hasks.1] at htext
    obtain ⟨hres,hposts⟩ := Prod.mk.inj (htext.trans hwhy)
    exact ⟨⟨why,hres⟩,hposts⟩
  refine ⟨hrefused,?_⟩
  intro hposts
  by_contra hother
  have hsent : (toolText host turn ctx step run.call).2 ≠ [] := by
    rwa [← htext]
  obtain ⟨peer,hasks⟩ := asks_of_posts hp hsent
  exact hposts (hrefused peer hasks hother).silent

theorem reaches_of_log {ctx : ToolContext} {steps : Nat → CallStep ρ} {calls : List ToolCall}
    (hp : turn.toolbox.peers = some cfg) (hctx : ctx.peerOrigin = "") :
    ∀ run ∈ logOf host turn ctx steps calls, Reaches host.text cfg run := by
  intro run hrun peer hasks hfull
  obtain ⟨_,step,htext⟩ := mem_logOf hrun
  rw [toolText_peer hp hasks.1] at htext
  have hposts := congrArg Prod.snd htext
  dsimp only at hposts
  rw [hposts]
  exact PeerTool.execute_unrestricted hctx hasks.2 hfull

theorem mem_roundLog {round : Round ρ} {calls : List ToolCall} {run : ToolRun}
    (h : run ∈ roundLog host turn round calls st) :
    run ∈ logOf host turn ⟨st.userNote, st.peerOrigin⟩ round.steps calls := List.mem_of_mem_take h

theorem clean_calledAs {round : Round ρ} {reply : ChatResult} (hr : round.reply.chat = .ok reply)
    (hc : ∀ call ∈ round.calls, ¬ Strays cfg origin call) :
    ∀ call ∈ calledAs host reply st, ¬ Strays cfg origin call := by
  intro call hmem hstray
  obtain ⟨asked,hasked,hname,hargs⟩ := mem_assignIds hmem
  refine hc asked (by simpa [Round.calls,hr] using hasked) ?_
  unfold Strays Asks Complete peerNamed at hstray ⊢
  rwa [hname,hargs]

theorem runs_runToolLoop {good : ToolRun → Prop} {holds : List (Round ρ) → String → Prop}
    (hnext : ∀ {round rounds origin}, holds (round :: rounds) origin → holds rounds "")
    (hlog : ∀ {round rounds reply} {st : Executing ρ}, holds (round :: rounds) st.peerOrigin →
      round.reply.chat = .ok reply →
        ∀ run ∈ roundLog host turn round (calledAs host reply st) st, good run)
    {rounds : List (Round ρ)} {budget : Budgeted} (hholds : holds rounds st.peerOrigin)
    (hruns : ∀ run ∈ st.runs, good run) :
    ∀ run ∈ (runToolLoop host turn rounds budget st).2.runs, good run := by
  induction rounds generalizing budget st with
  | nil =>
      simp only [runToolLoop]
      split <;> exact hruns
  | cons round rounds ih =>
      have hopen : SameRuns st (asking host turn budget round st) :=
        sameRuns_opened host turn (checkBudget turn budget st) round.opening st
      cases looped host turn round rounds budget st with
      | spent hover heq =>
          rw [heq]
          exact hruns
      | threw hover hc heq =>
          rw [heq,hopen.runs]
          exact hruns
      | failed hover hc heq =>
          rw [heq,conclude,(hopen.trans (sameRuns_callProvider hc)).runs]
          exact hruns
      | stopped hover hc heq =>
          rw [heq,sealCalls,(hopen.trans (sameRuns_callProvider hc)).runs]
          exact hruns
      | abandoned hover hc heq =>
          rw [heq,(hopen.trans (sameRuns_callProvider hc)).runs]
          exact hruns
      | answered hover hc hempty heq =>
          rw [heq,conclude,(hopen.trans (sameRuns_callProvider hc)).runs]
          exact hruns
      | @called reply st₁ hover hc hempty heq =>
          have hsame := hopen.trans (sameRuns_callProvider hc)
          obtain ⟨hgrown,horigin⟩ := @runs_runTools ρ host turn round reply st₁
          rw [heq]
          refine ih ?_ ?_
          · rw [horigin]
            exact hnext hholds
          · intro run hrun
            rw [hgrown,hsame.runs] at hrun
            rcases List.mem_append.mp hrun with hrun | hrun
            · exact hruns run hrun
            · have hheld : holds (round :: rounds) st₁.peerOrigin := by rwa [hsame.origin]
              exact hlog hheld (answered_reply hc) run hrun

theorem runs_execute {good : ToolRun → Prop} {holds : List (Round ρ) → String → Prop}
    (hnext : ∀ {round rounds origin}, holds (round :: rounds) origin → holds rounds "")
    (hlog : ∀ {round rounds reply} {st : Executing ρ}, holds (round :: rounds) st.peerOrigin →
      round.reply.chat = .ok reply →
        ∀ run ∈ roundLog host turn round (calledAs host reply st) st, good run)
    {script : Script ρ} {input : String} (hholds : holds script.rounds st.peerOrigin)
    (hruns : st.runs = []) :
    ∀ run ∈ (execute host turn script input st).2.runs, good run := by
  have hloop := @runs_runToolLoop ρ host turn (st.append host (question input st.peerOrigin)) good
    holds hnext hlog script.rounds {} hholds (by simp [append,hruns])
  unfold execute
  dsimp only
  split
  · next s hs =>
      rw [hs] at hloop
      have hkept : (Executing.keepAnswer host (s.pass turn script.leaving)).runs = s.runs := by
        unfold keepAnswer
        split <;> exact (runs_pass turn script.leaving s).1
      rwa [hkept]
  · exact hloop

def Held (cfg : PeerConfig) (origin : String) (rounds : List (Round ρ)) (held : String) : Prop :=
  (held = origin ∧ Clean cfg origin rounds.tail) ∨ Clean cfg origin rounds

theorem confined_execute (hp : turn.toolbox.peers = some cfg) (ho : st.peerOrigin ≠ "")
    {script : Script ρ} {input : String} (hclean : Clean cfg st.peerOrigin script.rounds.tail)
    (hruns : st.runs = []) :
    ∀ run ∈ (execute host turn script input st).2.runs,
      Confined host.text cfg st.peerOrigin run := by
  refine @runs_execute ρ host turn st _ (Held cfg st.peerOrigin) ?_ ?_ script input
    (.inl ⟨rfl,hclean⟩) hruns
  · intro round rounds held hheld
    rcases hheld with ⟨_,hrest⟩ | hall
    · exact .inr hrest
    · exact .inr (fun r hr => hall r (List.mem_cons_of_mem _ hr))
  · intro round rounds reply s hheld hreply run hrun
    refine confined_of_log hp ho ?_ run (mem_roundLog hrun)
    rcases hheld with ⟨hs,_⟩ | hall
    · exact .inl hs
    · exact .inr (clean_calledAs hreply (hall round (by simp)))

theorem reaches_execute (hp : turn.toolbox.peers = some cfg) (ho : st.peerOrigin = "")
    {script : Script ρ} {input : String} (hruns : st.runs = []) :
    ∀ run ∈ (execute host turn script input st).2.runs, Reaches host.text cfg run := by
  refine @runs_execute ρ host turn st _ (fun _ held => held = "") (fun _ => rfl) ?_ script input ho
    hruns
  intro round rounds reply s hheld _ run hrun
  exact reaches_of_log hp hheld run (mem_roundLog hrun)

end Executing

def Processed.runs {ρ : Type} (p : Processed ρ) : List ToolRun :=
  match p.talk with
  | none => []
  | some st => st.runs

namespace Runtime

variable {ρ : Type} {site : Site} {token : Bool} {serve : Conversation → ρ → Conversation}
variable {script : Script ρ} {input origin : String} {rt : Runtime} {cfg : PeerConfig}

theorem mem_runs_processInput {run : ToolRun}
    (h : run ∈ (processInput site token serve script input origin rt).runs) :
    ∃ s : Executing ρ, s.peerOrigin = origin ∧ s.runs = [] ∧
      run ∈ (Executing.execute site.host (rt.turn token serve) script input s).2.runs := by
  unfold processInput at h
  dsimp only at h
  split at h
  · unfold runCommand at h
    split at h <;> simp [Processed.runs] at h
  · split at h
    · simp [Processed.runs] at h
    · refine ⟨executing (defaultSession { rt with peerOrigin := origin }),rfl,rfl,?_⟩
      have hturn : (defaultSession { rt with peerOrigin := origin }).turn token serve =
          rt.turn token serve := rfl
      rw [hturn] at h
      unfold runTurn at h
      split at h
      · next hs => rwa [hs]
      · next hs => rwa [hs]
      · next hs => rwa [hs]

theorem peer_turn_confined_when_later_replies_clean (hp : rt.toolbox.peers = some cfg) :
    (∀ origin, origin ≠ "" → Clean cfg origin script.rounds.tail →
      ∀ run ∈ (processInput site token serve script input origin rt).runs,
        Confined site.host.text cfg origin run) ∧
    ∀ run ∈ (processInput site token serve script input "" rt).runs,
      Reaches site.host.text cfg run := by
  constructor
  · intro origin ho hclean run hrun
    obtain ⟨s,rfl,hnone,hmem⟩ := mem_runs_processInput hrun
    exact Executing.confined_execute hp ho hclean hnone run hmem
  · intro run hrun
    obtain ⟨s,hs,hnone,hmem⟩ := mem_runs_processInput hrun
    exact Executing.reaches_execute hp hs hnone run hmem

def jobReply : String := "\x7b\"job\":\x7b\"id\":\"j1\"\x7d\x7d"

def acceptedReply : String := "\x7b\"accepted\":true\x7d"

def boardText : JsonText where
  parse s :=
    if s = jobReply then some (.object [("job", .object [("id", .string "j1")])])
    else if s = acceptedReply then some (.object [("accepted", .bool true)])
    else none
  serialize _ := ""
  parseError s := s
  kindError _ := ""

def tally (i : Nat) : MessageId := String.ofList (List.replicate (i + 1) 'n')

theorem toList_tally (i : Nat) : (tally i).toList = List.replicate (i + 1) 'n' := by simp [tally]

theorem tally_ne_empty (i : Nat) : tally i ≠ "" := by
  intro he
  have := congrArg String.toList he
  simp [toList_tally] at this

theorem tally_injective : Function.Injective tally := by
  intro i j hij
  have := congrArg (fun s => s.toList.length) hij
  simpa [toList_tally] using this

def boardSite : Site where
  host :=
    { text := boardText, newId := tally, timestamp := fun _ => ""
      clock := fun i => toString i, environment := "", toFloat := fun q => q }
  listModels _ := .ok []
  mcpTools _ := []

def twoPeers : PeerConfig :=
  ⟨"C", "secret", [⟨"A", "http://a"⟩, ⟨"B", "http://b"⟩]⟩

def servingC : Runtime where
  agents := ⟨"main", [{ name := "main", backend := { host := "http://localhost:11434" } }], []⟩
  toolbox := ⟨some twoPeers, builtinTools⟩
  peers := some twoPeers

def sendTo (id peer : String) : ToolCall :=
  ⟨id, "send_to_peer", .object [("peer", .string peer), ("intent", .string "relay"),
    ("message", .string "do it")]⟩

def callRound (call : ToolCall) : Round Empty where
  reply := .whole { toolCalls := [call] }
  steps _ := { answer := ⟨.ok "done", ⟨.ok jobReply, .ok acceptedReply⟩⟩ }

def answerRound : Round Empty where
  reply := .whole { content := "done" }
  steps _ := { answer := ⟨.ok "", ⟨.ok "", .ok ""⟩⟩ }

def firstRoundOnly : Script Empty := { rounds := [callRound (sendTo "c1" "B"), answerRound] }

def secondRoundToo : Script Empty :=
  { rounds := [callRound ⟨"c1", "execute_bash", .object []⟩, callRound (sendTo "c2" "B"),
      answerRound] }

def fromA (script : Script Empty) : Processed Empty :=
  processInput boardSite true (fun c _ => c) script "ask B" "A" servingC

theorem peer_turn_confined_first_round_only :
    Clean twoPeers "A" firstRoundOnly.rounds.tail ∧
      (fromA firstRoundOnly).runs.map ToolRun.call = [sendTo "c1" "B"] ∧
      ∀ run ∈ (fromA firstRoundOnly).runs, Confined boardText twoPeers "A" run := by
  have hclean : Clean twoPeers "A" firstRoundOnly.rounds.tail := by
    intro round hround call hcall
    rw [List.mem_singleton.mp hround] at hcall
    simp [Round.calls,answerRound,Provided.chat] at hcall
  refine ⟨hclean,by decide,?_⟩
  exact (peer_turn_confined_when_later_replies_clean rfl).1 "A" (by decide) hclean

theorem peer_turn_reaches_other_peer_second_round :
    ∃ run ∈ (fromA secondRoundToo).runs, Asks twoPeers run.call ⟨"B", "http://b"⟩ ∧
      run.posts.map Post.url = ["http://b/api/jobs", "http://b/api/peer/message"] ∧
      ¬ Confined boardText twoPeers "A" run := by
  have hruns : (sendTo "c2" "B", ["http://b/api/jobs", "http://b/api/peer/message"]) ∈
      (fromA secondRoundToo).runs.map (fun run => (run.call, run.posts.map Post.url)) := by decide
  obtain ⟨run,hmem,hrun⟩ := List.mem_map.mp hruns
  obtain ⟨hcall,hposts⟩ := Prod.mk.inj hrun
  refine ⟨run,hmem,?_,hposts,?_⟩
  · rw [hcall]
    exact ⟨rfl,by decide⟩
  · intro hconf
    have hsent : run.posts ≠ [] := by
      intro hnil
      simp [hnil] at hposts
    have hname := hconf.only hsent
    rw [hcall] at hname
    revert hname
    decide

end Runtime

end PuCli
