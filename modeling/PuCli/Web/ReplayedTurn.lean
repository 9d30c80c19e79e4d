import PuCli.Web.LiveTurn

namespace PuCli

open MessageGraph

variable {ρ : Type}

namespace ExecutionResult

def kept (r : ExecutionResult) : String := if r.hasError then "" else r.content

theorem kept_eq {r : ExecutionResult} (he : r.hasError = false) : r.kept = r.content := by
  simp [kept,he]

end ExecutionResult

namespace Executing

variable {host : Host} {turn : Turn ρ} {st st' : Executing ρ} {script : Script ρ}
variable {input : String}

def finaleOf (o : Outline) (content : String) : Finale := ⟨o.pieces, o.wrapUp, content⟩

theorem payloads_keepAnswer (h : Ready host st) :
    (st.keepAnswer host).payloads = st.payloads ++
      (if st.result.kept = "" then [] else [.assistant ⟨st.result.kept, [], []⟩]) := by
  unfold keepAnswer ExecutionResult.kept
  cases he : st.result.hasError with
  | true => simp
  | false =>
      by_cases hc : st.result.content = ""
      · simp [hc]
      · simp only [hc,Bool.false_eq_true,or_self,if_false]
        rw [payloads,chain_append h,List.map_append]
        rfl

theorem live_keepAnswer (st : Executing ρ) : (st.keepAnswer host).live = st.live := by
  unfold keepAnswer
  split <;> rfl

theorem played_execute (h : Ready host st)
    (hret : (execute host turn script input st).1 = .returned)
    (hq : Quiet turn (execute host turn script input st).2) :
    ∃ acts, List.Forall₂ (Acted host.text) (outline host turn.token turn.budget script.rounds {}
        st.cancelled st.result.toolCallCount st.nextToolCallId).saids acts ∧
      (execute host turn script input st).2.live = (outline host turn.token turn.budget
        script.rounds {} st.cancelled st.result.toolCallCount st.nextToolCallId).pieces.foldl
          showPiece (acts.foldl (Act.play host.text) st.live) ∧
      (execute host turn script input st).2.payloads = st.payloads ++
        .user ⟨input, st.peerOrigin⟩ :: (acts.flatMap Act.payloads ++
          (finaleOf (outline host turn.token turn.budget script.rounds {} st.cancelled
            st.result.toolCallCount st.nextToolCallId)
            (execute host turn script input st).2.result.kept).payloads) := by
  obtain ⟨hloop,heq⟩ := execute_returned hret
  have hasked : (st.append host (question input st.peerOrigin)).chain =
      st.chain ++ [askedNode host input st] := chain_append h (question input st.peerOrigin)
  have hends : EndsPlain (st.append host (question input st.peerOrigin)).chain :=
    ⟨st.chain,askedNode host input st,hasked,rfl⟩
  rw [heq] at hq ⊢
  set looped := (runToolLoop host turn script.rounds {}
    (st.append host (question input st.peerOrigin))).2 with hlooped
  have hqp : Quiet turn (looped.pass turn script.leaving) := Quiet.of_keepAnswer hq
  rw [(keepAnswer_keeps _).1]
  obtain ⟨acts,hplayed⟩ := played_runToolLoop script.rounds {} (h.append _) hends hloop hqp.of_pass
  rw [← hlooped] at hplayed
  obtain ⟨hconv,hdrawn⟩ := pass_unmoved hqp
  have hp : Played host _ _ (looped.pass turn script.leaving) acts :=
    hplayed.of_eq hconv hdrawn (unseen_pass turn script.leaving looped).live
  refine ⟨acts,hp.acted,(live_keepAnswer _).trans hp.live,?_⟩
  rw [payloads_keepAnswer hp.ready,hp.payloads]
  have hfirst : (st.append host (question input st.peerOrigin)).payloads =
      st.payloads ++ [.user ⟨input, st.peerOrigin⟩] := by
    rw [payloads,hasked,List.map_append]
    rfl
  rw [hfirst]
  simp [Finale.payloads,finaleOf]
  rfl

theorem ids_outline (host : Host) (token : Bool) (limit : Int) (rounds : List (Round ρ))
    (budget : Budgeted) (cancelled : Bool) (count next : Nat) :
    ∀ said ∈ (outline host token limit rounds budget cancelled count next).saids,
      ∀ call ∈ said.calls, call.id ≠ "" := by
  induction rounds generalizing budget cancelled count next with
  | nil => simp [outline]
  | cons round rounds ih =>
      intro said hsaid
      rw [outline] at hsaid
      dsimp only at hsaid
      split at hsaid
      · cases hsaid
      · split at hsaid
        · cases hsaid
        · split at hsaid
          · cases hsaid
          · rcases List.mem_cons.mp hsaid with rfl | hsaid
            · exact assignIds_named _ _ _
            · exact ih _ _ _ _ said hsaid

end Executing

namespace Runtime

def outlined (host : Host) (script : Script ρ) (rt : Runtime) : Outline :=
  outline host true rt.toolCallBudget.toInt script.rounds {} false 0 rt.nextToolCallId

def keptText (script : Script ρ) (rt : Runtime) : String :=
  ((calledRounds true rt.toolCallBudget.toInt script.rounds {} false 0).foldl Heard.next
    ⟨"", ""⟩).content

section Talking

variable {site : Site} {serve : Conversation → ρ → Conversation} {script : Script ρ}
variable {input origin : String} {rt : Runtime}

theorem played_talking (hsound : rt.current.conversation.graph.Sound)
    (hids : rt.current.conversation.graph.FreshSupply (fun i => site.host.newId (rt.drawn + i)))
    (hret : (talking site serve script input origin rt).1 = .returned)
    (hquiet : ∀ e ∈ (talking site serve script input origin rt).2.served, serve e.1 e.2 = e.1) :
    ∃ acts, List.Forall₂ (Acted site.host.text) (rt.outlined site.host script).saids acts ∧
      (talking site serve script input origin rt).2.live =
        (rt.outlined site.host script).pieces.foldl showPiece
          (acts.foldl (Act.play site.host.text) []) ∧
      (talking site serve script input origin rt).2.payloads =
        rt.current.conversation.chain.map MessageNode.payload ++ .user ⟨input, origin⟩ ::
          (acts.flatMap Act.payloads ++ (Executing.finaleOf (rt.outlined site.host script)
            (talking site serve script input origin rt).2.result.kept).payloads) := by
  have hready : Executing.Ready site.host
      ((defaultSession { rt with peerOrigin := origin }).executing : Executing ρ) := ⟨hsound,hids⟩
  exact Executing.played_execute hready hret hquiet

theorem kept_talking (hret : (talking site serve script input origin rt).1 = .returned)
    (he : (talking site serve script input origin rt).2.result.hasError = false) :
    (talking site serve script input origin rt).2.result.kept = rt.keptText script :=
  (ExecutionResult.kept_eq he).trans (congrArg Heard.content (Executing.heard_execute hret he))

end Talking

structure Retold (page : Page) (host : Host) (script : Script ρ) (rt : Runtime) : Prop where
  ran : ∀ said ∈ (rt.outlined host script).saids, said.ran = said.calls.length
  distinct : (ids (rt.outlined host script).saids).Nodup
  told : Retells page "" true (rt.outlined host script).saids
    (Executing.finaleOf (rt.outlined host script) (rt.keptText script))

end Runtime

namespace SessionRunner

open Executing

variable {site : Site} {serve : Conversation → ρ → Conversation} {script : Script ρ}

theorem liveBlocks_closing {p : Processed ρ} (he : p.result.hasError = false) (fs : List Frame) :
    liveBlocks (fs ++ closingFrames p.runtime p.result) = liveBlocks fs := by
  rw [liveBlocks_append]
  have hend : endFrame p.result = .done p.result.model := by simp [endFrame,he]
  rw [closingFrames,hend,List.foldl_append,List.foldl_append]
  have hnotice : (noticeFrames p.result).foldl dispatchFrame (liveBlocks fs) = liveBlocks fs := by
    unfold noticeFrames
    split <;> rfl
  have husage : (usageFrames p.runtime p.result).foldl dispatchFrame (liveBlocks fs) =
      liveBlocks fs := by
    unfold usageFrames
    split <;> rfl
  rw [hnotice,husage]
  rfl

theorem frames_report {job : Job} {ending : Ending} {p : Processed ρ}
    (h : EndsDone (report job ending p)) :
    liveBlocks (report job ending p).record.frames =
      liveBlocks ((talkFrames p).1 ++ (talkFrames p).2) := by
  obtain ⟨_,he,_,_⟩ := endsDone_report h
  obtain ⟨model,h⟩ := h
  unfold report at h ⊢
  dsimp only at h ⊢
  split at h
  · simp at h
  · next hended =>
      rw [if_neg hended]
      split at h
      · simp at h
      · next hhere =>
          rw [if_neg hhere]
          exact liveBlocks_closing he _

theorem transcript_replays_live_iff {page : Page} {ending : Ending} {job : Job} {rt : Runtime}
    (hbuilt : rt.current.conversation.graph.Built)
    (hids : rt.current.conversation.graph.FreshSupply (fun i => site.host.newId (rt.drawn + i)))
    (hmessage : Runtime.isCommand job.text = false)
    (hquiet : ∀ e ∈ (Runtime.talking site serve script job.text job.peerOrigin rt).2.served,
      serve e.1 e.2 = e.1)
    (hdone : EndsDone (runJob site serve script ending job rt)) :
    liveBlocks (runJob site serve script ending job rt).record.frames =
        blocksOfTurn (rt.current.conversation.chain.length + 1) (groupHistory page
          (handleApiHistory site.host.text (runJob site serve script ending job rt).runtime.current)) ↔
      rt.Retold page site.host script := by
  have hrun := endsDone_runJob hdone
  rw [hrun] at hdone ⊢
  obtain ⟨hended,he,_,hruntime⟩ := endsDone_report hdone
  obtain ⟨hret,hresult,htalk,_,hconv⟩ := Runtime.processInput_talked hmessage hended he
  rw [hresult] at he
  obtain ⟨acts,hacted,hlive,hpayloads⟩ := Runtime.played_talking hbuilt.sound hids hret hquiet
  rw [Runtime.kept_talking hret he] at hpayloads
  have hframes : liveBlocks (report job ending (rt.processInput site true serve script job.text
      job.peerOrigin)).record.frames =
        (Runtime.talking site serve script job.text job.peerOrigin rt).2.live := by
    rw [frames_report hdone,talkFrames,htalk]
    rfl
  obtain ⟨old,rest,hsplit,hold,hrest⟩ := List.map_eq_append_iff.mp hpayloads
  obtain ⟨asked,new,rfl,hasked,hnew⟩ := List.map_eq_cons_iff.mp hrest
  have hlen : old.length = rt.current.conversation.chain.length := by
    have hl := congrArg List.length hold
    rw [List.length_map] at hl
    exact hl.trans (List.length_map _)
  have hchain : (report job ending (rt.processInput site true serve script job.text
      job.peerOrigin)).runtime.current.conversation.chain = old ++ asked :: new := by
    rw [hruntime,hconv]
    exact hsplit
  rw [hframes,← hlen,blocksOfTurn_groupHistory hasked hchain,hnew]
  have hiff := @played_eq_read_iff site.host.text page acts _ hacted
    (ids_outline _ _ _ _ _ _ _ _) (finaleOf (rt.outlined site.host script) (rt.keptText script))
  refine (Iff.trans ?_ hiff).trans ⟨fun h => ⟨h.1,h.2.1,h.2.2⟩,fun h => ⟨h.ran,h.distinct,h.told⟩⟩
  rw [hlive]
  rfl

def plainPage : Page := ⟨fun _ => none, fun _ => ""⟩

def toolThenAnswer (before : StreamEvent) : Script Empty where
  rounds :=
    [{ reply := .streamed [before, .toolCall (Runtime.bashCall "c1")] "" {}
       steps := fun _ => { answer := ⟨.ok "ran", ⟨.ok "", .ok ""⟩⟩ } },
     { reply := .streamed [.content "it ", .content "is"] "" {}
       steps := fun _ => { answer := ⟨.ok "", ⟨.ok "", .ok ""⟩⟩ } }]

def watchedRun (before : StreamEvent) : JobRun :=
  runJob Runtime.boardSite (fun c _ => c) (toolThenAnswer before) {} (typed "go") Runtime.servingC

def replayed (run : JobRun) : List PageBlock :=
  blocksOfTurn 1 (groupHistory plainPage
    (handleApiHistory Runtime.boardSite.host.text run.runtime.current))

theorem transcript_replays_thinking_then_tool :
    EndsDone (watchedRun (.reasoning "look" "" .null)) ∧
      liveBlocks (watchedRun (.reasoning "look" "" .null)).record.frames =
        replayed (watchedRun (.reasoning "look" "" .null)) := by
  have hdone : EndsDone (watchedRun (.reasoning "look" "" .null)) := ⟨"",by decide⟩
  refine ⟨hdone,?_⟩
  refine (@transcript_replays_live_iff Empty Runtime.boardSite _ _ plainPage {} (typed "go")
    Runtime.servingC ⟨_,.empty,.refl⟩ (Runtime.tally_fresh_empty 0) (by decide)
    (fun e _ => e.2.elim) hdone).mpr ?_
  refine ⟨by decide,by decide,⟨by decide,by decide,by decide⟩,?_,by decide,by decide,by decide⟩
  intro call hcall
  rw [List.mem_singleton.mp hcall]
  exact ⟨by decide,rfl⟩

theorem transcript_moves_text_behind_tool :
    EndsDone (watchedRun (.content "looking")) ∧
      (liveBlocks (watchedRun (.content "looking")).record.frames).map PageBlock.kind? =
        [some .text, none, some .text] ∧
      (replayed (watchedRun (.content "looking"))).map PageBlock.kind? = [none, some .text] ∧
      liveBlocks (watchedRun (.content "looking")).record.frames ≠
        replayed (watchedRun (.content "looking")) :=
  ⟨⟨"",by decide⟩,by decide,by decide,by decide⟩

end SessionRunner

end PuCli
