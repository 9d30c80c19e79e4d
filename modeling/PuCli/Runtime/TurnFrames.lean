import PuCli.Runtime.AnswerText
import PuCli.Runtime.PeerConfinement

namespace PuCli

variable {ρ : Type} {P : Frame → Prop}

structure FrameLaw (P : Frame → Prop) : Prop where
  chunk : ∀ text, P (.chunk text)
  thinking : ∀ text, P (.thinking text)
  approvalAsk : ∀ command, P (.approvalAsk command)

structure ToolCall.Lawful (P : Frame → Prop) (call : ToolCall) : Prop where
  started : ∀ id, P (.toolStart id call.name call.arguments)
  ended : ∀ id output error, P (.toolEnd id call.name call.arguments output error)

def Round.Lawful (P : Frame → Prop) (round : Round ρ) : Prop := ∀ call ∈ round.calls, call.Lawful P

namespace Executing

variable {host : Host} {turn : Turn ρ} {st st' : Executing ρ} {round : Round ρ}
variable {reply : ChatResult}

def Says (P : Frame → Prop) (st : Executing ρ) : Prop := ∀ f ∈ st.earlier ++ st.frames, P f

structure SameFrames (st st' : Executing ρ) : Prop where
  earlier : st'.earlier = st.earlier
  frames : st'.frames = st.frames

theorem Says.of_same (h : Says P st) (hs : SameFrames st st') : Says P st' := by
  unfold Says
  rw [hs.earlier,hs.frames]
  exact h

theorem Says.more {frames : List Frame} (h : Says P st) (hf : ∀ f ∈ frames, P f)
    (he : st'.earlier = st.earlier) (hs : st'.frames = st.frames ++ frames) : Says P st' := by
  unfold Says
  rw [he,hs,← List.append_assoc]
  intro f hmem
  rcases List.mem_append.mp hmem with hold | hnew
  · exact h f hold
  · exact hf f hnew

theorem Says.receive (hl : FrameLaw P) (pieces : List Piece) (h : Says P st) :
    Says P (pieces.foldl receive st) := by
  induction pieces generalizing st with
  | nil => exact h
  | cons piece pieces ih =>
      refine ih ?_
      cases piece with
      | content text =>
          simp only [Executing.receive]
          split
          · exact h
          · exact h.more (by simpa using hl.chunk text) rfl rfl
      | reasoning text =>
          simp only [Executing.receive]
          split
          · exact h
          · exact h.more (by simpa using hl.thinking text) rfl rfl

theorem Says.pass (w : Window ρ) (h : Says P st) : Says P (st.pass turn w) :=
  h.of_same ⟨earlier_pass turn w st,frames_pass turn w st⟩

theorem Says.opened {budget : Budgeted} (h : Says P st) :
    Says P (asking host turn budget round st) := by
  have hp : Says P ((st.pass turn round.opening).askWrapUp host (checkBudget turn budget st)) := by
    unfold askWrapUp
    split
    · exact (h.pass round.opening).of_same ⟨rfl,rfl⟩
    · exact h.pass round.opening
  intro f hf
  have hnil : (asking host turn budget round st).frames = [] := rfl
  rw [hnil,List.append_nil] at hf
  exact hp f hf

theorem Says.callProvider {called : Called} (hl : FrameLaw P) (h : Says P st)
    (hc : callProvider host turn round st = .ok (called, st')) : Says P st' := by
  have hh : Says P (heard turn round st) := (h.receive hl round.reply.pieces).pass round.calling
  obtain ⟨reply,_,_,rfl⟩ | ⟨what,_,⟨_,_,rfl⟩ | ⟨_,_,_,rfl⟩ | ⟨_,_,_,rfl⟩⟩ := callProvider_cases hc
  · exact hh.of_same ⟨rfl,rfl⟩
  · exact hh
  · exact hh
  · exact hh.of_same ⟨rfl,rfl⟩

theorem lawful_callFrames (hl : FrameLaw P) {call : ToolCall} (hc : call.Lawful P)
    (step : CallStep ρ) (raw : String) : ∀ f ∈ callFrames host step call raw, P f := by
  intro f hf
  rcases List.mem_append.mp hf with hf | hf
  · rcases List.mem_cons.mp hf with rfl | hf
    · exact hc.started call.id
    · obtain ⟨command,_,rfl⟩ := List.mem_map.mp hf
      exact hl.approvalAsk command
  · rw [List.mem_singleton.mp hf]
    unfold toolEndFrame
    split
    · exact hc.ended _ _ _
    · exact hc.ended _ _ _

theorem Says.runCalls (hl : FrameLaw P) (ctx : ToolContext) (steps : Nat → CallStep ρ)
    {calls : List ToolCall} (hc : ∀ call ∈ calls, call.Lawful P) (h : Says P st) :
    Says P (runCalls host turn ctx steps calls st) := by
  induction calls generalizing steps st with
  | nil => exact h
  | cons call calls ih =>
      have hp : Says P (st.pass turn (steps 0).before) := h.pass _
      simp only [Executing.runCalls]
      split
      · exact hp
      · refine ih _ (fun c hmem => hc c (List.mem_cons_of_mem _ hmem)) ?_
        rw [runCall_eq]
        exact hp.more (lawful_callFrames hl (hc call (by simp)) (steps 0) _) rfl rfl

theorem Says.runTools (hl : FrameLaw P) (hr : round.Lawful P)
    (hreply : round.reply.chat = .ok reply) (h : Says P st) :
    Says P (runTools host turn round reply st) := by
  have hcalls : ∀ call ∈ calledAs host reply st, call.Lawful P := by
    intro call hcall
    obtain ⟨asked,hasked,hname,hargs⟩ := mem_assignIds hcall
    have hlaw := hr asked (by rw [calls_eq hreply]; exact hasked)
    exact ⟨fun id => hname ▸ hargs ▸ hlaw.started id,
      fun id output error => hname ▸ hargs ▸ hlaw.ended id output error⟩
  have hcalled : Says P (called host reply st) := h.of_same ⟨rfl,rfl⟩
  have hran : Says P (ranCalls host turn round reply st) := hcalled.runCalls hl _ _ hcalls
  have hsame := @sameOutput_runTools ρ host turn round reply st
  exact hran.of_same ⟨hsame.earlier,hsame.frames⟩

theorem Says.runToolLoop (hl : FrameLaw P) (rounds : List (Round ρ)) (budget : Budgeted)
    (hr : ∀ round ∈ calledRounds turn.token turn.budget rounds budget st.cancelled
      st.result.toolCallCount, round.Lawful P) (h : Says P st) :
    Says P (runToolLoop host turn rounds budget st).2 := by
  induction rounds generalizing budget st with
  | nil =>
      simp only [Executing.runToolLoop]
      split
      · exact h.of_same ⟨rfl,rfl⟩
      · exact h
  | cons round rounds ih =>
      have ho : Says P (asking host turn budget round st) := h.opened
      cases looped host turn round rounds budget st with
      | spent hover heq =>
          rw [heq]
          exact h.of_same ⟨rfl,rfl⟩
      | threw hover hc heq =>
          rw [heq]
          exact ho
      | failed hover hc heq =>
          rw [heq]
          exact (ho.callProvider hl hc).of_same ⟨rfl,rfl⟩
      | stopped hover hc heq =>
          rw [heq]
          exact (ho.callProvider hl hc).of_same ⟨rfl,rfl⟩
      | abandoned hover hc heq =>
          rw [heq]
          exact ho.callProvider hl hc
      | answered hover hc hempty heq =>
          rw [heq]
          exact (ho.callProvider hl hc).of_same ⟨rfl,rfl⟩
      | called hover hc hempty heq =>
          rw [calledRounds_called hover hc hempty] at hr
          rw [heq]
          refine ih _ (fun r hmem => hr r (List.mem_cons_of_mem _ hmem)) ?_
          exact (ho.callProvider hl hc).runTools hl (hr round (by simp)) (answered_reply hc)

theorem says_execute (hl : FrameLaw P) (script : Script ρ) (input : String)
    (hr : ∀ round ∈ calledRounds turn.token turn.budget script.rounds {} st.cancelled
      st.result.toolCallCount, round.Lawful P) (h : Says P st) :
    Says P (execute host turn script input st).2 := by
  have hasked : Says P (st.append host (question input st.peerOrigin)) := h.of_same ⟨rfl,rfl⟩
  have hloop : Says P (runToolLoop host turn script.rounds {}
      (st.append host (question input st.peerOrigin))).2 :=
    Says.runToolLoop hl script.rounds {} hr hasked
  have hkeep : ∀ s : Executing ρ, SameFrames s (s.keepAnswer host) := by
    intro s
    unfold keepAnswer
    split <;> exact ⟨rfl,rfl⟩
  unfold execute
  dsimp only
  split
  · next hran =>
      rw [hran] at hloop
      exact (hloop.pass script.leaving).of_same (hkeep _)
  · exact hloop

end Executing

end PuCli
