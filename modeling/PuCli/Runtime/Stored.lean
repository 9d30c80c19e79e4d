import PuCli.Runtime.TurnFrames
import PuCli.Session.SessionRuns

namespace PuCli

open MessageGraph

variable {ρ : Type} {P : MessagePayload → Prop}

structure PayloadLaw (text : JsonText) (P : MessagePayload → Prop) : Prop extends Settled P where
  plain : ∀ msg, msg.role ≠ .assistant → P (toPayload text msg)
  answer : ∀ content, P (.assistant ⟨content, [], []⟩)

def Round.Stores (P : MessagePayload → Prop) (round : Round ρ) : Prop :=
  ∀ reply, round.reply.chat = .ok reply → reply.toolCalls ≠ [] → ∀ calls : List ToolCall,
    calls.map ToolCall.arguments = reply.toolCalls.map ToolCall.arguments →
      P (.assistant ⟨reply.content, reply.reasoning, calls.map ToolCall.record⟩)

namespace Executing

variable {host : Host} {turn : Turn ρ} {st st' : Executing ρ} {round : Round ρ}
variable {reply : ChatResult}

structure Stores (host : Host) (P : MessagePayload → Prop) (st : Executing ρ) : Prop
    extends Ready host st where
  every : st.conversation.graph.Every P

theorem Stores.of_eq (h : Stores host P st) (hc : st'.conversation = st.conversation)
    (hd : st'.drawn = st.drawn) : Stores host P st' :=
  ⟨h.toReady.of_eq hc hd,by rw [hc]; exact h.every⟩

theorem Stores.of_sameTalk (h : Stores host P st) (hs : SameTalk st st') : Stores host P st' :=
  h.of_eq hs.conversation hs.drawn

theorem Stores.append (hl : PayloadLaw host.text P) (h : Stores host P st) {msg : ChatMessage}
    (hp : P (toPayload host.text msg)) : Stores host P (st.append host msg) :=
  ⟨h.toReady.append msg,every_appendAfterLeaf hl.toSettled h.sound h.every h.fresh hp _⟩

theorem Stores.sealCalls (hl : PayloadLaw host.text P) (h : Stores host P st) :
    Stores host P (st.sealCalls host) :=
  ⟨h.toReady.sealCalls,every_seal hl.toSettled h.sound h.every h.supply⟩

theorem Stores.pass (hk : turn.Keeps) (w : Window ρ) (h : Stores host P st) :
    Stores host P (st.pass turn w) := by
  have hall : ∀ (rs : List ρ) (s : Executing ρ), Stores host P s →
      Stores host P (rs.foldl (serveOne turn) s) := by
    intro rs
    induction rs with
    | nil => exact fun _ hs => hs
    | cons r rs ih =>
        intro s hs
        exact ih _ ⟨hs.toReady.serveOne hk r,every_of_nodes_eq hs.every (hk.nodes _ _)⟩
  exact (hall w.requests st h).of_sameTalk ⟨rfl,rfl,rfl⟩

theorem Stores.opened {budget : Budgeted} (hk : turn.Keeps) (hl : PayloadLaw host.text P)
    (h : Stores host P st) : Stores host P (asking host turn budget round st) := by
  have hp : Stores host P
      ((st.pass turn round.opening).askWrapUp host (checkBudget turn budget st)) := by
    unfold askWrapUp
    split
    · exact (h.pass hk round.opening).append hl (hl.plain _ (by simp [wrapUpMessage]))
    · exact h.pass hk round.opening
  exact hp.of_sameTalk ⟨rfl,rfl,rfl⟩

theorem Stores.callProvider {called : Called} (hk : turn.Keeps) (h : Stores host P st)
    (hc : callProvider host turn round st = .ok (called, st')) : Stores host P st' := by
  have hh : Stores host P (heard turn round st) :=
    (h.of_sameTalk (.foldl sameTalk_receive round.reply.pieces st)).pass hk round.calling
  obtain ⟨reply,_,_,rfl⟩ | ⟨what,_,⟨_,_,rfl⟩ | ⟨_,_,_,rfl⟩ | ⟨_,_,_,rfl⟩⟩ := callProvider_cases hc
  · exact hh.of_sameTalk ⟨rfl,rfl,rfl⟩
  · exact hh
  · exact hh
  · exact hh.of_sameTalk ⟨rfl,rfl,rfl⟩

theorem Stores.runCalls (hk : turn.Keeps) (hl : PayloadLaw host.text P) (ctx : ToolContext)
    (steps : Nat → CallStep ρ) (calls : List ToolCall) (h : Stores host P st) :
    Stores host P (runCalls host turn ctx steps calls st) := by
  induction calls generalizing steps st with
  | nil => exact h
  | cons call calls ih =>
      have hp : Stores host P (st.pass turn (steps 0).before) := h.pass hk _
      simp only [Executing.runCalls]
      split
      · exact hp
      · apply ih
        rw [runCall_eq]
        have hlog : Stores host P (logRun host turn ctx (steps 0) call
            (st.pass turn (steps 0).before)) := hp.of_sameTalk ⟨rfl,rfl,rfl⟩
        exact hlog.append hl (hl.plain _ (by simp [receipt]))

theorem arguments_assignIds (host : Host) (next : Nat) (calls : List ToolCall) :
    (assignIds host next calls).1.map ToolCall.arguments = calls.map ToolCall.arguments := by
  induction calls generalizing next with
  | nil => rfl
  | cons call calls ih =>
      rw [assignIds]
      split
      · rw [List.map_cons,List.map_cons,ih]
      · rw [List.map_cons,List.map_cons,ih]

theorem stores_called (hl : PayloadLaw host.text P) (hr : round.Stores P)
    (hreply : round.reply.chat = .ok reply) (hne : reply.toolCalls ≠ []) (h : Stores host P st) :
    Stores host P (called host reply st) := by
  have hnext : Stores host P ({ st with
      nextToolCallId := (assignIds host st.nextToolCallId reply.toolCalls).2 } : Executing ρ) :=
    h.of_sameTalk ⟨rfl,rfl,rfl⟩
  have hpay : P (toPayload host.text (assistantTurn reply (calledAs host reply st))) := by
    rw [toPayload_assistantTurn]
    exact hr reply hreply hne _ (arguments_assignIds host _ reply.toolCalls)
  exact (hnext.append hl hpay).of_sameTalk ⟨rfl,rfl,rfl⟩

theorem Stores.runTools (hk : turn.Keeps) (hl : PayloadLaw host.text P) (hr : round.Stores P)
    (hreply : round.reply.chat = .ok reply) (hne : reply.toolCalls ≠ []) (h : Stores host P st) :
    Stores host P (runTools host turn round reply st) := by
  have hleave : ∀ s : Executing ρ, Stores host P s → Stores host P (s.leaveNote host turn) := by
    intro s hs
    unfold leaveNote
    split
    · exact (hs.append hl (hl.plain _ (by simp [noteMessage]))).of_sameTalk ⟨rfl,rfl,rfl⟩
    · exact hs
  have hseal : ∀ s : Executing ρ, Stores host P s → Stores host P (s.sealIfStopped host turn) := by
    intro s hs
    unfold sealIfStopped
    split
    · exact hs.sealCalls hl
    · exact hs
  have hcalled := stores_called hl hr hreply hne h
  rw [runTools_eq]
  exact hseal _ ((hleave _ ((hcalled.runCalls hk hl _ _ _).pass hk _)).pass hk _)

theorem Stores.runToolLoop (hk : turn.Keeps) (hl : PayloadLaw host.text P)
    (rounds : List (Round ρ)) (budget : Budgeted)
    (hr : ∀ round ∈ calledRounds turn.token turn.budget rounds budget st.cancelled
      st.result.toolCallCount, round.Stores P) (h : Stores host P st) :
    Stores host P (runToolLoop host turn rounds budget st).2 := by
  induction rounds generalizing budget st with
  | nil =>
      simp only [Executing.runToolLoop]
      split
      · exact h.of_sameTalk ⟨rfl,rfl,rfl⟩
      · exact h
  | cons round rounds ih =>
      have ho : Stores host P (asking host turn budget round st) := h.opened hk hl
      cases looped host turn round rounds budget st with
      | spent hover heq =>
          rw [heq]
          exact h.of_sameTalk ⟨rfl,rfl,rfl⟩
      | threw hover hc heq =>
          rw [heq]
          exact ho
      | failed hover hc heq =>
          rw [heq]
          exact (ho.callProvider hk hc).of_sameTalk ⟨rfl,rfl,rfl⟩
      | stopped hover hc heq =>
          rw [heq]
          exact (ho.callProvider hk hc).sealCalls hl
      | abandoned hover hc heq =>
          rw [heq]
          exact ho.callProvider hk hc
      | answered hover hc hempty heq =>
          rw [heq]
          exact (ho.callProvider hk hc).of_sameTalk ⟨rfl,rfl,rfl⟩
      | called hover hc hempty heq =>
          rw [calledRounds_called hover hc hempty] at hr
          rw [heq]
          apply ih _ (fun r hmem => hr r (List.mem_cons_of_mem _ hmem))
          exact (ho.callProvider hk hc).runTools hk hl (hr round (by simp)) (answered_reply hc)
            (by simpa using hempty)

theorem stores_execute (hk : turn.Keeps) (hl : PayloadLaw host.text P) (script : Script ρ)
    (input : String) (hready : Ready host st) (hold : ∀ n ∈ st.chain, P n.payload)
    (hr : ∀ round ∈ calledRounds turn.token turn.budget script.rounds {} st.cancelled
      st.result.toolCallCount, round.Stores P) :
    Stores host P (execute host turn script input st).2 := by
  have hasked : Stores host P (st.append host (question input st.peerOrigin)) := by
    refine ⟨hready.append _,?_⟩
    exact every_append_of_chain hl.toSettled hready.sound hold hready.fresh
      (hl.plain _ (by simp [question])) _
  have hloop : Stores host P (Executing.runToolLoop host turn script.rounds {}
      (st.append host (question input st.peerOrigin))).2 :=
    hasked.runToolLoop hk hl script.rounds {} hr
  unfold execute
  dsimp only
  split
  · next hran =>
      rw [hran] at hloop
      have hleft := hloop.pass hk script.leaving
      unfold keepAnswer
      split
      · exact hleft
      · exact hleft.append hl (hl.answer _)
  · exact hloop

end Executing

end PuCli
