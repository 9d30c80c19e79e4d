import PuCli.Runtime.ExecutorRound

namespace PuCli

open MessageGraph

namespace Executing

variable {ρ : Type} {host : Host} {turn : Turn ρ} {st st' : Executing ρ} {old : List MessageNode}
variable {asked : MessageNode}

structure Follows (host : Host) (old : List MessageNode) (asked : MessageNode)
    (st : Executing ρ) : Prop where
  ready : Ready host st
  chain : ∃ rest, st.chain = old ++ asked :: rest

theorem Follows.of_eq (h : Follows host old asked st) (hc : st'.conversation = st.conversation)
    (hd : st'.drawn = st.drawn) : Follows host old asked st' := by
  refine ⟨h.ready.of_eq hc hd,?_⟩
  obtain ⟨rest,hr⟩ := h.chain
  exact ⟨rest,by rw [Executing.chain,hc]; exact hr⟩

theorem Follows.pass (hi : turn.Idle) (w : Window ρ) (h : Follows host old asked st) :
    Follows host old asked (st.pass turn w) := by
  obtain ⟨hc,hd⟩ := pass_unmoved (quiet_of_idle hi (st.pass turn w))
  exact h.of_eq hc hd

theorem Follows.append {msg : ChatMessage} (h : Follows host old asked st)
    (hm : msg.role ≠ .tool) : Follows host old asked (st.append host msg) := by
  refine ⟨h.ready.append msg,?_⟩
  obtain ⟨rest,hr⟩ := h.chain
  have hkeep : answerIn (toPayload host.text msg) st.chain = st.chain := by
    unfold toPayload
    cases hrole : msg.role with
    | tool => exact absurd hrole hm
    | _ => rfl
  refine ⟨rest ++ [⟨host.newId st.drawn, msg.timestamp, toPayload host.text msg, st.leaf⟩],?_⟩
  rw [chain_append h.ready,hkeep,hr]
  simp

theorem Follows.sealCalls (ha : asked.payload.records = []) (h : Follows host old asked st) :
    Follows host old asked (st.sealCalls host) := by
  refine ⟨h.ready.sealCalls,?_⟩
  obtain ⟨rest,hr⟩ := h.chain
  rcases List.eq_nil_or_concat rest with rfl | ⟨init,last,rfl⟩
  · refine ⟨[],?_⟩
    rw [(sealCalls_silent h.ready hr ha).1,hr]
  · rw [List.concat_eq_append] at hr
    have hsplit : st.chain = (old ++ asked :: init) ++ [last] := by rw [hr]; simp
    obtain ⟨hc,_⟩ := chain_sealCalls h.ready hsplit
    rw [List.append_assoc,List.cons_append] at hc
    exact ⟨_,hc⟩

theorem Follows.runTools (hi : turn.Idle) (round : Round ρ) {reply : ChatResult}
    (hne : reply.toolCalls ≠ []) (h : Follows host old asked st) :
    Follows host old asked (runTools host turn round reply st) := by
  obtain ⟨hc,hr⟩ := runTools_chain h.ready hne
    (quiet_of_idle hi (Executing.runTools host turn round reply st))
  obtain ⟨rest,hrest⟩ := h.chain
  refine ⟨hr,rest ++ roundNodes host turn round reply st,?_⟩
  rw [hc,hrest]
  simp

theorem Follows.callProvider {called : Called} {round : Round ρ} (hi : turn.Idle)
    (h : Follows host old asked st)
    (hc : callProvider host turn round st = .ok (called, st')) : Follows host old asked st' := by
  have hheard : Follows host old asked (heard turn round st) := by
    have hs := SameTalk.foldl sameTalk_receive round.reply.pieces st
    exact (h.of_eq hs.conversation hs.drawn).pass hi round.calling
  obtain ⟨reply,_,_,rfl⟩ | ⟨what,_,⟨_,_,rfl⟩ | ⟨_,_,_,rfl⟩ | ⟨_,_,_,rfl⟩⟩ := callProvider_cases hc
  · exact hheard.of_eq rfl rfl
  · exact hheard
  · exact hheard
  · exact hheard.of_eq rfl rfl

theorem Follows.asking (hi : turn.Idle) (budget : Budgeted) (round : Round ρ)
    (h : Follows host old asked st) :
    Follows host old asked (asking host turn budget round st) := by
  have hp := h.pass hi round.opening
  have ha : Follows host old asked
      ((st.pass turn round.opening).askWrapUp host (checkBudget turn budget st)) := by
    unfold askWrapUp
    split
    · exact hp.append (by simp [wrapUpMessage])
    · exact hp
  exact ha.of_eq rfl rfl

theorem Follows.runToolLoop (hi : turn.Idle) (ha : asked.payload.records = [])
    (rounds : List (Round ρ)) (budget : Budgeted) (h : Follows host old asked st) :
    Follows host old asked (runToolLoop host turn rounds budget st).2 := by
  induction rounds generalizing budget st with
  | nil =>
      simp only [Executing.runToolLoop]
      split
      · exact h.of_eq rfl rfl
      · exact h
  | cons round rounds ih =>
      have ho := h.asking hi budget round
      cases looped host turn round rounds budget st with
      | spent hover heq =>
          rw [heq]
          exact h.of_eq rfl rfl
      | threw hover hc heq =>
          rw [heq]
          exact ho
      | failed hover hc heq =>
          rw [heq]
          exact (ho.callProvider hi hc).of_eq rfl rfl
      | stopped hover hc heq =>
          rw [heq]
          exact (ho.callProvider hi hc).sealCalls ha
      | abandoned hover hc heq =>
          rw [heq]
          exact ho.callProvider hi hc
      | answered hover hc hempty heq =>
          rw [heq]
          exact (ho.callProvider hi hc).of_eq rfl rfl
      | called hover hc hempty heq =>
          rw [heq]
          exact ih _ ((ho.callProvider hi hc).runTools hi round (by simpa using hempty))

def askedNode (host : Host) (input : String) (st : Executing ρ) : MessageNode :=
  ⟨host.newId st.drawn, "", .user ⟨input, st.peerOrigin⟩, st.leaf⟩

theorem follows_asked (h : Ready host st) (input : String) :
    Follows host st.chain (askedNode host input st)
      (st.append host (question input st.peerOrigin)) :=
  ⟨h.append _,[],chain_append h (question input st.peerOrigin)⟩

theorem follows_execute (hi : turn.Idle) (h : Ready host st) (script : Script ρ)
    (input : String) :
    Follows host st.chain (askedNode host input st) (execute host turn script input st).2 := by
  have hloop := (follows_asked h input).runToolLoop hi rfl script.rounds {}
  unfold execute
  dsimp only
  split
  · next s hs =>
      rw [hs] at hloop
      have hp := hloop.pass hi script.leaving
      unfold keepAnswer
      split
      · exact hp
      · exact hp.append (by simp [spoken])
  · exact hloop

end Executing

end PuCli
