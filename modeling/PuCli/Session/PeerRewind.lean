import PuCli.Session.Conversation

namespace PuCli

def MessageNode.cameFromPeer (n : MessageNode) : Bool :=
  match n.payload with
  | .user p => p.fromPeer ≠ ""
  | _ => false

namespace Conversation

variable {c c' : Conversation} {turn : Nat} {moved : Bool}

theorem turnCameFromPeer_eq (hlow : 1 ≤ turn) : c.turnCameFromPeer turn =
    ((c.chain[turn - 1]?).map MessageNode.cameFromPeer).getD false := by
  unfold turnCameFromPeer
  rw [if_neg (Nat.not_lt.mpr hlow)]
  cases c.chain[turn - 1]? with
  | none => rfl
  | some node => cases hp : node.payload <;> simp [MessageNode.cameFromPeer,hp]

theorem rewindTo_target (h : c.graph.Sound) (hlow : 1 ≤ turn) (hhigh : turn ≤ c.chain.length) :
    (c.graph.rewindTo (c.rewindTarget turn)).isSome := by
  have htarget : c.rewindTarget turn = "" ∨ (c.graph.find (c.rewindTarget turn)).isSome := by
    unfold rewindTarget
    by_cases hone : turn = 1
    · exact .inl (if_pos hone)
    · have hlt : turn - 2 < c.chain.length := by omega
      rw [if_neg hone,List.getElem?_eq_getElem hlt]
      have hfind := MessageGraph.find_of_mem_chain h (List.getElem_mem hlt)
      exact .inr (by simp only; rw [hfind]; rfl)
  unfold MessageGraph.rewindTo
  obtain hid | hfind := htarget
  · simp [hid]
  · have hne : c.graph.find (c.rewindTarget turn) ≠ none := Option.isSome_iff_ne_none.mp hfind
    rw [if_neg (fun hboth => hne hboth.2)]
    rfl

theorem unmoved_iff (h : c.graph.Sound) (hr : c.rewindBefore turn = .ok (moved, c')) :
    moved = false ↔ turn = 0 ∨ c.chain.length < turn := by
  constructor
  · rintro rfl
    by_contra hrange
    obtain ⟨hlow,hhigh⟩ := not_or.mp hrange
    obtain ⟨graph,hg⟩ := Option.isSome_iff_exists.mp
      (rewindTo_target h (Nat.one_le_iff_ne_zero.mpr hlow) (Nat.not_lt.mp hhigh))
    unfold rewindBefore at hr
    split at hr
    · cases hr
    · split at hr
      · cases hr
      · split at hr
        · omega
        · rw [hg] at hr
          cases hr
  · intro hout
    cases moved with
    | false => rfl
    | true =>
        obtain ⟨hlow,hhigh,-⟩ := rewindBefore_ok h hr
        omega

theorem not_peer_at (h : c.graph.Sound) (hr : c.rewindBefore turn = .ok (true, c')) :
    (∀ node ∈ c.chain.drop (turn - 1), node.cameFromPeer = false) ↔
      ∀ node ∈ c.chain.drop turn, node.cameFromPeer = false := by
  obtain ⟨hlow,hhigh,-,hpeer,-⟩ := rewindBefore_ok h hr
  have hlt : turn - 1 < c.chain.length := by omega
  rw [turnCameFromPeer_eq hlow,List.getElem?_eq_getElem hlt] at hpeer
  rw [List.drop_eq_getElem_cons hlt,List.forall_mem_cons]
  have hsucc : turn - 1 + 1 = turn := by omega
  rw [hsucc]
  exact and_iff_right hpeer

-- Only the addressed turn is asked who it came from; what comes after it goes with it.
theorem peer_turns_stay_iff (h : c.graph.Sound) (hr : c.rewindBefore turn = .ok (moved, c')) :
    (∀ node ∈ c.chain, node.cameFromPeer = true → node ∈ c'.chain) ↔
      turn = 0 ∨ ∀ node ∈ c.chain.drop turn, node.cameFromPeer = false := by
  cases moved with
  | false =>
      obtain rfl := rewindBefore_unmoved hr
      refine iff_of_true (fun _ hn _ => hn) ?_
      obtain hzero | hlong := (unmoved_iff h hr).mp rfl
      · exact .inl hzero
      · have hnone : c.chain.drop turn = [] := List.drop_eq_nil_of_le (by omega)
        exact .inr (by rw [hnone]; simp)
  | true =>
      obtain ⟨hlow,-,-,-,-,-,hchain⟩ := rewindBefore_ok h hr
      have hzero : turn ≠ 0 := by omega
      rw [hchain,or_iff_right hzero,← not_peer_at h hr]
      have hsplit : c.chain.take (turn - 1) ++ c.chain.drop (turn - 1) = c.chain :=
        List.take_append_drop ..
      have hnodup : (c.chain.take (turn - 1) ++ c.chain.drop (turn - 1)).Nodup :=
        hsplit.symm ▸ (MessageGraph.chain_ids_nodup h).of_map _
      constructor
      · intro hstay node hcut
        by_contra hpeer
        have hmem : node ∈ c.chain := List.mem_of_mem_drop hcut
        have hkept := hstay node hmem (Bool.eq_true_of_not_eq_false hpeer)
        exact (List.nodup_append.mp hnodup).2.2 node hkept node hcut rfl
      · intro hnone node hmem hpeer
        rw [← hsplit,List.mem_append] at hmem
        refine hmem.resolve_right (fun hcut => ?_)
        rw [hnone node hcut] at hpeer
        cases hpeer

def ownText : JsonText := ⟨fun _ => none, fun _ => "", id, fun _ => ""⟩

def asks (id : MessageId) (peer : String) (c : Conversation) : Conversation :=
  c.append ownText id { role := .user, content := "ping", fromPeer := peer }

theorem sound_asks {id : MessageId} {peer : String} (h : c.graph.Sound) (hf : c.graph.Fresh id) :
    (c.asks id peer).graph.Sound := MessageGraph.sound_appendAfterLeaf h hf _ _

theorem peer_turns_stay_before_own :
    ∃ c', ((new.asks "p" "B").asks "u" "").rewindBefore 2 = .ok (true, c') ∧
      ∀ node ∈ ((new.asks "p" "B").asks "u" "").chain, node.cameFromPeer = true →
        node ∈ c'.chain := by
  have hsound : ((new.asks "p" "B").asks "u" "").graph.Sound :=
    sound_asks (sound_asks MessageGraph.sound_empty ⟨by decide,by decide⟩) ⟨by decide,by decide⟩
  have hr : ((new.asks "p" "B").asks "u" "").rewindBefore 2 =
      .ok (true, ⟨{ ((new.asks "p" "B").asks "u" "").graph with leaf := "p" }⟩) := by rfl
  exact ⟨_,hr,(peer_turns_stay_iff hsound hr).mpr (.inr (by decide))⟩

theorem peer_turn_cut_with_own :
    ∃ c', ((new.asks "u" "").asks "p" "B").rewindBefore 1 = .ok (true, c') ∧
      ∃ node ∈ ((new.asks "u" "").asks "p" "B").chain, node.cameFromPeer = true ∧
        node ∉ c'.chain := by
  have hsound : ((new.asks "u" "").asks "p" "B").graph.Sound :=
    sound_asks (sound_asks MessageGraph.sound_empty ⟨by decide,by decide⟩) ⟨by decide,by decide⟩
  have hr : ((new.asks "u" "").asks "p" "B").rewindBefore 1 =
      .ok (true, ⟨{ ((new.asks "u" "").asks "p" "B").graph with leaf := "" }⟩) := by rfl
  obtain ⟨-,-,-,-,-,-,hchain⟩ := rewindBefore_ok hsound hr
  have hpeer : ∃ node ∈ ((new.asks "u" "").asks "p" "B").chain, node.cameFromPeer = true := by
    decide
  obtain ⟨node,hmem,hfrom⟩ := hpeer
  refine ⟨_,hr,node,hmem,hfrom,?_⟩
  rw [hchain]
  simp

end Conversation

end PuCli
