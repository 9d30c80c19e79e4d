import PuCli.Runtime.CancelSeals

namespace PuCli

open MessageGraph

def handleApiRewind (c : Conversation) (turn : Int) : Except String Conversation :=
  if turn < 1 then .error "Missing or invalid 'turn'"
  else match c.rewindBefore turn.toNat with
    | .error what => .error what
    | .ok (false, _) => .error "No such turn"
    | .ok (true, c') => .ok c'

def serveRewind (c : Conversation) (turn : Int) : Conversation :=
  match handleApiRewind c turn with
  | .ok c' => c'
  | .error _ => c

def Refused (e : Conversation × Int) : Prop := ∃ what, handleApiRewind e.1 e.2 = .error what

instance (e : Conversation × Int) : Decidable (Refused e) :=
  match h : handleApiRewind e.1 e.2 with
  | .ok _ => isFalse (fun ⟨_,hw⟩ => by rw [hw] at h; cases h)
  | .error what => isTrue ⟨what,h⟩

def Blocked (e : Conversation × Int) : Prop :=
  e.2 < 1 ∨ (e.1.chain.length : Int) < e.2 ∨ e.1.turnCameFromPeer e.2.toNat = true ∨
    e.1.hasPendingToolCalls = true

instance (e : Conversation × Int) : Decidable (Blocked e) := inferInstanceAs (Decidable (_ ∨ _))

section Handler

variable {c c' : Conversation} {turn : Int}

theorem rewindTo_rewindTarget (h : c.graph.Sound) (n : Nat) :
    ∃ graph, c.graph.rewindTo (c.rewindTarget n) = some graph := by
  refine ⟨{ c.graph with leaf := c.rewindTarget n },?_⟩
  unfold rewindTo
  refine if_neg ?_
  rintro ⟨hne,hnone⟩
  unfold Conversation.rewindTarget at hne hnone
  split at hne
  · exact hne rfl
  · next hone =>
      rw [if_neg hone] at hnone
      cases hget : c.chain[n - 2]? with
      | none => simp [hget] at hne
      | some node =>
          have hmem : node ∈ c.graph.chain := List.mem_of_getElem? hget
          simp [hget,find_of_mem_chain h hmem] at hnone

theorem handleApiRewind_ok (h : c.graph.Sound) (hr : handleApiRewind c turn = .ok c') :
    ¬ Blocked (c, turn) ∧ c'.graph.Sound ∧ c'.chain.length < c.chain.length := by
  unfold handleApiRewind at hr
  split at hr
  · simp at hr
  · next hpos =>
      split at hr
      · simp at hr
      · simp at hr
      · next kept hrew =>
          obtain rfl : kept = c' := by simpa using hr
          obtain ⟨hlow,hhigh,hpend,hpeer,hsound,_,hchain⟩ := Conversation.rewindBefore_ok h hrew
          refine ⟨?_,hsound,?_⟩
          · rintro (hneg | hlong | hcame | hheld)
            · exact hpos hneg
            · dsimp only at hlong
              omega
            · rw [hpeer] at hcame
              simp at hcame
            · rw [hpend] at hheld
              simp at hheld
          · rw [hchain,List.length_take]
            omega

theorem refused_iff_blocked {e : Conversation × Int} (h : e.1.graph.Sound) :
    Refused e ↔ Blocked e := by
  obtain ⟨c,turn⟩ := e
  constructor
  · rintro ⟨what,hwhat⟩
    by_contra hfree
    simp only [Blocked,not_or,Bool.not_eq_true] at hfree
    obtain ⟨hpos,hlong,hpeer,hpend⟩ := hfree
    obtain ⟨graph,hgraph⟩ := @rewindTo_rewindTarget c h turn.toNat
    have hin : ¬ (turn.toNat < 1 ∨ c.chain.length < turn.toNat) := by omega
    have hok : c.rewindBefore turn.toNat = .ok (true, ⟨graph⟩) := by
      simp only [Conversation.rewindBefore,hpeer,hpend,if_neg hin,hgraph,Bool.false_eq_true,if_false]
    simp only [handleApiRewind,if_neg hpos,hok] at hwhat
    simp at hwhat
  · intro hb
    cases hr : handleApiRewind c turn with
    | error what => exact ⟨what,hr⟩
    | ok c' => exact absurd hb (handleApiRewind_ok h hr).1

theorem serveRewind_of_refused (h : Refused (c, turn)) : serveRewind c turn = c := by
  obtain ⟨what,hwhat⟩ := h
  unfold serveRewind
  rw [hwhat]

theorem serveRewind_of_ok (h : handleApiRewind c turn = .ok c') : serveRewind c turn = c' := by
  unfold serveRewind
  rw [h]

theorem nodes_serveRewind (c : Conversation) (turn : Int) :
    (serveRewind c turn).graph.nodes = c.graph.nodes := by
  cases hr : handleApiRewind c turn with
  | error what => rw [serveRewind_of_refused ⟨what,hr⟩]
  | ok c' =>
      rw [serveRewind_of_ok hr]
      unfold handleApiRewind Conversation.rewindBefore at hr
      split at hr
      · simp at hr
      · split at hr
        · simp at hr
        · simp at hr
        · next kept hrew =>
            obtain rfl : kept = c' := by simpa using hr
            split at hrew
            · simp at hrew
            · split at hrew
              · simp at hrew
              · split at hrew
                · simp at hrew
                · split at hrew
                  · simp at hrew
                  · next graph hgraph =>
                      obtain rfl : Conversation.mk graph = kept := by simpa using hrew
                      rw [(rewindTo_eq hgraph).2]

theorem keeps_serveRewind {turn : Turn Int} (hk : turn.serve = serveRewind) : turn.Keeps where
  sound c r h := by
    rw [hk]
    cases hr : handleApiRewind c r with
    | error what => rwa [serveRewind_of_refused ⟨what,hr⟩]
    | ok c' =>
        rw [serveRewind_of_ok hr]
        exact (handleApiRewind_ok h hr).2.1
  nodes c r := by
    rw [hk]
    exact nodes_serveRewind c r

end Handler

def MessagePayload.unmarked : MessagePayload → MessagePayload
  | .assistant p =>
      .assistant { p with toolCalls := p.toolCalls.map (fun r => { r with status := .pending }) }
  | p => p

def MessageNode.unmarked (n : MessageNode) : MessageNode := { n with payload := n.payload.unmarked }

def MessageNode.link (n : MessageNode) : MessageId × MessageId := (n.parent, n.id)

def links (host : Host) (drawn : Nat) (parent : MessageId) : Nat → List (MessageId × MessageId)
  | 0 => []
  | n + 1 => (parent, host.newId drawn) :: links host (drawn + 1) (host.newId drawn) n

theorem length_links (host : Host) (drawn : Nat) (parent : MessageId) (n : Nat) :
    (links host drawn parent n).length = n := by
  induction n generalizing drawn parent with
  | zero => rfl
  | succ n ih => rw [links,List.length_cons,ih]

theorem links_add (host : Host) (drawn : Nat) (parent : MessageId) (n m : Nat) :
    links host drawn parent (n + m) =
      links host drawn parent n ++ links host (drawn + n) (lastId host drawn parent n) m := by
  induction n generalizing drawn parent with
  | zero => simp [links,lastId]
  | succ n ih =>
      have hsum : n + 1 + m = n + m + 1 := by omega
      have hdrawn : drawn + 1 + n = drawn + (n + 1) := by omega
      rw [hsum,links,ih,links,List.cons_append,lastId_succ host drawn parent,hdrawn]

theorem links_succ (host : Host) (drawn : Nat) (parent : MessageId) (n : Nat) :
    links host drawn parent (n + 1) = links host drawn parent n ++
      [(lastId host drawn parent n, host.newId (drawn + n))] := links_add host drawn parent n 1

theorem unmarked_completeRecordOf (id : String) (n : MessageNode) :
    (completeRecordOf id n).unmarked = n.unmarked := by
  have hrecs : ∀ rs : List ToolCallRecord,
      (completeRecord id rs).map (fun r => { r with status := .pending }) =
        rs.map (fun r => { r with status := .pending }) := by
    intro rs
    induction rs with
    | nil => rfl
    | cons r rs ih =>
        simp only [completeRecord]
        split
        · split <;> rfl
        · simp [ih]
  unfold completeRecordOf
  split
  · next p hp => simp [MessageNode.unmarked,MessagePayload.unmarked,hp,hrecs]
  · rfl

theorem unmarked_interruptNode (n : MessageNode) : (interruptNode n).unmarked = n.unmarked := by
  have hrecs : ∀ r : ToolCallRecord,
      (interrupt r).name = r.name ∧ (interrupt r).arguments = r.arguments := by
    intro r
    unfold interrupt
    split <;> exact ⟨rfl,rfl⟩
  unfold interruptNode
  split
  · next p hp => simp [MessageNode.unmarked,MessagePayload.unmarked,hp,hrecs,Function.comp_def]
  · rfl

theorem map_unmarked_answerIn (p : MessagePayload) (ns : List MessageNode) :
    (answerIn p ns).map MessageNode.unmarked = ns.map MessageNode.unmarked := by
  cases p with
  | tool r =>
      simp only [answerIn]
      split
      · rfl
      · rcases completeNearest_split r.toolCallId ns.reverse with hk | ⟨before,n,after,hns,hc⟩
        · rw [hk,List.reverse_reverse]
        · have hrev : ns = after.reverse ++ n :: before.reverse := by
            rw [← List.reverse_reverse ns,hns]
            simp
          rw [hc,hrev]
          simp [unmarked_completeRecordOf]
  | _ => rfl

theorem map_link_receiptNodes (host : Host) (drawn : Nat) (parent : MessageId)
    (rs : List ToolCallRecord) :
    (receiptNodes parent (fun i => host.newId (drawn + i)) rs).map MessageNode.link =
      links host drawn parent rs.length := by
  induction rs generalizing drawn parent with
  | nil => rfl
  | cons r rs ih =>
      have hshift : (fun i => host.newId (drawn + (i + 1))) =
          fun i => host.newId (drawn + 1 + i) := by
        funext i
        congr 1
        omega
      simp only [receiptNodes,List.map_cons,List.length_cons,links,hshift,ih]
      rfl

theorem map_link_unmarked (ns : List MessageNode) :
    (ns.map MessageNode.unmarked).map MessageNode.link = ns.map MessageNode.link := by
  rw [List.map_map]
  rfl

namespace Executing

variable {host : Host} {turn : Turn Int} {st st' : Executing Int} {old : List MessageNode}
variable {asked : MessageNode} {start : Nat} {root : MessageId}

structure Unbroken (host : Host) (old : List MessageNode) (asked : MessageNode) (start : Nat)
    (root : MessageId) (st : Executing Int) (new : List MessageNode) : Prop where
  chain : st.chain.map MessageNode.unmarked = (old ++ asked :: new).map MessageNode.unmarked
  links : (asked :: new).map MessageNode.link = links host start root (new.length + 1)
  drawn : st.drawn = start + (new.length + 1)

theorem Unbroken.leaf {new : List MessageNode} (h : Ready host st)
    (hu : Unbroken host old asked start root st new) :
    st.leaf = lastId host start root (new.length + 1) := by
  have hl : st.chain.map MessageNode.link = old.map MessageNode.link ++
      PuCli.links host start root (new.length + 1) := by
    rw [← map_link_unmarked,hu.chain,map_link_unmarked,List.map_append,hu.links]
  rw [links_succ,← List.append_assoc] at hl
  rcases List.eq_nil_or_concat st.chain with hnil | ⟨ns,n,hns⟩
  · rw [hnil] at hl
    simp at hl
  · rw [List.concat_eq_append] at hns
    rw [hns,List.map_append,List.map_singleton] at hl
    have hlast := List.append_inj_right' hl rfl
    rw [leaf_of_chain h hns]
    exact congrArg Prod.snd (List.cons.inj hlast).1

structure Grows (host : Host) (st st' : Executing Int) (more : List MessageNode) : Prop where
  chain : st'.chain.map MessageNode.unmarked = (st.chain ++ more).map MessageNode.unmarked
  links : more.map MessageNode.link = links host st.drawn st.leaf more.length
  drawn : st'.drawn = st.drawn + more.length

theorem Unbroken.grow {new more : List MessageNode} (h : Ready host st)
    (hu : Unbroken host old asked start root st new) (hg : Grows host st st' more) :
    Unbroken host old asked start root st' (new ++ more) where
  chain := by
    rw [hg.chain,List.map_append,hu.chain]
    simp
  links := by
    have hlen : (new ++ more).length + 1 = new.length + 1 + more.length := by
      rw [List.length_append]
      omega
    rw [← List.cons_append,List.map_append,hu.links,hg.links,hlen,
      links_add host start root (new.length + 1),hu.leaf h,hu.drawn]
  drawn := by
    rw [hg.drawn,hu.drawn,List.length_append]
    omega

theorem Grows.length {more : List MessageNode} (hg : Grows host st st' more) :
    st'.chain.length + st.drawn = st.chain.length + st'.drawn := by
  have hl := congrArg List.length hg.chain
  have hd := hg.drawn
  simp only [List.length_map,List.length_append] at hl
  omega

theorem append_grows (h : Ready host st) (msg : ChatMessage) :
    ∃ more, Grows host st (st.append host msg) more := by
  refine ⟨[⟨host.newId st.drawn, msg.timestamp, toPayload host.text msg, st.leaf⟩],?_,rfl,rfl⟩
  rw [chain_append h,List.map_append,List.map_append,map_unmarked_answerIn]

theorem sealCalls_grows (h : Ready host st) : ∃ more, Grows host st (st.sealCalls host) more := by
  rcases List.eq_nil_or_concat st.chain with hnil | ⟨ns,n,hns⟩
  · have hsame := sealCalls_of_chain_eq_nil h hnil
    refine ⟨[],?_,rfl,hsame.drawn⟩
    rw [chain,hsame.conversation,List.append_nil]
    rfl
  · rw [List.concat_eq_append] at hns
    obtain ⟨hc,hd⟩ := chain_sealCalls h hns
    have hlinks := map_link_receiptNodes host st.drawn st.leaf (unrun n.payload.records)
    have hlen := congrArg List.length hlinks
    rw [List.length_map,length_links] at hlen
    refine ⟨receiptNodes st.leaf (fun i => host.newId (st.drawn + i)) (unrun n.payload.records),?_,
      ?_,?_⟩
    · rw [hc,hns,List.map_append,List.map_cons,unmarked_interruptNode,List.append_assoc,
        List.map_append,List.singleton_append,List.map_cons]
    · rw [hlinks,hlen]
    · rw [hd,hlen]

structure Watched (host : Host) (old : List MessageNode) (asked : MessageNode) (start : Nat)
    (root : MessageId) (st : Executing Int) : Prop where
  ready : Ready host st
  sound : ∀ e ∈ st.served, e.1.graph.Sound
  course : ((∀ e ∈ st.served, Refused e) ∧ ∃ new, Unbroken host old asked start root st new) ∨
    ((∃ e ∈ st.served, ¬ Refused e) ∧ st.chain.length + start < old.length + st.drawn)

theorem Watched.grow {more : List MessageNode} (h : Watched host old asked start root st)
    (hr : Ready host st') (hg : Grows host st st' more) (hs : st'.served = st.served) :
    Watched host old asked start root st' := by
  refine ⟨hr,by rw [hs]; exact h.sound,?_⟩
  rw [hs]
  rcases h.course with ⟨hall,new,hu⟩ | ⟨hsome,hshort⟩
  · exact .inl ⟨hall,new ++ more,hu.grow h.ready hg⟩
  · have hl := hg.length
    exact .inr ⟨hsome,by omega⟩

theorem Watched.serve (hk : turn.serve = serveRewind) (h : Watched host old asked start root st)
    (request : Int) : Watched host old asked start root (st.serveOne turn request) := by
  have hserved : ∀ e ∈ (st.serveOne turn request).served,
      e ∈ st.served ∨ e = (st.conversation, request) := by
    intro e he
    simpa [serveOne] using he
  have hmem : (st.conversation, request) ∈ (st.serveOne turn request).served := by simp [serveOne]
  have hsound : ∀ e ∈ (st.serveOne turn request).served, e.1.graph.Sound := by
    intro e he
    rcases hserved e he with he | rfl
    · exact h.sound e he
    · exact h.ready.sound
  cases hr : handleApiRewind st.conversation request with
  | error what =>
      have hrefused : Refused (st.conversation, request) := ⟨what,hr⟩
      have hconv : (st.serveOne turn request).conversation = st.conversation := by
        rw [serveOne,hk]
        exact serveRewind_of_refused hrefused
      have hchain : (st.serveOne turn request).chain = st.chain := by
        rw [chain,hconv]
        rfl
      refine ⟨h.ready.of_eq hconv rfl,hsound,?_⟩
      rcases h.course with ⟨hall,new,hu⟩ | ⟨⟨e,he,hacc⟩,hshort⟩
      · refine .inl ⟨?_,new,by rw [hchain]; exact hu.chain,hu.links,hu.drawn⟩
        intro e he
        rcases hserved e he with he | rfl
        · exact hall e he
        · exact hrefused
      · exact .inr ⟨⟨e,List.mem_append_left _ he,hacc⟩,by rw [hchain]; exact hshort⟩
  | ok c' =>
      obtain ⟨hfree,_,hlen⟩ := handleApiRewind_ok h.ready.sound hr
      have hacc : ¬ Refused (st.conversation, request) := fun hrefused =>
        hfree ((refused_iff_blocked h.ready.sound).mp hrefused)
      have hconv : (st.serveOne turn request).conversation = c' := by
        rw [serveOne,hk]
        exact serveRewind_of_ok hr
      have hshorter : (st.serveOne turn request).chain.length < st.chain.length := by
        rw [chain,hconv]
        exact hlen
      refine ⟨?_,hsound,.inr ⟨⟨_,hmem,hacc⟩,?_⟩⟩
      · exact h.ready.serveOne (keeps_serveRewind hk) request
      · rcases h.course with ⟨_,new,hu⟩ | ⟨_,hshort⟩
        · have hl := congrArg List.length hu.chain
          have hd := hu.drawn
          have hsame : (st.serveOne turn request).drawn = st.drawn := rfl
          simp only [List.length_map,List.length_append,List.length_cons] at hl
          omega
        · have hsame : (st.serveOne turn request).drawn = st.drawn := rfl
          omega

theorem steady_watched (hk : turn.serve = serveRewind) :
    Steady host turn (Watched host old asked start root) where
  same h hs := by
    have hc : ∀ {st st' : Executing Int}, SameTalk st st' → st'.chain = st.chain := by
      intro st st' hs
      rw [chain,hs.conversation]
      rfl
    refine ⟨h.ready.of_sameTalk hs,by rw [hs.served]; exact h.sound,?_⟩
    rw [hs.served,hc hs,hs.drawn]
    refine h.course.imp_left ?_
    rintro ⟨hall,new,hu⟩
    exact ⟨hall,new,by rw [hc hs]; exact hu.chain,hu.links,hs.drawn.trans hu.drawn⟩
  append msg h := by
    obtain ⟨more,hg⟩ := append_grows h.ready msg
    exact h.grow (h.ready.append msg) hg rfl
  sealCalls h := by
    obtain ⟨more,hg⟩ := sealCalls_grows h.ready
    exact h.grow h.ready.sealCalls hg rfl
  serve request h := h.serve hk request

theorem watched_execute (hk : turn.serve = serveRewind) (h : Ready host st) (hs : st.served = [])
    (script : Script Int) (input : String) :
    Watched host st.chain (askedNode host input st) st.drawn st.leaf
      (execute host turn script input st).2 := by
  refine (steady_watched hk).execute script input ?_
  refine ⟨h.append _,by simp [append,hs],.inl ⟨by simp [append,hs],[],?_,rfl,rfl⟩⟩
  rw [chain_append h (question input st.peerOrigin)]
  rfl

def Together (host : Host) (input : String) (st st' : Executing Int) : Prop :=
  ∃ new, Unbroken host st.chain (askedNode host input st) st.drawn st.leaf st' new

structure TurnWhole (host : Host) (input : String) (st st' : Executing Int) : Prop where
  refused : ∀ e ∈ st'.served, Refused e
  together : Together host input st st'

theorem turnWhole_execute_iff (hk : turn.serve = serveRewind) (h : Ready host st)
    (hs : st.served = []) (script : Script Int) (input : String) :
    TurnWhole host input st (execute host turn script input st).2 ↔
      ∀ e ∈ (execute host turn script input st).2.served, Blocked e := by
  have hw := watched_execute hk h hs script input
  constructor
  · intro hwhole e he
    exact (refused_iff_blocked (hw.sound e he)).mp (hwhole.refused e he)
  · intro hb
    rcases hw.course with ⟨hall,hnew⟩ | ⟨⟨e,he,hacc⟩,_⟩
    · exact ⟨hall,hnew⟩
    · exact absurd ((refused_iff_blocked (hw.sound e he)).mpr (hb e he)) hacc

theorem together_iff_refused (hk : turn.serve = serveRewind) (h : Ready host st)
    (hs : st.served = []) (script : Script Int) (input : String) :
    Together host input st (execute host turn script input st).2 ↔
      ∀ e ∈ (execute host turn script input st).2.served, Refused e := by
  have hw := watched_execute hk h hs script input
  rcases hw.course with ⟨hall,hnew⟩ | ⟨⟨e,he,hacc⟩,hshort⟩
  · exact ⟨fun _ => hall,fun _ => hnew⟩
  · refine ⟨?_,fun hall => absurd (hall e he) hacc⟩
    rintro ⟨new,hu⟩
    have hl := congrArg List.length hu.chain
    have hd := hu.drawn
    simp only [List.length_map,List.length_append,List.length_cons] at hl
    omega

end Executing

namespace Runtime

open Executing

def racing (host : Host) (token : Bool) (script : Script Int) (input : String) (rt : Runtime) :
    Executing Int :=
  (execute host (rt.turn token serveRewind) script input rt.executing).2

theorem turn_whole_iff_every_rewind_blocked {host : Host} {rt : Runtime} {token : Bool}
    {script : Script Int} {input : String} (hbuilt : rt.current.conversation.graph.Built)
    (hids : rt.current.conversation.graph.FreshSupply (fun i => host.newId (rt.drawn + i))) :
    (TurnWhole host input rt.executing (rt.racing host token script input) ↔
        ∀ e ∈ (rt.racing host token script input).served, Blocked e) ∧
      (Together host input rt.executing (rt.racing host token script input) →
        ∀ e ∈ (rt.racing host token script input).served, Refused e) := by
  have hready : Ready host (rt.executing : Executing Int) := ⟨hbuilt.sound,hids⟩
  constructor
  · exact turnWhole_execute_iff rfl hready rfl script input
  · exact (together_iff_refused rfl hready rfl script input).mp

def asks (opening calling : List Int) : Script Int where
  rounds :=
    [{ opening := { requests := opening }
       reply := .whole { toolCalls := [bashCall "c1"] }
       steps := fun _ =>
        { before := { requests := calling }, answer := ⟨.ok "ran", ⟨.ok "", .ok ""⟩⟩ } },
     { reply := .whole { content := "done" }
       steps := fun _ => { answer := ⟨.ok "", ⟨.ok "", .ok ""⟩⟩ } }]

theorem turn_whole_rewind_while_calling :
    (servingC.racing boardSite.host true (asks [] [1]) "go").served.length = 1 ∧
      TurnWhole boardSite.host "go" servingC.executing
        (servingC.racing boardSite.host true (asks [] [1]) "go") := by
  refine ⟨by decide,?_⟩
  refine (@turn_whole_iff_every_rewind_blocked boardSite.host servingC true (asks [] [1]) "go"
    ⟨_,.empty,.refl⟩ (tally_fresh_empty 0)).1.mpr ?_
  decide

theorem rewind_before_first_call_drops_question :
    (∃ e ∈ (servingC.racing boardSite.host true (asks [1] []) "go").served, ¬ Refused e) ∧
      askedNode boardSite.host "go" (servingC.executing : Executing Int) ∉
        (servingC.racing boardSite.host true (asks [1] []) "go").chain ∧
      ¬ TurnWhole boardSite.host "go" servingC.executing
        (servingC.racing boardSite.host true (asks [1] []) "go") := by
  have haccepted : ∃ e ∈ (servingC.racing boardSite.host true (asks [1] []) "go").served,
      ¬ Refused e := by decide
  refine ⟨haccepted,by decide,?_⟩
  intro hwhole
  obtain ⟨e,he,hacc⟩ := haccepted
  exact hacc (hwhole.refused e he)

end Runtime

end PuCli
