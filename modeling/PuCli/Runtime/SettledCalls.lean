import PuCli.Runtime.BudgetOutcome
import PuCli.Runtime.Chats

namespace PuCli

open MessageGraph

variable {ρ : Type}

def MessageNode.receiptOf (n : MessageNode) : Option (String × String) :=
  match n.payload with
  | .tool p => some (p.toolCallId, p.toolName)
  | _ => none

-- The assistant node of a round and the receipts behind it, where the chain holds them.
structure Receipted (calls : List ToolCall) (place : Nat) (chain : List MessageNode) : Prop where
  called : ∃ n, chain[place]? = some n ∧ n.payload.records.map ToolCallRecord.id =
    calls.map ToolCall.id
  receipts : ((chain.drop (place + 1)).take calls.length).map MessageNode.receiptOf =
    calls.map (fun call => some (call.id, call.name))

structure SettledRound (calls : List ToolCall) (place : Nat) (chain : List MessageNode) : Prop
    extends Receipted calls place chain where
  completed : ∃ n, chain[place]? = some n ∧
    n.payload.records = calls.map (ToolCall.withStatus .completed)

section Records

variable {id : String} {front back : List ToolCallRecord} {r : ToolCallRecord}

-- A record behind another of its id is never the one a receipt completes.
theorem completeRecord_keeps (h : r.id ≠ id ∨ r.id ∈ front.map ToolCallRecord.id) :
    ∃ front' back', completeRecord id (front ++ r :: back) = front' ++ r :: back' ∧
      front'.map ToolCallRecord.id = front.map ToolCallRecord.id := by
  induction front with
  | nil =>
      have hne : r.id ≠ id := h.resolve_right (by simp)
      exact ⟨[],completeRecord id back,if_neg hne,rfl⟩
  | cons a front ih =>
      by_cases ha : a.id = id
      · refine ⟨_ :: front,back,if_pos ha,?_⟩
        rw [List.map_cons,List.map_cons]
        split <;> rfl
      · have hrest : r.id ≠ id ∨ r.id ∈ front.map ToolCallRecord.id := by
          rcases h with hne | hmem
          · exact .inl hne
          · rcases List.mem_cons.mp hmem with hsame | hmem
            · exact .inl (fun hid => ha (hsame.symm.trans hid))
            · exact .inr hmem
        obtain ⟨front',back',heq,hids⟩ := ih hrest
        refine ⟨a :: front',back',?_,?_⟩
        · rw [List.cons_append,completeRecord,if_neg ha,heq]
          rfl
        · rw [List.map_cons,List.map_cons,hids]

theorem foldl_completeRecord_keeps (ids : List String)
    (h : r.id ∈ front.map ToolCallRecord.id) :
    ∃ front' back', ids.foldl (fun rs id => completeRecord id rs) (front ++ r :: back) =
        front' ++ r :: back' ∧ front'.map ToolCallRecord.id = front.map ToolCallRecord.id := by
  induction ids generalizing front back with
  | nil => exact ⟨front,back,rfl,rfl⟩
  | cons id ids ih =>
      obtain ⟨front₁,back₁,heq,hids⟩ := @completeRecord_keeps id front back r (.inr h)
      obtain ⟨front₂,back₂,heq',hids'⟩ := @ih front₁ back₁ (hids.symm ▸ h)
      exact ⟨front₂,back₂,by rw [List.foldl_cons,heq,heq'],hids'.trans hids⟩

theorem nodup_of_split {α : Type} {l : List α}
    (h : ∀ front a back, l = front ++ a :: back → a ∉ front) : l.Nodup := by
  induction l using List.reverseRecOn with
  | nil => exact List.nodup_nil
  | append_singleton l a ih =>
      have hl : l.Nodup := by
        refine ih ?_
        intro front b back hb
        refine h front b (back ++ [a]) ?_
        rw [hb,List.append_assoc,List.cons_append]
      refine List.nodup_append.mpr ⟨hl,List.nodup_singleton a,?_⟩
      intro b hb c hc
      rw [List.mem_singleton.mp hc]
      rintro rfl
      exact h l b [] rfl hb

theorem completed_iff (calls : List ToolCall) :
    (calls.map ToolCall.id).foldl (fun rs id => completeRecord id rs)
        (calls.map ToolCall.record) = calls.map (ToolCall.withStatus .completed) ↔
      (calls.map ToolCall.id).Nodup := by
  constructor
  · intro h
    refine nodup_of_split ?_
    intro front id back hsplit hmem
    obtain ⟨before,rest,rfl,rfl,hrest⟩ := List.map_eq_append_iff.mp hsplit
    obtain ⟨call,after,rfl,rfl,rfl⟩ := List.map_eq_cons_iff.mp hrest
    have hfirst : call.record.id ∈ (before.map ToolCall.record).map ToolCallRecord.id := by
      rw [List.map_map]
      exact hmem
    obtain ⟨front',back',hfold,hids⟩ := @foldl_completeRecord_keeps
      (before.map ToolCall.record) (after.map ToolCall.record) call.record
      ((before ++ call :: after).map ToolCall.id) hfirst
    have hlen : front'.length = (before.map (ToolCall.withStatus .completed)).length := by
      have := congrArg List.length hids
      simpa using this
    rw [List.map_append,List.map_cons,hfold,List.map_append,List.map_cons] at h
    have hsame := (List.append_inj h hlen).2
    have hstatus := congrArg ToolCallRecord.status (List.cons.inj hsame).1
    cases hstatus
  · intro hd
    have hfold := @foldl_completeRecord [] calls [] (by simpa using hd)
    simpa using hfold

theorem ids_foldl_completeRecord (ids : List String) (rs : List ToolCallRecord) :
    (ids.foldl (fun rs id => completeRecord id rs) rs).map ToolCallRecord.id =
      rs.map ToolCallRecord.id := by
  induction ids generalizing rs with
  | nil => rfl
  | cons id ids ih => rw [List.foldl_cons,ih,ids_completeRecord]

end Records

namespace Executing

variable {host : Host} {turn : Turn ρ} {st st' : Executing ρ} {round : Round ρ}
variable {rounds : List (Round ρ)} {budget : Budgeted} {reply : ChatResult}

theorem length_written (drawn : Nat) (parent : MessageId) (msgs : List ChatMessage) :
    (written host drawn parent msgs).length = msgs.length := by
  induction msgs generalizing drawn parent with
  | nil => rfl
  | cons msg msgs ih => rw [written,List.length_cons,List.length_cons,ih]

theorem receiptOf_written (drawn : Nat) (parent : MessageId) (log : List ToolRun)
    (later : List ChatMessage) :
    ((written host drawn parent (log.map ToolRun.message ++ later)).take log.length).map
        MessageNode.receiptOf = log.map (fun run => some (run.call.id, run.call.name)) := by
  induction log generalizing drawn parent with
  | nil => rfl
  | cons run log ih =>
      rw [List.map_cons,List.cons_append,written,List.length_cons,List.take_succ_cons,List.map_cons,
        ih]
      rfl

-- A round whose token is not set when it ends ran every one of its calls.
theorem ran_all (h : (runTools host turn round reply st).stopAsked turn = false) :
    (roundFlags turn round (calledAs host reply st).length st).1 =
      (calledAs host reply st).length := by
  by_contra hne
  have hlt : (roundFlags turn round (calledAs host reply st).length st).1 <
      (calledAs host reply st).length := lt_of_le_of_ne (Flags.ran_le _ _ _) hne
  have hran := Flags.stopped_of_ran_lt _ _ _ hlt
  have hclosed := Flags.stopped_pass round.closing hran
  have hsettled := Flags.stopped_pass round.settling hclosed
  rw [stopAsked,runTools_eq,cancelled_sealIfStopped,(paces_pass turn round.settling _).cancelled,
    cancelled_noted] at h
  cases hsettled.symm.trans h

theorem roundNodes_ran (hne : reply.toolCalls ≠ [])
    (h : (runTools host turn round reply st).stopAsked turn = false) :
    roundNodes host turn round reply st =
      ranRound host turn.token st.drawn (callNode host reply st)
        (logOf host turn ⟨st.userNote, st.peerOrigin⟩ round.steps (calledAs host reply st))
        (roundNote turn round (calledAs host reply st).length st) := by
  have hall := ran_all h
  have hpos := @length_calledAs_pos ρ host st reply hne
  have hlog : roundLog host turn round (calledAs host reply st) st =
      logOf host turn ⟨st.userNote, st.peerOrigin⟩ round.steps (calledAs host reply st) := by
    rw [roundLog,hall]
    exact List.take_of_length_le (length_logOf _ _ _ _ _).le
  rw [roundNodes,if_neg (by omega),hlog]

theorem settled_iff_ranRound (init : List MessageNode) (reply : ChatResult) (st : Executing ρ)
    (ctx : ToolContext) (steps : Nat → CallStep ρ) (note : String) (more : List MessageNode) :
    let calls := calledAs host reply st
    let chain := init ++ ranRound host turn.token st.drawn (callNode host reply st)
      (logOf host turn ctx steps calls) note ++ more
    Receipted calls init.length chain ∧
      (SettledRound calls init.length chain ↔ (calls.map ToolCall.id).Nodup) := by
  intro calls chain
  have hlen : (logOf host turn ctx steps calls).length = calls.length := length_logOf _ _ _ _ _
  have hcalls : (logOf host turn ctx steps calls).map ToolRun.call = calls := map_call_logOf _ _ _ _ _
  have hids : (logOf host turn ctx steps calls).map ToolRun.id = calls.map ToolCall.id := by
    rw [← hcalls,List.map_map,hcalls]
    rfl
  have hnode : chain[init.length]? =
      some (completeAll (calls.map ToolCall.id) (callNode host reply st)) := by
    change (init ++ ranRound host turn.token st.drawn (callNode host reply st)
      (logOf host turn ctx steps calls) note ++ more)[init.length]? = _
    rw [List.append_assoc,ranRound,hids,List.cons_append,List.getElem?_append_right (Nat.le_refl _),
      Nat.sub_self]
    rfl
  have hrecords : (completeAll (calls.map ToolCall.id) (callNode host reply st)).payload.records =
      (calls.map ToolCall.id).foldl (fun rs id => completeRecord id rs)
        (calls.map ToolCall.record) := records_completeAll _ _
  have hreceipted : Receipted calls init.length chain := by
    refine ⟨⟨_,hnode,?_⟩,?_⟩
    · rw [hrecords,ids_foldl_completeRecord,List.map_map]
      rfl
    · have hdrop : chain.drop (init.length + 1) = written host (st.drawn + 1)
          (callNode host reply st).id ((logOf host turn ctx steps calls).map ToolRun.message ++
            noteMessages turn.token note) ++ more := by
        change (init ++ ranRound host turn.token st.drawn (callNode host reply st)
          (logOf host turn ctx steps calls) note ++ more).drop _ = _
        rw [List.append_assoc,List.drop_append,List.drop_eq_nil_of_le (Nat.le_succ _)]
        simp [ranRound]
      have hwritten := @receiptOf_written host (st.drawn + 1) (callNode host reply st).id
        (logOf host turn ctx steps calls) (noteMessages turn.token note)
      rw [hlen] at hwritten
      rw [hdrop,List.take_append_of_le_length ?_,hwritten,← hcalls,List.map_map,hcalls]
      · rfl
      · rw [length_written,List.length_append,List.length_map,hlen]
        exact Nat.le_add_right _ _
  refine ⟨hreceipted,?_⟩
  rw [← completed_iff]
  constructor
  · intro h
    obtain ⟨n,hn,hcompleted⟩ := h.completed
    obtain rfl := Option.some.inj (hnode.symm.trans hn)
    exact hrecords.symm.trans hcompleted
  · intro h
    exact ⟨hreceipted,_,hnode,hrecords.trans h⟩

theorem chain_grows (hi : turn.Idle) (rounds : List (Round ρ)) (budget : Budgeted)
    (h : Ready host st) (he : EndsPlain st.chain) :
    ∃ more, (runToolLoop host turn rounds budget st).2.chain = st.chain ++ more := by
  induction rounds generalizing budget st with
  | nil =>
      refine ⟨[],?_⟩
      simp only [runToolLoop]
      split <;> exact (List.append_nil _).symm
  | cons round rounds ih =>
      have hplain := plain_wrapUpNodes host (checkBudget turn budget st) st
      cases looped host turn round rounds budget st with
      | spent hover heq =>
          rw [heq]
          exact ⟨[],(List.append_nil _).symm⟩
      | threw hover hc heq =>
          rw [heq]
          exact ⟨_,(opened_chain h (checkBudget turn budget st) (quiet_of_idle hi _)).1⟩
      | failed hover hc heq =>
          rw [heq]
          exact ⟨_,(chain_asked h hc (quiet_of_idle hi _)).1⟩
      | stopped hover hc heq =>
          obtain ⟨hc₁,-,hready⟩ := chain_asked h hc (quiet_of_idle hi _)
          obtain ⟨init,n,hsplit,hnil⟩ := he.append (fun n hn => (hplain n hn).records)
          rw [heq]
          exact ⟨_,(sealCalls_silent hready (hc₁.trans hsplit) hnil).1.trans hc₁⟩
      | abandoned hover hc heq =>
          rw [heq]
          exact ⟨_,(chain_asked h hc (quiet_of_idle hi _)).1⟩
      | answered hover hc hempty heq =>
          rw [heq]
          exact ⟨_,(chain_asked h hc (quiet_of_idle hi _)).1⟩
      | @called reply st₁ hover hc hempty heq =>
          obtain ⟨hc₁,-,hready⟩ := chain_asked h hc (quiet_of_idle hi _)
          have hne : reply.toolCalls ≠ [] := by simpa using hempty
          obtain ⟨hchain,hready'⟩ := runTools_chain hready hne
            (quiet_of_idle hi (runTools host turn round reply st₁))
          obtain ⟨more,hmore⟩ := ih _ hready' (by rw [hchain]; exact endsPlain_roundNodes hne _)
          rw [heq]
          exact ⟨_,by rw [hmore,hchain,hc₁,List.append_assoc,List.append_assoc]⟩

-- What the executor holds when Chat has returned this reply.
def answeredBy (turn : Turn ρ) (chat : Executing ρ × Round ρ) (reply : ChatResult) :
    Executing ρ :=
  { heard turn chat.2 chat.1 with result := (heard turn chat.2 chat.1).result.noteReply reply }

def afterRound (host : Host) (turn : Turn ρ) (chat : Executing ρ × Round ρ) (reply : ChatResult) :
    Executing ρ := runTools host turn chat.2 reply (answeredBy turn chat reply)

theorem answeredBy_eq (hc : callProvider host turn round st = .ok (.answered reply, st')) :
    st' = answeredBy turn (st, round) reply := by
  obtain ⟨other,_,hsame,rfl⟩ | ⟨_,_,⟨hcalled,_⟩ | ⟨hcalled,_⟩ | ⟨hcalled,_⟩⟩ := callProvider_cases hc
  · cases hsame
    rfl
  · cases hcalled
  · cases hcalled
  · cases hcalled

structure ChatSettled (host : Host) (turn : Turn ρ) (chat : Executing ρ × Round ρ)
    (reply : ChatResult) (chain : List MessageNode) : Prop where
  receipted : Receipted (calledAs host reply chat.1) chat.1.chain.length chain
  settled : SettledRound (calledAs host reply chat.1) chat.1.chain.length chain ↔
    ((calledAs host reply chat.1).map ToolCall.id).Nodup

theorem chatSettled_asked (hi : turn.Idle) (h : Ready host st)
    (hc : callProvider host turn round (asking host turn budget round st) =
      .ok (.answered reply, st')) (hne : reply.toolCalls ≠ [])
    (hstop : (runTools host turn round reply st').stopAsked turn = false)
    (more : List MessageNode) :
    ChatSettled host turn (asking host turn budget round st, round) reply
      ((runTools host turn round reply st').chain ++ more) := by
  obtain ⟨hlead,hopen⟩ := opened_chain h (checkBudget turn budget st) (quiet_of_idle hi _)
  obtain ⟨hchain₁,-,hready⟩ := chain_asked h hc (quiet_of_idle hi _)
  have hplace : st'.chain = (asking host turn budget round st).chain := hchain₁.trans hlead.symm
  have hcalled : calledAs host reply (asking host turn budget round st) = calledAs host reply st' := by
    rw [calledAs,calledAs,answeredBy_eq hc,answeredBy,(heard_only turn round _).1]
  obtain ⟨hchain,-⟩ := runTools_chain hready hne
    (quiet_of_idle hi (runTools host turn round reply st'))
  rw [hchain,roundNodes_ran hne hstop]
  have hround := @settled_iff_ranRound ρ host turn st'.chain reply st'
    ⟨st'.userNote, st'.peerOrigin⟩ round.steps
    (roundNote turn round (calledAs host reply st').length st') more
  constructor
  · rw [hcalled,← hplace]
    exact hround.1
  · rw [hcalled,← hplace]
    exact hround.2

theorem chatSettled_runToolLoop (hi : turn.Idle) (rounds : List (Round ρ)) (budget : Budgeted)
    (h : Ready host st) :
    ∀ chat ∈ chatted host turn rounds budget st, ∀ reply, chat.2.reply.chat = .ok reply →
      reply.toolCalls ≠ [] → (afterRound host turn chat reply).stopAsked turn = false →
      ChatSettled host turn chat reply (runToolLoop host turn rounds budget st).2.chain := by
  induction rounds generalizing budget st with
  | nil =>
      intro chat hchat
      cases hchat
  | cons round rounds ih =>
      have hlast : (∀ chat ∈ chatted host turn (round :: rounds) budget st, chat.2.calls = []) →
          ∀ chat ∈ chatted host turn (round :: rounds) budget st,
          ∀ reply, chat.2.reply.chat = .ok reply → reply.toolCalls ≠ [] →
            (afterRound host turn chat reply).stopAsked turn = false →
            ChatSettled host turn chat reply
              (runToolLoop host turn (round :: rounds) budget st).2.chain := by
        intro hnone chat hchat reply hreply hne
        exact absurd ((calls_eq hreply).symm.trans (hnone chat hchat)) hne
      have hunanswered : ∀ {called st₁}, ¬ ((checkBudget turn budget st).reached ∧
          (checkBudget turn budget st).wrapUpAsked) →
          callProvider host turn round (asking host turn budget round st) = .ok (called, st₁) →
          (∀ reply, called ≠ .answered reply) →
            ∀ chat ∈ chatted host turn (round :: rounds) budget st, chat.2.calls = [] := by
        intro called st₁ hover hc hf
        rw [chatted_unanswered hover hc hf]
        simpa using calls_of_failed hc hf
      cases looped host turn round rounds budget st with
      | spent hover heq =>
          refine hlast ?_
          rw [chatted_spent hover]
          simp
      | threw hover hc heq =>
          refine hlast ?_
          rw [chatted_threw hover hc]
          simp
      | failed hover hc heq => exact hlast (hunanswered hover hc (by simp))
      | stopped hover hc heq => exact hlast (hunanswered hover hc (by simp))
      | abandoned hover hc heq => exact hlast (hunanswered hover hc (by simp))
      | answered hover hc hempty heq =>
          refine hlast ?_
          rw [chatted_answered hover hc hempty]
          have hcalls := calls_eq (answered_reply hc)
          simpa [hcalls] using hempty
      | @called reply st₁ hover hc hempty heq =>
          obtain ⟨-,-,hready⟩ := chain_asked h hc (quiet_of_idle hi _)
          have hne : reply.toolCalls ≠ [] := by simpa using hempty
          obtain ⟨hchain,hready'⟩ := runTools_chain hready hne
            (quiet_of_idle hi (runTools host turn round reply st₁))
          rw [chatted_called hover hc hempty,heq]
          intro chat hchat
          rcases List.mem_cons.mp hchat with rfl | hchat
          · intro other hother _ hstop
            have hsame : reply = other :=
              Except.ok.inj ((answered_reply hc).symm.trans hother)
            subst hsame
            have hends : EndsPlain (runTools host turn round reply st₁).chain := by
              rw [hchain]
              exact endsPlain_roundNodes hne _
            obtain ⟨more,hmore⟩ := @chain_grows ρ host turn _ hi rounds
              ⟨(checkBudget turn budget st).reached,
                budget.wrapUpAsked || (checkBudget turn budget st).reached⟩ hready' hends
            rw [hmore]
            rw [afterRound,← answeredBy_eq hc] at hstop
            exact chatSettled_asked hi h hc hne hstop more
          · exact ih _ hready' chat hchat

theorem calls_settled_iff {host : Host} {turn : Turn Empty} {st : Executing Empty}
    (h : Ready host st) (rounds : List (Round Empty)) :
    ∀ chat ∈ chatted host turn rounds {} st, ∀ reply, chat.2.reply.chat = .ok reply →
      reply.toolCalls ≠ [] → (afterRound host turn chat reply).stopAsked turn = false →
      let calls := calledAs host reply chat.1
      let chain := (runToolLoop host turn rounds {} st).2.chain
      Receipted calls chat.1.chain.length chain ∧
        (SettledRound calls chat.1.chain.length chain ↔ (calls.map ToolCall.id).Nodup) := by
  intro chat hchat reply hreply hne hstop
  have hidle : turn.Idle := fun _ r => r.elim
  obtain ⟨hreceipted,hsettled⟩ :=
    chatSettled_runToolLoop hidle rounds {} h chat hchat reply hreply hne hstop
  exact ⟨hreceipted,hsettled⟩

def manyCalls : Turn Empty := Runtime.servingC.turn true (fun c _ => c)

def lookedOnce : ChatResult := { toolCalls := [Runtime.bashCall "c1", Runtime.bashCall "c2"] }

def lookedTwice : ChatResult := { toolCalls := [Runtime.bashCall "c1", Runtime.bashCall "c1"] }

def replied (reply : ChatResult) : Round Empty where
  reply := .whole reply
  steps _ := { answer := ⟨.ok "ran", ⟨.ok "", .ok ""⟩⟩ }

def started : Executing Empty := Runtime.servingC.asked Runtime.boardSite.host "go"

def firstChat (reply : ChatResult) : Executing Empty × Round Empty :=
  (asking Runtime.boardSite.host manyCalls {} (replied reply) started, replied reply)

def played (reply : ChatResult) : List MessageNode :=
  (runToolLoop Runtime.boardSite.host manyCalls [replied reply, wrappedUp] {} started).2.chain

theorem ready_started : Ready Runtime.boardSite.host started := by
  have hempty : Ready Runtime.boardSite.host (Runtime.servingC.executing : Executing Empty) :=
    ⟨sound_empty,Runtime.tally_fresh_empty 0⟩
  exact hempty.append _

theorem calls_settled_two_ids :
    let calls := calledAs Runtime.boardSite.host lookedOnce (firstChat lookedOnce).1
    Receipted calls (firstChat lookedOnce).1.chain.length (played lookedOnce) ∧
      (SettledRound calls (firstChat lookedOnce).1.chain.length (played lookedOnce) ↔
        (calls.map ToolCall.id).Nodup) :=
  calls_settled_iff ready_started [replied lookedOnce, wrappedUp] (firstChat lookedOnce)
    List.mem_cons_self lookedOnce rfl (by decide) (by decide)

theorem repeated_id_leaves_call_pending :
    firstChat lookedTwice ∈ chatted Runtime.boardSite.host manyCalls
        [replied lookedTwice, wrappedUp] {} started ∧
      (afterRound Runtime.boardSite.host manyCalls (firstChat lookedTwice) lookedTwice).stopAsked
        manyCalls = false ∧
      ¬ SettledRound (calledAs Runtime.boardSite.host lookedTwice (firstChat lookedTwice).1)
        (firstChat lookedTwice).1.chain.length (played lookedTwice) := by
  refine ⟨List.mem_cons_self,by decide,?_⟩
  intro h
  obtain ⟨n,hn,hrecords⟩ := h.completed
  have hplayed : ((played lookedTwice)[1]?).map (fun n => n.payload.records.map
      ToolCallRecord.status) = some [.completed, .pending] := by decide
  have hplace : (firstChat lookedTwice).1.chain.length = 1 := by decide
  rw [hplace] at hn
  rw [hn,Option.map_some,hrecords] at hplayed
  exact absurd hplayed (by decide)

end Executing

end PuCli
