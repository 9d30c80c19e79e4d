import PuCli.Runtime.RoundBlocks
import PuCli.Runtime.PeerConfinement

namespace PuCli

open MessageGraph

variable {ρ : Type}

structure RanOut where
  ran : Nat
  cancelled : Bool

namespace Round

def opened (token cancelled : Bool) (round : Round ρ) : Bool :=
  (((⟨cancelled, ""⟩ : Flags).pass token round.opening).pass token round.calling).cancelled

def ranOut (token cancelled : Bool) (round : Round ρ) : RanOut :=
  let ran := Flags.ran token round.steps round.calls.length ⟨round.opened token cancelled, ""⟩
  ⟨ran.1, ((ran.2.pass token round.closing).pass token round.settling).cancelled⟩

def cutBefore (token cancelled : Bool) (round : Round ρ) (i : Nat) : Bool :=
  token && (cancelled || round.opening.cancels || round.calling.cancels ||
    (List.range (i + 1)).any (fun j => (round.steps j).before.cancels))

def noteLeft (round : Round ρ) : String :=
  round.closing.notes.getLast?.getD ((round.steps 0).before.notes.getLast?.getD "")

def Whole (token cancelled : Bool) (round : Round ρ) : Prop :=
  round.cutBefore token cancelled (round.calls.length - 1) = false ∨
    (round.cutBefore token cancelled 0 = true ∧ round.noteLeft = "")

instance (token cancelled : Bool) (round : Round ρ) : Decidable (round.Whole token cancelled) :=
  inferInstanceAs (Decidable (_ ∨ _))

end Round

def toolRounds (token : Bool) (limit : Int) :
    List (Round ρ) → Budgeted → Bool → Nat → List (Bool × Round ρ)
  | [], _, _, _ => []
  | round :: rounds, budget, cancelled, count =>
      let reached := budget.reached || decide (limit ≤ count)
      if (reached ∧ budget.wrapUpAsked) ∨ round.calls.isEmpty then []
      else
        let out := round.ranOut token cancelled
        (cancelled, round) :: toolRounds token limit rounds
          ⟨reached, budget.wrapUpAsked || reached⟩ out.cancelled (count + out.ran)

structure Round.Named (round : Round ρ) : Prop where
  distinct : (round.calls.map ToolCall.id).Nodup
  named : ∀ call ∈ round.calls, call.id ≠ ""

namespace Flags

def cut (token cancelled : Bool) (steps : Nat → CallStep ρ) (i : Nat) : Bool :=
  token && (cancelled || (List.range (i + 1)).any (fun j => (steps j).before.cancels))

theorem cut_succ (token : Bool) (steps : Nat → CallStep ρ) (f : Flags) (i : Nat) :
    cut token f.cancelled steps (i + 1) =
      cut token (f.pass token (steps 0).before).cancelled (fun j => steps (j + 1)) i := by
  unfold cut
  rw [List.range_succ_eq_map]
  cases token <;> simp [pass,Function.comp_def,Bool.or_assoc]

theorem stopped_pass_eq (token : Bool) (steps : Nat → CallStep ρ) (f : Flags) :
    (f.pass token (steps 0).before).stopped token = cut token f.cancelled steps 0 := by
  cases token <;> simp [stopped,pass,cut]

theorem cut_mono {token cancelled : Bool} {steps : Nat → CallStep ρ} {i j : Nat} (hij : i ≤ j)
    (h : cut token cancelled steps i = true) : cut token cancelled steps j = true := by
  simp only [cut,Bool.and_eq_true,Bool.or_eq_true,List.any_eq_true,List.mem_range] at h ⊢
  refine ⟨h.1,h.2.imp_right ?_⟩
  rintro ⟨x,hx,hc⟩
  exact ⟨x,by omega,hc⟩

theorem ran_all_iff (token : Bool) (steps : Nat → CallStep ρ) (n : Nat) (f : Flags) :
    (ran token steps (n + 1) f).1 = n + 1 ↔ cut token f.cancelled steps n = false := by
  induction n generalizing steps f with
  | zero =>
      rw [← stopped_pass_eq]
      simp only [ran]
      split
      · next hs => simp [hs]
      · next hs => simpa using hs
  | succ n ih =>
      rw [ran,cut_succ,← ih]
      dsimp only
      split
      · next hs =>
          rw [stopped_pass_eq] at hs
          have hcut := cut_mono (Nat.zero_le (n + 1)) hs
          rw [cut_succ] at hcut
          simp [ih,hcut]
      · exact Nat.add_right_cancel_iff

theorem ran_none_iff (token : Bool) (steps : Nat → CallStep ρ) (n : Nat) (f : Flags) :
    (ran token steps (n + 1) f).1 = 0 ↔ cut token f.cancelled steps 0 = true := by
  rw [← stopped_pass_eq]
  simp only [ran]
  split
  · next hs => simp [hs]
  · next hs => simp [hs]

theorem userNote_ran_none {token : Bool} {steps : Nat → CallStep ρ} {n : Nat} {f : Flags}
    (h : (ran token steps (n + 1) f).1 = 0) :
    (ran token steps (n + 1) f).2.userNote = (steps 0).before.notes.getLast?.getD f.userNote := by
  simp only [ran] at h ⊢
  split at h
  · next hs =>
      rw [if_pos hs]
      rfl
  · simp at h

end Flags

theorem records_completeAll (ids : List String) (n : MessageNode) :
    (completeAll ids n).payload.records =
      ids.foldl (fun rs id => completeRecord id rs) n.payload.records := by
  induction ids generalizing n with
  | nil => rfl
  | cons id ids ih =>
      change (completeAll ids (completeRecordOf id n)).payload.records = _
      rw [ih,records_completeRecordOf,List.foldl_cons]

theorem completeRecord_first {done rest : List ToolCallRecord} {c : ToolCall}
    (h : c.id ∉ done.map ToolCallRecord.id) :
    completeRecord c.id (done ++ c.record :: rest) =
      done ++ c.withStatus .completed :: rest := by
  induction done with
  | nil => simp [completeRecord,ToolCall.record,ToolCall.withStatus]
  | cons r done ih =>
      rw [List.map_cons,List.mem_cons,not_or] at h
      have hne : r.id ≠ c.id := fun he => h.1 he.symm
      simp [completeRecord,hne,ih h.2]

theorem foldl_completeRecord {done : List ToolCallRecord} {cs rest : List ToolCall}
    (hd : (done.map ToolCallRecord.id ++ cs.map ToolCall.id).Nodup) :
    (cs.map ToolCall.id).foldl (fun rs id => completeRecord id rs)
        (done ++ (cs.map ToolCall.record ++ rest.map ToolCall.record)) =
      done ++ (cs.map (ToolCall.withStatus .completed) ++ rest.map ToolCall.record) := by
  induction cs generalizing done with
  | nil => rfl
  | cons c cs ih =>
      have hnot : c.id ∉ done.map ToolCallRecord.id := by
        intro hm
        exact (List.nodup_append.mp hd).2.2 _ hm c.id (by simp) rfl
      have hnext : ((done ++ [c.withStatus .completed]).map ToolCallRecord.id ++
          cs.map ToolCall.id).Nodup := by
        simpa [ToolCall.withStatus] using hd
      simp only [List.map_cons,List.foldl_cons,List.cons_append]
      rw [completeRecord_first hnot]
      simpa using ih hnext

theorem completeAll_answer (ids : List String) {n : MessageNode} (h : n.answer = none) :
    (completeAll ids n).answer = none := by
  induction ids generalizing n with
  | nil => exact h
  | cons id ids ih =>
      refine ih ?_
      change (completeRecordOf id n).answer = none
      unfold completeRecordOf
      split
      · rfl
      · exact h

theorem interruptNode_answer {n : MessageNode} (h : n.answer = none) :
    (interruptNode n).answer = none := by
  unfold interruptNode
  split
  · rfl
  · exact h

theorem answers_receiptNodes (parent : MessageId) (newId : Nat → MessageId)
    (rs : List ToolCallRecord) :
    answers (receiptNodes parent newId rs) = rs.map (fun r => (r.id, kCancelledReceipt)) := by
  induction rs generalizing parent newId with
  | nil => rfl
  | cons r rs ih =>
      have hrest := ih (newId 0) (fun i => newId (i + 1))
      simp only [answers] at hrest ⊢
      simp [receiptNodes,MessageNode.answer,cancelledReceipt,hrest]

theorem records_receiptNodes (parent : MessageId) (newId : Nat → MessageId)
    (rs : List ToolCallRecord) :
    ∀ n ∈ receiptNodes parent newId rs, n.payload.records = [] := by
  induction rs generalizing parent newId with
  | nil => simp [receiptNodes]
  | cons r rs ih =>
      intro n hn
      rcases List.mem_cons.mp hn with rfl | hn
      · rfl
      · exact ih _ _ n hn

theorem unrun_records (calls : List ToolCall) :
    unrun (calls.map ToolCall.record) = calls.map (ToolCall.withStatus .interrupted) := by
  induction calls with
  | nil => rfl
  | cons c calls ih =>
      have hc : unrun ((c :: calls).map ToolCall.record) =
          c.withStatus .interrupted :: unrun (calls.map ToolCall.record) := by
        simp [unrun,ToolCall.record,interrupt,ToolCall.withStatus]
      rw [hc,ih,List.map_cons]

theorem answers_written_log (host : Host) (drawn : Nat) (parent : MessageId)
    (log : List ToolRun) (token : Bool) (note : String) :
    answers (written host drawn parent (log.map ToolRun.message ++ noteMessages token note)) =
      log.map (fun run => (run.id, run.result)) := by
  induction log generalizing drawn parent with
  | nil =>
      unfold noteMessages
      split
      · simp [written,answers,MessageNode.answer,toPayload,Executing.noteMessage]
      · rfl
  | cons run log ih =>
      have hrest := ih (drawn + 1) (host.newId drawn)
      simp only [answers] at hrest ⊢
      simp [written,MessageNode.answer,toPayload,ToolRun.message,Executing.receipt,hrest,ToolRun.id]

namespace Executing

variable {host : Host} {turn : Turn ρ} {st st' : Executing ρ} {round : Round ρ}
variable {reply : ChatResult}

theorem assignIds_of_named {next : Nat} {calls : List ToolCall} (h : ∀ call ∈ calls, call.id ≠ "") :
    (assignIds host next calls).1 = calls := by
  induction calls generalizing next with
  | nil => rfl
  | cons call calls ih =>
      have hid := h call (by simp)
      simp [assignIds,hid,ih (fun c hc => h c (List.mem_cons_of_mem _ hc))]

theorem calls_eq (hr : round.reply.chat = .ok reply) : round.calls = reply.toolCalls := by
  simp [Round.calls,hr]

theorem calledAs_eq (hr : round.reply.chat = .ok reply) (hn : round.Named) :
    calledAs host reply st = round.calls := by
  rw [calls_eq hr]
  exact assignIds_of_named (by rw [← calls_eq hr]; exact hn.named)

def blockOf (host : Host) (turn : Turn ρ) (round : Round ρ) (reply : ChatResult)
    (lead : List MessageNode) (st : Executing ρ) : Block where
  lead := lead
  node :=
    if (roundFlags turn round (calledAs host reply st).length st).1 = 0 ∧
        roundNote turn round (calledAs host reply st).length st = "" then
      interruptNode (callNode host reply st)
    else completeAll ((roundLog host turn round (calledAs host reply st) st).map ToolRun.id)
      (callNode host reply st)
  after := (roundNodes host turn round reply st).tail
  calls := calledAs host reply st
  log := roundLog host turn round (calledAs host reply st) st

theorem nodes_blockOf (lead : List MessageNode) :
    (blockOf host turn round reply lead st).nodes =
      lead ++ roundNodes host turn round reply st := by
  unfold Block.nodes blockOf roundNodes
  split <;> rfl

theorem map_call_roundLog (calls : List ToolCall) :
    (roundLog host turn round calls st).map ToolRun.call =
      calls.take (roundLog host turn round calls st).length := by
  rw [length_roundLog,roundLog,List.map_take,map_call_logOf]

theorem cancelled_blockOf {lead : List MessageNode}
    (hz : (roundFlags turn round (calledAs host reply st).length st).1 = 0 ∧
      roundNote turn round (calledAs host reply st).length st = "") :
    (blockOf host turn round reply lead st).Cancelled ∧
      (blockOf host turn round reply lead st).after =
        receiptNodes (callNode host reply st).id (fun i => host.newId (st.drawn + 1 + i))
          ((calledAs host reply st).map (ToolCall.withStatus .interrupted)) := by
  have hafter : (blockOf host turn round reply lead st).after =
      receiptNodes (callNode host reply st).id (fun i => host.newId (st.drawn + 1 + i))
        ((calledAs host reply st).map (ToolCall.withStatus .interrupted)) := by
    simp only [blockOf,roundNodes,hz,and_self,if_true]
    rw [← unrun_records]
    rfl
  refine ⟨⟨?_,?_,?_⟩,hafter⟩
  · exact List.eq_nil_of_length_eq_zero
      ((length_roundLog host turn round (calledAs host reply st) st).trans hz.1)
  · simp only [blockOf,hz,and_self,if_true,records_interruptNode]
    change ((calledAs host reply st).map ToolCall.record).map interrupt = _
    rw [List.map_map]
    rfl
  · rw [hafter,answers_receiptNodes,List.map_map]
    rfl

theorem ran_blockOf {lead : List MessageNode}
    (hz : ¬ ((roundFlags turn round (calledAs host reply st).length st).1 = 0 ∧
      roundNote turn round (calledAs host reply st).length st = ""))
    (hd : ((calledAs host reply st).map ToolCall.id).Nodup) :
    (blockOf host turn round reply lead st).Ran ∧
      (blockOf host turn round reply lead st).after =
        written host (st.drawn + 1) (callNode host reply st).id
          ((roundLog host turn round (calledAs host reply st) st).map ToolRun.message ++
            noteMessages turn.token (roundNote turn round (calledAs host reply st).length st)) := by
  have hafter : (blockOf host turn round reply lead st).after =
      written host (st.drawn + 1) (callNode host reply st).id
        ((roundLog host turn round (calledAs host reply st) st).map ToolRun.message ++
          noteMessages turn.token (roundNote turn round (calledAs host reply st).length st)) := by
    simp only [blockOf,roundNodes,if_neg hz]
    rfl
  refine ⟨⟨map_call_roundLog _,?_,?_⟩,hafter⟩
  · have hids : (roundLog host turn round (calledAs host reply st) st).map ToolRun.id =
        ((calledAs host reply st).take
          (roundLog host turn round (calledAs host reply st) st).length).map ToolCall.id := by
      rw [← map_call_roundLog,List.map_map]
      rfl
    have hsplit : (callNode host reply st).payload.records =
        [] ++ (((calledAs host reply st).take
          (roundLog host turn round (calledAs host reply st) st).length).map ToolCall.record ++
          ((calledAs host reply st).drop
            (roundLog host turn round (calledAs host reply st) st).length).map ToolCall.record) := by
      rw [List.nil_append,← List.map_append,List.take_append_drop]
      rfl
    have hnd : (([] : List ToolCallRecord).map ToolCallRecord.id ++ ((calledAs host reply st).take
        (roundLog host turn round (calledAs host reply st) st).length).map ToolCall.id).Nodup := by
      rw [List.map_nil,List.nil_append,List.map_take]
      exact hd.sublist (List.take_sublist _ _)
    simp only [blockOf,if_neg hz]
    rw [records_completeAll,hids,hsplit,foldl_completeRecord hnd,List.nil_append]
  · rw [hafter,answers_written_log]
    rfl

theorem cut_opened (turn : Turn ρ) (round : Round ρ) (cancelled : Bool) (i : Nat) :
    Flags.cut turn.token (round.opened turn.token cancelled) round.steps i =
      round.cutBefore turn.token cancelled i := by
  unfold Flags.cut Round.cutBefore Round.opened
  cases turn.token <;> simp [Flags.pass]

section Block

variable {lead : List MessageNode} {cancelled : Bool}

theorem fair_blockOf (hr : round.reply.chat = .ok reply) (hn : round.Named)
    (hne : reply.toolCalls ≠ []) (hl : ∀ n ∈ lead, n.Plain) :
    (blockOf host turn round reply lead st).Fair := by
  have hd : ((calledAs host reply st).map ToolCall.id).Nodup := by
    rw [calledAs_eq hr hn]
    exact hn.distinct
  have hnode : (blockOf host turn round reply lead st).node.answer = none := by
    unfold blockOf
    dsimp only
    split
    · exact interruptNode_answer rfl
    · exact completeAll_answer _ rfl
  by_cases hz : (roundFlags turn round (calledAs host reply st).length st).1 = 0 ∧
      roundNote turn round (calledAs host reply st).length st = ""
  · obtain ⟨hshape,hafter⟩ := @cancelled_blockOf ρ host turn st round reply lead hz
    refine ⟨hl,hnode,?_,?_,hd,.inl hshape⟩
    · rw [hafter]
      exact records_receiptNodes _ _ _
    · intro hnil
      have hans := hshape.answers
      rw [hnil] at hans
      have hempty : calledAs host reply st = [] := List.map_eq_nil_iff.mp hans.symm
      have hpos := @length_calledAs_pos ρ host st reply hne
      rw [hempty] at hpos
      exact Nat.not_lt_zero _ hpos
  · obtain ⟨hshape,hafter⟩ := @ran_blockOf ρ host turn st round reply lead hz hd
    refine ⟨hl,hnode,?_,?_,hd,.inr hshape⟩
    · rw [hafter]
      exact records_written host _ _ (role_messages _)
    · rw [hafter]
      obtain ⟨ns,n,hw⟩ := written_eq_concat host (st.drawn + 1) (callNode host reply st).id
        (messages_ne_nil hne hz)
      rw [hw]
      simp

theorem whole_blockOf (hr : round.reply.chat = .ok reply) (hn : round.Named)
    (hne : reply.toolCalls ≠ []) (hl : ∀ n ∈ lead, n.Plain)
    (hc : st.cancelled = round.opened turn.token cancelled) :
    ¬ PendingOn (blockOf host turn round reply lead st).nodes ↔
      round.Whole turn.token cancelled := by
  have hcalls := @calledAs_eq ρ host st round reply hr hn
  have hpos := @length_calledAs_pos ρ host st reply hne
  obtain ⟨k,hk⟩ : ∃ k, round.calls.length = k + 1 := ⟨_,(Nat.succ_pred_eq_of_pos (hcalls ▸ hpos)).symm⟩
  have hflags : roundFlags turn round (calledAs host reply st).length st =
      Flags.ran turn.token round.steps (k + 1) ⟨round.opened turn.token cancelled, ""⟩ := by
    rw [roundFlags,hcalls,hk,hc]
  have hall : (roundFlags turn round (calledAs host reply st).length st).1 =
      (calledAs host reply st).length ↔
        round.cutBefore turn.token cancelled (round.calls.length - 1) = false := by
    rw [hflags,hcalls,hk,Flags.ran_all_iff,cut_opened]
    rfl
  have hnone : (roundFlags turn round (calledAs host reply st).length st).1 = 0 ↔
      round.cutBefore turn.token cancelled 0 = true := by
    rw [hflags,Flags.ran_none_iff,cut_opened]
  have hnote : (roundFlags turn round (calledAs host reply st).length st).1 = 0 →
      roundNote turn round (calledAs host reply st).length st = round.noteLeft := by
    intro hzero
    rw [roundNote,hflags] at *
    simp only [Flags.pass,Flags.userNote_ran_none hzero]
    rfl
  have hlog : (blockOf host turn round reply lead st).log.length =
      (roundFlags turn round (calledAs host reply st).length st).1 :=
    length_roundLog host turn round (calledAs host reply st) st
  rw [Block.not_pendingOn_iff (fair_blockOf hr hn hne hl)]
  unfold Round.Whole
  rw [← hall,← hnone]
  by_cases hz : (roundFlags turn round (calledAs host reply st).length st).1 = 0 ∧
      roundNote turn round (calledAs host reply st).length st = ""
  · constructor
    · intro _
      exact .inr ⟨hz.1,hnote hz.1 ▸ hz.2⟩
    · intro _
      exact .inl (cancelled_blockOf hz).1
  · have hd : ((calledAs host reply st).map ToolCall.id).Nodup := by
      rw [hcalls]
      exact hn.distinct
    have hran := (@ran_blockOf ρ host turn st round reply lead hz hd).1
    constructor
    · rintro (hcut | ⟨_,hlen⟩)
      · have hans := hran.answers
        rw [hcut.log,hcut.answers] at hans
        have hempty : calledAs host reply st = [] := List.map_eq_nil_iff.mp hans
        rw [hempty] at hpos
        exact absurd hpos (Nat.not_lt_zero _)
      · exact .inl (hlog.symm.trans hlen)
    · rintro (hlen | ⟨hzero,hleft⟩)
      · exact .inr ⟨hran,hlog.trans hlen⟩
      · exact absurd ⟨hzero,(hnote hzero).trans hleft⟩ hz

end Block

end Executing

end PuCli
