import PuCli.Library.Run
import PuCli.Session.SessionRuns

namespace PuCli

def pendingCalls (calls : List ToolCallRecord) : List ToolCallRecord :=
  calls.filter (fun call => call.status = .pending)

def MessageNode.Unfinished (n : MessageNode) : Prop :=
  ∃ call ∈ n.payload.records, call.status = .pending

instance (n : MessageNode) : Decidable n.Unfinished :=
  inferInstanceAs (Decidable (∃ call ∈ n.payload.records, call.status = .pending))

def PendingOn (ns : List MessageNode) : Prop := ∃ n ∈ ns, n.Unfinished

instance (ns : List MessageNode) : Decidable (PendingOn ns) :=
  inferInstanceAs (Decidable (∃ n ∈ ns, n.Unfinished))

def SolePending (callId : String) (calls : List ToolCallRecord) : Prop :=
  ∃ call, pendingCalls calls = [call] ∧ calls.find? (fun r => r.id = callId) = some call

def AnswersOnly : MessagePayload → List MessageNode → Prop
  | .tool receipt, ns => receipt.toolCallId ≠ "" ∧ ∃ older n newer,
      ns = older ++ n :: newer ∧ ¬ PendingOn older ∧ ¬ PendingOn newer ∧
      (∀ m ∈ newer, MessageGraph.hasRecord receipt.toolCallId m = false) ∧
      SolePending receipt.toolCallId n.payload.records
  | _, _ => False

variable {n : MessageNode} {ns ms : List MessageNode} {callId : String}

@[simp] theorem pendingOn_nil : ¬ PendingOn [] := by
  simp [PendingOn]

@[simp] theorem pendingOn_cons : PendingOn (n :: ns) ↔ n.Unfinished ∨ PendingOn ns := by
  simp [PendingOn]

@[simp] theorem pendingOn_append : PendingOn (ns ++ ms) ↔ PendingOn ns ∨ PendingOn ms := by
  induction ns with
  | nil => simp
  | cons n ns ih =>
      rw [List.cons_append,pendingOn_cons,ih,pendingOn_cons,or_assoc]

theorem pendingOn_reverse : PendingOn ns.reverse ↔ PendingOn ns := by
  simp [PendingOn]

theorem hasUnfinishedToolCalls_iff : hasUnfinishedToolCalls n = true ↔ n.Unfinished := by
  simp [hasUnfinishedToolCalls,MessageNode.Unfinished]

theorem not_unfinished_iff :
    ¬ n.Unfinished ↔ ∀ call ∈ n.payload.records, call.status ≠ .pending := by
  simp [MessageNode.Unfinished]

namespace MessageGraph

theorem completeRecord_settles (calls : List ToolCallRecord) :
    (∀ call ∈ completeRecord callId calls, call.status ≠ .pending) ↔
      (∀ call ∈ calls, call.status ≠ .pending) ∨ SolePending callId calls := by
  induction calls with
  | nil => simp [completeRecord]
  | cons r calls ih =>
      by_cases hid : r.id = callId
      · have hfind : (r :: calls).find? (fun x => x.id = callId) = some r := by simp [hid]
        by_cases hp : r.status = .pending
        · have hfil : pendingCalls (r :: calls) = r :: pendingCalls calls := by
            simp [pendingCalls,hp]
          simp only [completeRecord,hid,hp,SolePending,hfind,hfil,if_true]
          constructor
          · intro h
            refine .inr ⟨r,?_,rfl⟩
            have hnil : pendingCalls calls = [] := by
              refine List.filter_eq_nil_iff.mpr ?_
              intro x hx
              simpa using h x (List.mem_cons_of_mem _ hx)
            rw [hnil]
          · rintro (h | ⟨call,hc,_⟩)
            · exact absurd hp (h r (by simp))
            · have hnil : pendingCalls calls = [] := (List.cons.inj hc).2
              intro x hx
              rcases List.mem_cons.mp hx with rfl | hx
              · simp
              · simpa using List.filter_eq_nil_iff.mp hnil x hx
        · simp only [completeRecord,hid,hp,if_true,if_false]
          constructor
          · exact .inl
          · rintro (h | ⟨call,hc,hf⟩)
            · exact h
            · rw [hfind] at hf
              obtain rfl := Option.some.inj hf
              have hmem : r ∈ pendingCalls (r :: calls) := by simp [hc]
              exact absurd (by simpa using (List.mem_filter.mp hmem).2) hp
      · have hfind : (r :: calls).find? (fun x => x.id = callId) =
            calls.find? (fun x => x.id = callId) := by simp [hid]
        by_cases hp : r.status = .pending
        · have hfil : pendingCalls (r :: calls) = r :: pendingCalls calls := by
            simp [pendingCalls,hp]
          simp only [completeRecord,hid,if_false,SolePending,hfind,hfil]
          constructor
          · intro h
            exact absurd hp (h r (by simp))
          · rintro (h | ⟨call,hc,hf⟩)
            · exact absurd hp (h r (by simp))
            · obtain rfl := (List.cons.inj hc).1
              exact absurd (by simpa using List.find?_some hf) hid
        · have hfil : pendingCalls (r :: calls) = pendingCalls calls := by simp [pendingCalls,hp]
          simp only [completeRecord,hid,if_false,SolePending,hfind,hfil,List.mem_cons,
            forall_eq_or_imp,hp,ne_eq,not_false_eq_true,true_and]
          exact ih

theorem records_completeRecordOf :
    (completeRecordOf callId n).payload.records = completeRecord callId n.payload.records := by
  unfold completeRecordOf
  split
  · next hp => simp [hp,MessagePayload.records]
  · next hp =>
      cases hn : n.payload with
      | assistant q => exact absurd hn (hp q)
      | _ => rfl

theorem solePending_hasRecord (h : SolePending callId n.payload.records) :
    hasRecord callId n = true := by
  obtain ⟨call,_,hf⟩ := h
  simp only [hasRecord,List.any_eq_true]
  exact ⟨call,List.mem_of_find?_eq_some hf,by simpa using List.find?_some hf⟩

theorem completeNearest_settles (ns : List MessageNode) :
    ¬ PendingOn (completeNearest callId ns) ↔ ¬ PendingOn ns ∨ ∃ newer n older,
      ns = newer ++ n :: older ∧ ¬ PendingOn newer ∧ ¬ PendingOn older ∧
      (∀ m ∈ newer, hasRecord callId m = false) ∧ SolePending callId n.payload.records := by
  induction ns with
  | nil => simp [completeNearest]
  | cons m ns ih =>
      cases hm : hasRecord callId m with
      | true =>
          have hnode : ¬ (completeRecordOf callId m).Unfinished ↔
              ¬ m.Unfinished ∨ SolePending callId m.payload.records := by
            rw [not_unfinished_iff,not_unfinished_iff,records_completeRecordOf]
            exact completeRecord_settles m.payload.records
          rw [completeNearest,if_pos hm,pendingOn_cons,not_or,hnode,pendingOn_cons,not_or]
          constructor
          · rintro ⟨hk | hk,hns⟩
            · exact .inl ⟨hk,hns⟩
            · exact .inr ⟨[],m,ns,rfl,pendingOn_nil,hns,by simp,hk⟩
          · rintro (⟨hk,hns⟩ | ⟨newer,n,older,hsplit,hnew,hold,hoff,hsole⟩)
            · exact ⟨.inl hk,hns⟩
            · cases newer with
              | nil =>
                  obtain ⟨rfl,rfl⟩ := List.cons.inj hsplit
                  exact ⟨.inr hsole,hold⟩
              | cons x xs =>
                  obtain ⟨rfl,_⟩ := List.cons.inj hsplit
                  simp [hoff m (by simp)] at hm
      | false =>
          rw [completeNearest,if_neg (by simp [hm]),pendingOn_cons,not_or,ih,pendingOn_cons,not_or]
          constructor
          · rintro ⟨hk,hns | ⟨newer,n,older,rfl,hnew,hold,hoff,hsole⟩⟩
            · exact .inl ⟨hk,hns⟩
            · refine .inr ⟨m :: newer,n,older,rfl,?_,hold,?_,hsole⟩
              · rw [pendingOn_cons,not_or]
                exact ⟨hk,hnew⟩
              · intro x hx
                rcases List.mem_cons.mp hx with rfl | hx
                · exact hm
                · exact hoff x hx
          · rintro (⟨hk,hns⟩ | ⟨newer,n,older,hsplit,hnew,hold,hoff,hsole⟩)
            · exact ⟨hk,.inl hns⟩
            · cases newer with
              | nil =>
                  obtain ⟨rfl,rfl⟩ := List.cons.inj hsplit
                  simp [solePending_hasRecord hsole] at hm
              | cons x xs =>
                  obtain ⟨rfl,rfl⟩ := List.cons.inj hsplit
                  rw [pendingOn_cons,not_or] at hnew
                  exact ⟨hnew.1,.inr ⟨xs,n,older,rfl,hnew.2,hold,
                    fun y hy => hoff y (List.mem_cons_of_mem _ hy),hsole⟩⟩

theorem answerIn_settles (p : MessagePayload) (ns : List MessageNode) :
    ¬ PendingOn (answerIn p ns) ↔ ¬ PendingOn ns ∨ AnswersOnly p ns := by
  cases p with
  | tool receipt =>
      simp only [answerIn,AnswersOnly]
      by_cases hid : receipt.toolCallId = ""
      · simp [hid]
      · rw [if_neg hid,pendingOn_reverse,completeNearest_settles,pendingOn_reverse]
        refine or_congr_right ?_
        constructor
        · rintro ⟨newer,n,older,hsplit,hnew,hold,hoff,hsole⟩
          refine ⟨hid,older.reverse,n,newer.reverse,?_,?_,?_,?_,hsole⟩
          · rw [← List.reverse_reverse ns,hsplit]
            simp
          · rwa [pendingOn_reverse]
          · rwa [pendingOn_reverse]
          · intro m hm
            exact hoff m (List.mem_reverse.mp hm)
        · rintro ⟨_,older,n,newer,rfl,hold,hnew,hoff,hsole⟩
          refine ⟨newer.reverse,n,older.reverse,by simp,?_,?_,?_,hsole⟩
          · rwa [pendingOn_reverse]
          · rwa [pendingOn_reverse]
          · intro m hm
            exact hoff m (List.mem_reverse.mp hm)
  | _ => simp [answerIn,AnswersOnly]

theorem not_unfinished_interruptNode (n : MessageNode) : ¬ (interruptNode n).Unfinished := by
  rw [not_unfinished_iff,records_interruptNode]
  intro call hc
  obtain ⟨r,_,rfl⟩ := List.mem_map.mp hc
  exact interrupt_status r

theorem not_pendingOn_receiptNodes (parent : MessageId) (newId : Nat → MessageId)
    (calls : List ToolCallRecord) : ¬ PendingOn (receiptNodes parent newId calls) := by
  induction calls generalizing parent newId with
  | nil => simp [receiptNodes]
  | cons c calls ih =>
      rw [receiptNodes,pendingOn_cons,not_or]
      refine ⟨?_,ih _ _⟩
      rw [not_unfinished_iff]
      simp [cancelledReceipt,MessagePayload.records]

end MessageGraph

namespace Conversation

variable {text : JsonText} {c : Conversation}

def Exact (c : Conversation) : Prop := c.hasPendingToolCalls = true ↔ PendingOn c.chain

inductive Op where
  | append (id : MessageId) (msg : ChatMessage)
  | sealCalls (newId : Nat → MessageId)
  | rewind (turn : Nat)
  | clear
  | reload

def apply (text : JsonText) (c : Conversation) : Op → Conversation
  | .append id msg => c.append text id msg
  | .sealCalls newId => c.sealInterruptedToolCalls newId
  | .rewind turn =>
      match c.rewindBefore turn with
      | .ok (_, c') => c'
      | .error _ => c
  | .clear => c.clearHistory
  | .reload => (deserialize c.serialize).getD c

def Fits (c : Conversation) : Op → Prop
  | .append id _ => c.graph.Fresh id
  | .sealCalls newId => c.graph.FreshSupply newId
  | _ => True

def Settles (text : JsonText) (c : Conversation) : Op → Prop
  | .append _ msg => (∃ call ∈ (toPayload text msg).records, call.status = .pending) ∨
      ¬ PendingOn c.chain ∨ AnswersOnly (toPayload text msg) c.chain
  | .sealCalls _ => ¬ PendingOn c.chain.dropLast
  | _ => True

structure Kept (c : Conversation) : Prop where
  graph : c.graph.Sound
  origins : c.graph.WellNamed

theorem kept_apply (h : c.Kept) (op : Op) (hf : c.Fits op) : (c.apply text op).Kept := by
  cases op with
  | append id msg =>
      exact ⟨MessageGraph.sound_appendAfterLeaf h.graph hf _ _,
        MessageGraph.wellNamed_appendAfterLeaf h.graph h.origins hf (toPayload_wellNamed text msg) _⟩
  | sealCalls newId =>
      exact ⟨MessageGraph.sound_seal h.graph hf,
        MessageGraph.wellNamed_seal h.graph h.origins hf⟩
  | rewind turn =>
      simp only [apply]
      split
      · next done c' hr =>
          cases done with
          | true =>
              obtain ⟨_,_,_,_,hg,hn,_⟩ := rewindBefore_ok h.graph hr
              refine ⟨hg,?_⟩
              intro k n hk
              unfold MessageGraph.find at hk
              rw [hn] at hk
              exact h.origins _ _ hk
          | false =>
              obtain rfl := rewindBefore_unmoved hr
              exact h
      · exact h
  | clear => exact ⟨Session.sound_new.graph,Session.sound_new.origins⟩
  | reload =>
      simp only [apply,deserialize_serialize h.graph h.origins,Option.getD_some]
      exact h

theorem hasPendingToolCalls_concat {ns : List MessageNode} {n : MessageNode} (h : c.graph.Sound)
    (hc : c.chain = ns ++ [n]) : c.hasPendingToolCalls = true ↔ n.Unfinished := by
  have hl : c.graph.find c.graph.leaf = some n := by
    rw [← MessageGraph.chain_getLast? h]
    change c.chain.getLast? = some n
    rw [hc,List.getLast?_concat]
  rw [← hasUnfinishedToolCalls_iff]
  simp [hasPendingToolCalls,MessageGraph.leafHasUnfinishedToolCalls,hl]

theorem hasPendingToolCalls_nil (h : c.graph.Sound) (hc : c.chain = []) :
    c.hasPendingToolCalls = false := by
  have hl : c.graph.find c.graph.leaf = none := by
    rw [← MessageGraph.chain_getLast? h]
    change c.chain.getLast? = none
    rw [hc,List.getLast?_nil]
  simp [hasPendingToolCalls,MessageGraph.leafHasUnfinishedToolCalls,hl]

theorem exact_nil (h : c.graph.Sound) (hc : c.chain = []) : c.Exact := by
  simp [Exact,hasPendingToolCalls_nil h hc,hc]

theorem exact_concat {ns : List MessageNode} {n : MessageNode} (h : c.graph.Sound)
    (hc : c.chain = ns ++ [n]) : c.Exact ↔ n.Unfinished ∨ ¬ PendingOn ns := by
  rw [Exact,hasPendingToolCalls_concat h hc,hc,pendingOn_append,pendingOn_cons]
  simp only [pendingOn_nil,or_false]
  tauto

theorem exact_of_not_pendingOn (h : c.graph.Sound) (hp : ¬ PendingOn c.chain) : c.Exact := by
  rcases List.eq_nil_or_concat c.chain with hc | ⟨ns,n,hc⟩
  · exact exact_nil h hc
  · rw [hc,List.concat_eq_append] at hp
    refine (exact_concat h (by rw [hc,List.concat_eq_append])).mpr (.inr ?_)
    exact fun hn => hp (pendingOn_append.mpr (.inl hn))

theorem exact_append {id : MessageId} (h : c.graph.Sound) (hf : c.graph.Fresh id)
    (msg : ChatMessage) : (c.append text id msg).Exact ↔ c.Settles text (.append id msg) := by
  have hs := MessageGraph.sound_appendAfterLeaf h hf (toPayload text msg) msg.timestamp
  have hc := MessageGraph.chain_appendAfterLeaf h hf (toPayload text msg) msg.timestamp
  rw [exact_concat (c := c.append text id msg) hs hc,MessageGraph.answerIn_settles]
  rfl

theorem exact_seal {newId : Nat → MessageId} (h : c.graph.Sound)
    (hf : c.graph.FreshSupply newId) :
    (c.sealInterruptedToolCalls newId).Exact ↔ ¬ PendingOn c.chain.dropLast := by
  rcases List.eq_nil_or_concat c.chain with hc | ⟨ns,n,hc⟩
  · have hl : c.graph.find c.graph.leaf = none := by
      rw [← MessageGraph.chain_getLast? h]
      change c.chain.getLast? = none
      rw [hc,List.getLast?_nil]
    have hsame : c.sealInterruptedToolCalls newId = c := by
      simp [sealInterruptedToolCalls,MessageGraph.sealInterruptedToolCalls_of_find_eq_none hl]
    rw [hsame,hc]
    simp [exact_nil h hc]
  · rw [List.concat_eq_append] at hc
    obtain ⟨hs,hch⟩ := MessageGraph.seal_spec h hf hc
    have hnode := MessageGraph.not_unfinished_interruptNode n
    have hrec := MessageGraph.not_pendingOn_receiptNodes c.graph.leaf newId
      (MessageGraph.unrun n.payload.records)
    rw [hc,List.dropLast_concat]
    rcases List.eq_nil_or_concat (MessageGraph.receiptNodes c.graph.leaf newId
      (MessageGraph.unrun n.payload.records)) with hr | ⟨rs,r,hr⟩
    · rw [hr] at hch
      rw [exact_concat (c := c.sealInterruptedToolCalls newId) hs hch]
      simp [hnode]
    · rw [List.concat_eq_append] at hr
      rw [hr] at hch hrec
      rw [pendingOn_append,pendingOn_cons,not_or,not_or] at hrec
      have hch' : (c.sealInterruptedToolCalls newId).chain =
          (ns ++ MessageGraph.interruptNode n :: rs) ++ [r] := by
        simpa [chain,sealInterruptedToolCalls] using hch
      rw [exact_concat (c := c.sealInterruptedToolCalls newId) hs hch',pendingOn_append,
        pendingOn_cons]
      simp [hnode,hrec]

theorem exact_apply (h : c.Kept) (op : Op) (hf : c.Fits op) (he : c.Exact) :
    (c.apply text op).Exact ↔ c.Settles text op := by
  cases op with
  | append id msg => exact exact_append h.graph hf msg
  | sealCalls newId => exact exact_seal h.graph hf
  | rewind turn =>
      simp only [Settles,iff_true,apply]
      split
      · next done c' hr =>
          cases done with
          | true =>
              obtain ⟨_,_,hpend,_,hg,_,hch⟩ := rewindBefore_ok h.graph hr
              have hp : ¬ PendingOn c.chain := by
                intro hon
                have hasked := he.mpr hon
                simp [hpend] at hasked
              refine exact_of_not_pendingOn hg ?_
              rw [hch]
              rintro ⟨n,hn,hu⟩
              exact hp ⟨n,List.mem_of_mem_take hn,hu⟩
          | false =>
              obtain rfl := rewindBefore_unmoved hr
              exact he
      · exact he
  | clear =>
      simp only [Settles,iff_true,apply]
      exact exact_nil Session.sound_new.graph
        (MessageGraph.chain_of_leaf_eq_empty Session.sound_new.graph rfl)
  | reload =>
      simp only [Settles,iff_true,apply,deserialize_serialize h.graph h.origins,Option.getD_some]
      exact he

structure Guarded (c : Conversation) : Prop where
  pending : c.hasPendingToolCalls = true ↔ PendingOn c.chain
  rewind : PendingOn c.chain → ∀ turn, ∃ why, c.rewindBefore turn = .error why
  agent : PendingOn c.chain → ∀ (s : Session) name, s.conversation = c →
    ∃ why, s.setAgent name = .error why

theorem guarded_iff_exact : c.Guarded ↔ c.Exact := by
  constructor
  · exact Guarded.pending
  · intro he
    refine ⟨he,?_,?_⟩
    · intro hp turn
      unfold rewindBefore
      split
      · exact ⟨_,rfl⟩
      · rw [if_pos (he.mpr hp)]
        exact ⟨_,rfl⟩
    · rintro hp s name rfl
      unfold Session.setAgent Session.hasPendingToolCalls
      rw [if_pos (he.mpr hp)]
      exact ⟨_,rfl⟩

theorem pending_guard_exact_iff_settled_steps {ops : List Op}
    (hf : Run.Along (apply text) Fits new ops) :
    (∀ c ∈ Run.visited (apply text) new ops, c.Guarded) ↔
      Run.Along (apply text) (Settles text) new ops := by
  have hnew : new.Kept := ⟨Session.sound_new.graph,Session.sound_new.origins⟩
  have hexact : new.Exact := exact_nil hnew.graph
    (MessageGraph.chain_of_leaf_eq_empty hnew.graph rfl)
  rw [← Run.visited_good_iff (fun _ op h hf => kept_apply h op hf)
    (fun _ op h hf he => exact_apply h op hf he) hnew hexact hf]
  simp only [guarded_iff_exact]

def plainText : JsonText := ⟨fun _ => none, fun _ => "", fun s => s, fun _ => ""⟩

def twoCalls : ChatMessage :=
  { role := .assistant
    toolCalls := .array [toolCallToJson ⟨"a", "bash", .object [], .pending⟩,
      toolCallToJson ⟨"b", "bash", .object [], .pending⟩] }

def receiptFor (callId : String) : ChatMessage :=
  { role := .tool, content := "done", toolName := "bash", toolCallId := callId }

def midRound : List Op := [.append "n1" twoCalls, .append "n2" (receiptFor "a")]

theorem pending_guard_exact_iff_settled_steps_one_call :
    Run.Along (apply plainText) Fits new [.append "n1" twoCalls] ∧
      ∀ c ∈ Run.visited (apply plainText) new [.append "n1" twoCalls], c.Guarded := by
  have hf : Run.Along (apply plainText) Fits new [.append "n1" twoCalls] :=
    ⟨⟨by decide,by decide⟩,trivial⟩
  refine ⟨hf,(pending_guard_exact_iff_settled_steps hf).mpr ⟨.inl ?_,trivial⟩⟩
  decide

theorem pending_guard_misses_second_call :
    Run.Along (apply plainText) Fits new midRound ∧
      ∃ c ∈ Run.visited (apply plainText) new midRound, PendingOn c.chain ∧
        c.hasPendingToolCalls = false ∧ ¬ c.Guarded ∧
        ∃ c', c.rewindBefore 1 = .ok (true, c') := by
  have hf : Run.Along (apply plainText) Fits new midRound :=
    ⟨⟨by decide,by decide⟩,⟨by decide,by decide⟩,trivial⟩
  have hpend : PendingOn (midRound.foldl (apply plainText) new).chain := by decide
  have hnone : (midRound.foldl (apply plainText) new).hasPendingToolCalls = false := by decide
  refine ⟨hf,midRound.foldl (apply plainText) new,by simp [midRound,Run.visited],hpend,hnone,?_,?_⟩
  · intro hg
    have hasked := hg.pending.mpr hpend
    simp [hnone] at hasked
  · refine ⟨⟨{ (midRound.foldl (apply plainText) new).graph with leaf := "" }⟩,?_⟩
    rfl

end Conversation

end PuCli
