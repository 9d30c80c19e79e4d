import PuCli.Session.GraphSteps

namespace PuCli.MessageGraph

variable {g : MessageGraph} {id : MessageId} {n : MessageNode} {p : MessagePayload}
variable {newId : Nat → MessageId}

structure FreshSupply (g : MessageGraph) (newId : Nat → MessageId) : Prop where
  named : ∀ i, newId i ≠ ""
  new : ∀ i, g.find (newId i) = none
  distinct : Function.Injective newId

theorem FreshSupply.fresh (h : FreshSupply g newId) (i : Nat) : g.Fresh (newId i) :=
  ⟨h.named i,h.new i⟩

theorem find_appendAfterLeaf_eq_none (h : g.Sound) (hf : g.Fresh id) (p : MessagePayload)
    (timestamp : String) {j : MessageId} (hj : g.find j = none) (hne : j ≠ id) :
    (g.appendAfterLeaf id p timestamp).find j = none := by
  obtain ⟨hr,_⟩ := add_spec h hf p timestamp
  rw [appendAfterLeaf_eq,find_dropUnreachable]
  split
  · have hst := hr.stored j
    rw [find_store (n := g.node id p timestamp) hf.new] at hst
    have hid : ¬ (g.node id p timestamp).id = j := fun he => hne he.symm
    rw [if_neg hid,hj] at hst
    exact Option.isSome_eq_false_iff.mp hst |> Option.isNone_iff_eq_none.mp
  · rfl

theorem FreshSupply.tail (h : g.Sound) (hs : FreshSupply g newId) (p : MessagePayload)
    (timestamp : String) : FreshSupply (g.appendAfterLeaf (newId 0) p timestamp)
      (fun i => newId (i + 1)) where
  named i := hs.named (i + 1)
  new i := by
    refine find_appendAfterLeaf_eq_none h (hs.fresh 0) p timestamp (hs.new _) ?_
    intro he
    exact absurd (hs.distinct he) (by omega)
  distinct := by
    intro i j hij
    have := hs.distinct hij
    omega

theorem FreshSupply.replace (hs : FreshSupply g newId) (hk : g.find id = some n)
    (n' : MessageNode) : FreshSupply (g.replace id n') newId where
  named := hs.named
  new i := by
    have := isSome_find_replace hk n' (newId i)
    rw [hs.new i] at this
    simpa using this
  distinct := hs.distinct

theorem answerIn_concat (p : MessagePayload) {ns : List MessageNode} (hn : n.payload.records = []) :
    answerIn p (ns ++ [n]) = answerIn p ns ++ [n] := by
  cases p with
  | tool r =>
      simp only [answerIn]
      split
      · rfl
      · have hr : hasRecord r.toolCallId n = false := by simp [hasRecord,hn]
        simp [completeNearest,hr]
  | _ => rfl

def receiptNodes (parent : MessageId) (newId : Nat → MessageId) :
    List ToolCallRecord → List MessageNode
  | [] => []
  | call :: calls =>
      ⟨newId 0, "", cancelledReceipt call, parent⟩ ::
        receiptNodes (newId 0) (fun i => newId (i + 1)) calls

theorem appendReceipts_spec (h : g.Sound) (hs : FreshSupply g newId)
    {calls : List ToolCallRecord}
    (ha : ∀ c ∈ calls, answerIn (cancelledReceipt c) g.chain = g.chain) :
    (g.appendReceipts newId calls).Sound ∧
      (g.appendReceipts newId calls).chain = g.chain ++ receiptNodes g.leaf newId calls := by
  induction calls generalizing g newId with
  | nil => exact ⟨h,by simp [appendReceipts,receiptNodes]⟩
  | cons c calls ih =>
      have hs' := sound_appendAfterLeaf h (hs.fresh 0) (cancelledReceipt c) ""
      have hc := chain_appendAfterLeaf h (hs.fresh 0) (cancelledReceipt c) ""
      rw [ha c (by simp)] at hc
      have ha' : ∀ d ∈ calls, answerIn (cancelledReceipt d)
          (g.appendAfterLeaf (newId 0) (cancelledReceipt c) "").chain =
            (g.appendAfterLeaf (newId 0) (cancelledReceipt c) "").chain := by
        intro d hd
        rw [hc,answerIn_concat _ rfl,ha d (List.mem_cons_of_mem _ hd)]
      obtain ⟨hsound,hchain⟩ := ih hs' (hs.tail h _ _) ha'
      refine ⟨hsound,?_⟩
      rw [appendReceipts,hchain,hc,leaf_appendAfterLeaf]
      simp [receiptNodes,node]

def interruptNode (n : MessageNode) : MessageNode :=
  match n.payload with
  | .assistant p =>
      { n with payload := .assistant { p with toolCalls := p.toolCalls.map interrupt } }
  | _ => n

theorem alike_interruptNode (n : MessageNode) : Alike n (interruptNode n) := by
  unfold interruptNode
  split <;> exact ⟨rfl,rfl⟩

@[simp] theorem records_interruptNode (n : MessageNode) :
    (interruptNode n).payload.records = n.payload.records.map interrupt := by
  unfold interruptNode
  split
  · next hp => simp [hp,MessagePayload.records]
  · next hp =>
      cases hn : n.payload with
      | assistant q => exact absurd hn (hp q)
      | _ => rfl

@[simp] theorem interrupt_id (r : ToolCallRecord) : (interrupt r).id = r.id := by
  unfold interrupt
  split <;> rfl

theorem interrupt_status (r : ToolCallRecord) : (interrupt r).status ≠ .pending := by
  unfold interrupt
  split
  · simp
  · next h => exact h

theorem completeRecord_of_not_pending {callId : String} {rs : List ToolCallRecord}
    (h : ∀ r ∈ rs, r.status ≠ .pending) : completeRecord callId rs = rs := by
  induction rs with
  | nil => rfl
  | cons r rs ih =>
      have hr : ¬ r.status = .pending := h r (by simp)
      simp [completeRecord,hr,ih (fun x hx => h x (List.mem_cons_of_mem _ hx))]

theorem completeRecordOf_of_not_pending {callId : String}
    (h : ∀ r ∈ n.payload.records, r.status ≠ .pending) : completeRecordOf callId n = n := by
  unfold completeRecordOf
  split
  · next q hq =>
      rw [hq] at h
      have hrs : completeRecord callId q.toolCalls = q.toolCalls := completeRecord_of_not_pending h
      rw [hrs,← hq]
  · rfl

theorem answerIn_of_leaf {ns : List MessageNode} {r : ToolCallRecord}
    (hr : r.id ∈ n.payload.records.map ToolCallRecord.id)
    (hn : ∀ r ∈ n.payload.records, r.status ≠ .pending) :
    answerIn (cancelledReceipt r) (ns ++ [n]) = ns ++ [n] := by
  have hrec : hasRecord r.id n = true := by
    obtain ⟨s,hs,hid⟩ := List.mem_map.mp hr
    simp only [hasRecord,List.any_eq_true,decide_eq_true_eq]
    exact ⟨s,hs,hid⟩
  simp [answerIn,cancelledReceipt,completeNearest,hrec,completeRecordOf_of_not_pending hn]

theorem sealInterruptedToolCalls_eq (hl : g.find g.leaf = some n) :
    g.sealInterruptedToolCalls newId =
      (g.replace g.leaf (interruptNode n)).appendReceipts newId (unrun n.payload.records) := by
  unfold sealInterruptedToolCalls interruptNode
  rw [hl]
  cases hp : n.payload with
  | assistant q => simp [hp,MessagePayload.records,replace]
  | _ =>
      have hins : g.nodes.insert g.leaf n = g.nodes := by
        refine Std.ExtTreeMap.ext_getElem? ?_
        intro k
        rw [Std.ExtTreeMap.getElem?_insert]
        split
        · next hk =>
            obtain rfl := compare_eq_iff_eq.mp hk
            exact hl.symm
        · rfl
      simp [hp,MessagePayload.records,unrun,appendReceipts,replace,hins]

theorem sealInterruptedToolCalls_of_find_eq_none (hl : g.find g.leaf = none) :
    g.sealInterruptedToolCalls newId = g := by
  simp [sealInterruptedToolCalls,hl]

theorem chain_eq_concat (h : g.Sound) (hl : g.find g.leaf = some n) :
    ∃ ns, g.chain = ns ++ [n] := by
  have := chain_getLast? h
  rw [hl] at this
  exact List.getLast?_eq_some_iff.mp this

theorem chain_replace_leaf {ns : List MessageNode} {n' : MessageNode} (h : g.Sound)
    (hc : g.chain = ns ++ [n]) (ha : Alike n n') (hl : g.find g.leaf = some n) :
    (g.replace g.leaf n').chain = ns ++ [n'] := by
  have hid := h.keyed hl
  have hnd := chain_ids_nodup h
  rw [chain_replace h hl ha,hc]
  rw [hc,List.map_append,List.nodup_append] at hnd
  have hns : ns.map (fun m => if m.id = g.leaf then n' else m) = ns := by
    refine (List.map_congr_left ?_).trans (List.map_id ns)
    intro m hm
    refine if_neg ?_
    rw [← hid]
    exact hnd.2.2 m.id (List.mem_map_of_mem hm) n.id (by simp)
  simp [hns,hid]

theorem seal_spec {ns : List MessageNode} (h : g.Sound) (hs : FreshSupply g newId)
    (hc : g.chain = ns ++ [n]) :
    (g.sealInterruptedToolCalls newId).Sound ∧
      (g.sealInterruptedToolCalls newId).chain =
        ns ++ interruptNode n :: receiptNodes g.leaf newId (unrun n.payload.records) := by
  have hl : g.find g.leaf = some n := by
    rw [← chain_getLast? h,hc,List.getLast?_concat]
  have ha := alike_interruptNode n
  have hch := chain_replace_leaf h hc ha hl
  have hres : ∀ c ∈ unrun n.payload.records, answerIn (cancelledReceipt c)
      (g.replace g.leaf (interruptNode n)).chain = (g.replace g.leaf (interruptNode n)).chain := by
    intro c hcu
    rw [hch]
    refine answerIn_of_leaf ?_ ?_
    · simp only [unrun,List.mem_map,List.mem_filter] at hcu
      obtain ⟨r,⟨hr,_⟩,rfl⟩ := hcu
      simp only [records_interruptNode,List.map_map,List.mem_map]
      exact ⟨r,hr,rfl⟩
    · intro r hr
      rw [records_interruptNode] at hr
      obtain ⟨s,_,rfl⟩ := List.mem_map.mp hr
      exact interrupt_status s
  obtain ⟨hsound,hchain⟩ := appendReceipts_spec (sound_replace h hl ha) (hs.replace hl _) hres
  rw [sealInterruptedToolCalls_eq hl]
  refine ⟨hsound,?_⟩
  rw [hchain,hch]
  simp [replace]

theorem sound_seal (h : g.Sound) (hs : FreshSupply g newId) :
    (g.sealInterruptedToolCalls newId).Sound := by
  cases hl : g.find g.leaf with
  | none => rwa [sealInterruptedToolCalls_of_find_eq_none hl]
  | some n =>
      obtain ⟨ns,hns⟩ := chain_eq_concat h hl
      exact (seal_spec h hs hns).1

-- An id that is neither stored nor drawn for a receipt stays without a node.
theorem find_appendReceipts_eq_none (h : g.Sound) (hs : FreshSupply g newId)
    (calls : List ToolCallRecord) {j : MessageId} (hj : g.find j = none)
    (hne : ∀ i, j ≠ newId i) : (g.appendReceipts newId calls).find j = none := by
  induction calls generalizing g newId with
  | nil => exact hj
  | cons c calls ih =>
      exact ih (sound_appendAfterLeaf h (hs.fresh 0) _ _) (hs.tail h _ _)
        (find_appendAfterLeaf_eq_none h (hs.fresh 0) _ _ hj (hne 0)) (fun i => hne (i + 1))

theorem find_seal_eq_none (h : g.Sound) (hs : FreshSupply g newId) {j : MessageId}
    (hj : g.find j = none) (hne : ∀ i, j ≠ newId i) :
    (g.sealInterruptedToolCalls newId).find j = none := by
  cases hl : g.find g.leaf with
  | none => rwa [sealInterruptedToolCalls_of_find_eq_none hl]
  | some n =>
      have hr : (g.replace g.leaf (interruptNode n)).find j = none := by
        have hsame := isSome_find_replace hl (interruptNode n) j
        rw [hj] at hsame
        simpa using hsame
      rw [sealInterruptedToolCalls_eq hl]
      exact find_appendReceipts_eq_none (sound_replace h hl (alike_interruptNode n))
        (hs.replace hl _) _ hr hne

end PuCli.MessageGraph
