import Mathlib.Data.List.Pairwise
import PuCli.Runtime.ExecutorRound
import PuCli.Session.PendingGuard

namespace PuCli

open MessageGraph

def MessageNode.answer (n : MessageNode) : Option (String × String) :=
  match n.payload with
  | .tool p => some (p.toolCallId, p.content)
  | _ => none

def answers (ns : List MessageNode) : List (String × String) := ns.filterMap MessageNode.answer

def answersFor (id : String) (ns : List MessageNode) : List (String × String) :=
  (answers ns).filter (fun a => a.1 = id)

def Answers (runs : List ToolRun) (r : ToolCallRecord) (content : String) : Prop :=
  (r.status = .completed ∧ ∃ run ∈ runs, run.id = r.id ∧ run.result = content) ∨
    (r.status = .interrupted ∧ content = kCancelledReceipt ∧ ∀ run ∈ runs, run.id ≠ r.id)

def PairedOn (runs : List ToolRun) : List MessageNode → Prop
  | [] => True
  | n :: ns =>
      (∀ r ∈ n.payload.records, ∃ content,
        answersFor r.id ns = [(r.id, content)] ∧ Answers runs r content) ∧ PairedOn runs ns

def ToolCall.withStatus (status : ToolCallStatus) (c : ToolCall) : ToolCallRecord :=
  ⟨c.id, c.name, c.arguments, status⟩

structure MessageNode.Plain (n : MessageNode) : Prop where
  records : n.payload.records = []
  answer : n.answer = none

structure Block where
  lead : List MessageNode
  node : MessageNode
  after : List MessageNode
  calls : List ToolCall
  log : List ToolRun

namespace Block

def nodes (b : Block) : List MessageNode := b.lead ++ b.node :: b.after

def ids (b : Block) : List String := b.calls.map ToolCall.id

structure Cancelled (b : Block) : Prop where
  log : b.log = []
  records : b.node.payload.records = b.calls.map (ToolCall.withStatus .interrupted)
  answers : answers b.after = b.calls.map (fun c => (c.id, kCancelledReceipt))

structure Ran (b : Block) : Prop where
  log : b.log.map ToolRun.call = b.calls.take b.log.length
  records : b.node.payload.records =
    (b.calls.take b.log.length).map (ToolCall.withStatus .completed) ++
      (b.calls.drop b.log.length).map ToolCall.record
  answers : answers b.after = b.log.map (fun run => (run.id, run.result))

structure Fair (b : Block) : Prop where
  lead : ∀ n ∈ b.lead, n.Plain
  node : b.node.answer = none
  after : ∀ n ∈ b.after, n.payload.records = []
  some : b.after ≠ []
  distinct : b.ids.Nodup
  shape : b.Cancelled ∨ b.Ran

end Block

variable {ns ms : List MessageNode} {n : MessageNode} {b : Block} {runs : List ToolRun}

theorem answers_append (ns ms : List MessageNode) : answers (ns ++ ms) = answers ns ++ answers ms :=
  List.filterMap_append

theorem answersFor_append (id : String) (ns ms : List MessageNode) :
    answersFor id (ns ++ ms) = answersFor id ns ++ answersFor id ms := by
  simp [answersFor,answers_append]

theorem answers_plain (h : ∀ n ∈ ns, n.Plain) : answers ns = [] :=
  List.filterMap_eq_nil_iff.mpr (fun n hn => (h n hn).answer)

theorem not_pendingOn_of_records (h : ∀ n ∈ ns, n.payload.records = []) : ¬ PendingOn ns := by
  rintro ⟨n,hn,r,hr,_⟩
  rw [h n hn] at hr
  simp at hr

theorem pairedOn_skip (h : ∀ n ∈ ns, n.payload.records = []) :
    PairedOn runs (ns ++ ms) ↔ PairedOn runs ms := by
  induction ns with
  | nil => rfl
  | cons n ns ih =>
      rw [List.cons_append,PairedOn,ih (fun m hm => h m (List.mem_cons_of_mem _ hm)),
        h n (by simp)]
      simp

theorem answersFor_of_not_mem {id : String} (h : id ∉ (answers ns).map Prod.fst) :
    answersFor id ns = [] := by
  refine List.filter_eq_nil_iff.mpr ?_
  intro a ha hid
  exact h (List.mem_map.mpr ⟨a,ha,by simpa using hid⟩)

theorem filter_fst_eq_singleton {id content : String} {as : List (String × String)}
    (hd : (as.map Prod.fst).Nodup) (ha : (id, content) ∈ as) :
    as.filter (fun a => a.1 = id) = [(id, content)] := by
  induction as with
  | nil => simp at ha
  | cons a as ih =>
      rw [List.map_cons,List.nodup_cons] at hd
      rcases List.mem_cons.mp ha with rfl | ha
      · have hrest : as.filter (fun a => a.1 = id) = [] := by
          refine List.filter_eq_nil_iff.mpr ?_
          intro x hx hid
          exact hd.1 (List.mem_map.mpr ⟨x,hx,by simpa using hid⟩)
        simp [hrest]
      · have hne : a.1 ≠ id := by
          rintro rfl
          exact hd.1 (List.mem_map.mpr ⟨_,ha,rfl⟩)
        simp [hne,ih hd.2 ha]

namespace Block

def Settled (b : Block) : Prop := b.Cancelled ∨ (b.Ran ∧ b.log.length = b.calls.length)

theorem Ran.length_log_le (h : b.Ran) : b.log.length ≤ b.calls.length := by
  have hl := congrArg List.length h.log
  rw [List.length_map,List.length_take] at hl
  omega

theorem Ran.map_id_log (h : b.Ran) : b.log.map ToolRun.id = b.ids.take b.log.length := by
  have hm := congrArg (List.map ToolCall.id) h.log
  rw [List.map_map,List.map_take] at hm
  exact hm

theorem id_mem_of_log (hf : b.Fair) {run : ToolRun} (hr : run ∈ b.log) : run.id ∈ b.ids := by
  rcases hf.shape with h | h
  · simp [h.log] at hr
  · have hm : run.id ∈ b.log.map ToolRun.id := List.mem_map_of_mem hr
    rw [h.map_id_log] at hm
    exact List.mem_of_mem_take hm

theorem map_id_records (hf : b.Fair) :
    b.node.payload.records.map ToolCallRecord.id = b.ids := by
  rcases hf.shape with h | h
  · rw [h.records,List.map_map]
    rfl
  · rw [h.records,List.map_append,List.map_map,List.map_map]
    change (b.calls.take b.log.length).map ToolCall.id ++
      (b.calls.drop b.log.length).map ToolCall.id = _
    rw [← List.map_append,List.take_append_drop]
    rfl

theorem answers_nodes (hf : b.Fair) : answers b.nodes = answers b.after := by
  rw [nodes,answers_append,answers_plain hf.lead,List.nil_append]
  simp [answers,hf.node]

theorem not_unfinished_of_settled (hs : b.Settled) : ¬ b.node.Unfinished := by
  rw [not_unfinished_iff]
  rcases hs with h | ⟨h,hl⟩
  · rw [h.records]
    intro r hr
    obtain ⟨c,_,rfl⟩ := List.mem_map.mp hr
    simp [ToolCall.withStatus]
  · rw [h.records,hl,List.drop_length]
    intro r hr
    rw [List.map_nil,List.append_nil] at hr
    obtain ⟨c,_,rfl⟩ := List.mem_map.mp hr
    simp [ToolCall.withStatus]

theorem not_pendingOn_iff (hf : b.Fair) : ¬ PendingOn b.nodes ↔ b.Settled := by
  have hlead := not_pendingOn_of_records (fun n hn => (hf.lead n hn).records)
  have hafter := not_pendingOn_of_records hf.after
  rw [nodes,pendingOn_append,pendingOn_cons]
  constructor
  · intro hp
    rcases hf.shape with h | h
    · exact .inl h
    · refine .inr ⟨h,?_⟩
      have hle := h.length_log_le
      by_contra hne
      obtain ⟨c,hc⟩ : ∃ c, c ∈ b.calls.drop b.log.length :=
        List.exists_mem_of_length_pos (by rw [List.length_drop]; omega)
      refine hp (.inr (.inl ⟨c.record,?_,rfl⟩))
      rw [h.records]
      exact List.mem_append_right _ (List.mem_map_of_mem hc)
  · intro hs
    rintro (hp | hp | hp)
    · exact hlead hp
    · exact not_unfinished_of_settled hs hp
    · exact hafter hp

theorem map_fst_answers (hs : b.Settled) : (answers b.after).map Prod.fst = b.ids := by
  rcases hs with h | ⟨h,hl⟩
  · rw [h.answers,List.map_map]
    rfl
  · have hall : b.ids.take b.log.length = b.ids := by
      rw [hl]
      refine List.take_of_length_le ?_
      simp [ids]
    rw [h.answers,List.map_map,← hall,← h.map_id_log]
    rfl

theorem answered_once (hf : b.Fair) (hs : b.Settled) (hlog : b.log ⊆ runs)
    (hnone : b.Cancelled → ∀ run ∈ runs, run.id ∉ b.ids) :
    ∀ r ∈ b.node.payload.records, ∃ content,
      answersFor r.id b.after = [(r.id, content)] ∧ Answers runs r content := by
  intro r hr
  have hd : ((answers b.after).map Prod.fst).Nodup := by
    rw [map_fst_answers hs]
    exact hf.distinct
  rcases hs with h | ⟨h,hl⟩
  · rw [h.records] at hr
    obtain ⟨c,hc,rfl⟩ := List.mem_map.mp hr
    refine ⟨kCancelledReceipt,filter_fst_eq_singleton hd ?_,.inr ⟨rfl,rfl,?_⟩⟩
    · rw [h.answers]
      exact List.mem_map.mpr ⟨c,hc,rfl⟩
    · intro run hrun hid
      exact hnone h run hrun (hid ▸ List.mem_map_of_mem hc)
  · rw [h.records,hl,List.drop_length,List.map_nil,List.append_nil,List.take_length] at hr
    obtain ⟨c,hc,rfl⟩ := List.mem_map.mp hr
    have hcl : c ∈ b.log.map ToolRun.call := by
      rw [h.log,hl,List.take_length]
      exact hc
    obtain ⟨run,hrun,rfl⟩ := List.mem_map.mp hcl
    refine ⟨run.result,filter_fst_eq_singleton hd ?_,.inl ⟨rfl,run,hlog hrun,rfl,rfl⟩⟩
    rw [h.answers]
    exact List.mem_map.mpr ⟨run,hrun,rfl⟩

theorem map_fst_answers_blocks {bs : List Block} (hf : ∀ b ∈ bs, b.Fair)
    (hs : ∀ b ∈ bs, b.Settled) :
    (answers (bs.flatMap nodes)).map Prod.fst = bs.flatMap ids := by
  induction bs with
  | nil => rfl
  | cons b bs ih =>
      rw [List.flatMap_cons,answers_append,List.map_append,answers_nodes (hf b (by simp)),
        map_fst_answers (hs b (by simp)),ih (fun x hx => hf x (List.mem_cons_of_mem _ hx))
          (fun x hx => hs x (List.mem_cons_of_mem _ hx)),List.flatMap_cons]

variable {bs : List Block} {tail : List MessageNode}

theorem pairedOn_of_nodup (hf : ∀ b ∈ bs, b.Fair) (hs : ∀ b ∈ bs, b.Settled)
    (ht : ∀ n ∈ tail, n.Plain) (hd : (bs.flatMap ids).Nodup) (hlog : ∀ b ∈ bs, b.log ⊆ runs)
    (hnone : ∀ b ∈ bs, b.Cancelled → ∀ run ∈ runs, run.id ∉ b.ids) :
    PairedOn runs (bs.flatMap nodes ++ tail) := by
  induction bs with
  | nil =>
      rw [List.flatMap_nil,List.nil_append,← List.append_nil tail,
        pairedOn_skip (fun n hn => (ht n hn).records)]
      trivial
  | cons b bs ih =>
      have hfb := hf b (by simp)
      have hsb := hs b (by simp)
      rw [List.flatMap_cons,List.nodup_append] at hd
      have hrest := ih (fun x hx => hf x (List.mem_cons_of_mem _ hx))
        (fun x hx => hs x (List.mem_cons_of_mem _ hx)) hd.2.1
        (fun x hx => hlog x (List.mem_cons_of_mem _ hx))
        (fun x hx => hnone x (List.mem_cons_of_mem _ hx))
      rw [List.flatMap_cons,nodes,List.append_assoc,List.append_assoc,
        pairedOn_skip (fun n hn => (hfb.lead n hn).records),List.cons_append,PairedOn,
        pairedOn_skip hfb.after]
      refine ⟨?_,hrest⟩
      intro r hr
      obtain ⟨content,hone,hans⟩ := answered_once hfb hsb (hlog b (by simp)) (hnone b (by simp)) r hr
      refine ⟨content,?_,hans⟩
      have hid : r.id ∈ b.ids := by
        rw [← map_id_records hfb]
        exact List.mem_map_of_mem hr
      have hlater : answersFor r.id (bs.flatMap nodes ++ tail) = [] := by
        refine answersFor_of_not_mem ?_
        rw [answers_append,answers_plain ht,List.append_nil,
          map_fst_answers_blocks (fun x hx => hf x (List.mem_cons_of_mem _ hx))
            (fun x hx => hs x (List.mem_cons_of_mem _ hx))]
        exact fun hm => hd.2.2 _ hid _ hm rfl
      rw [answersFor_append,hone,hlater,List.append_nil]

theorem nodup_of_pairedOn (hf : ∀ b ∈ bs, b.Fair) (hs : ∀ b ∈ bs, b.Settled)
    (ht : ∀ n ∈ tail, n.Plain) (hp : PairedOn runs (bs.flatMap nodes ++ tail)) :
    (bs.flatMap ids).Nodup := by
  induction bs with
  | nil => simp
  | cons b bs ih =>
      have hfb := hf b (by simp)
      have hsb := hs b (by simp)
      have hfs : ∀ x ∈ bs, x.Fair := fun x hx => hf x (List.mem_cons_of_mem _ hx)
      have hss : ∀ x ∈ bs, x.Settled := fun x hx => hs x (List.mem_cons_of_mem _ hx)
      rw [List.flatMap_cons,nodes,List.append_assoc,List.append_assoc,
        pairedOn_skip (fun n hn => (hfb.lead n hn).records),List.cons_append,PairedOn,
        pairedOn_skip hfb.after] at hp
      rw [List.flatMap_cons,List.nodup_append]
      refine ⟨hfb.distinct,ih hfs hss hp.2,?_⟩
      rintro id hid _ hlater rfl
      rw [← map_id_records hfb] at hid
      obtain ⟨r,hr,rfl⟩ := List.mem_map.mp hid
      obtain ⟨content,hone,_⟩ := hp.1 r hr
      have hfirst : answersFor r.id b.after ≠ [] := by
        intro hnil
        have hin : r.id ∈ (answers b.after).map Prod.fst := by
          rw [map_fst_answers hsb,← map_id_records hfb]
          exact List.mem_map_of_mem hr
        obtain ⟨a,ha,hid⟩ := List.mem_map.mp hin
        exact List.filter_eq_nil_iff.mp hnil a ha (by simpa using hid)
      have hsecond : answersFor r.id (bs.flatMap nodes ++ tail) ≠ [] := by
        intro hnil
        have hin : r.id ∈ (answers (bs.flatMap nodes ++ tail)).map Prod.fst := by
          rw [answers_append,answers_plain ht,List.append_nil,map_fst_answers_blocks hfs hss]
          exact hlater
        obtain ⟨a,ha,hid⟩ := List.mem_map.mp hin
        exact List.filter_eq_nil_iff.mp hnil a ha (by simpa using hid)
      rw [answersFor_append] at hone
      have hlen := congrArg List.length hone
      have h₁ := List.length_pos_iff.mpr hfirst
      have h₂ := List.length_pos_iff.mpr hsecond
      rw [List.length_append,List.length_singleton] at hlen
      omega

theorem pendingOn_blocks (ht : ∀ n ∈ tail, n.Plain) :
    ¬ PendingOn (bs.flatMap nodes ++ tail) ↔ ∀ b ∈ bs, ¬ PendingOn b.nodes := by
  have htail := not_pendingOn_of_records (fun n hn => (ht n hn).records)
  rw [pendingOn_append,not_or]
  constructor
  · rintro ⟨hp,_⟩ b hb ⟨n,hn,hu⟩
    exact hp ⟨n,List.mem_flatMap.mpr ⟨b,hb,hn⟩,hu⟩
  · intro h
    refine ⟨?_,htail⟩
    rintro ⟨n,hn,hu⟩
    obtain ⟨b,hb,hn⟩ := List.mem_flatMap.mp hn
    exact h b hb ⟨n,hn,hu⟩

theorem sealed_iff (hf : ∀ b ∈ bs, b.Fair) (ht : ∀ n ∈ tail, n.Plain) :
    (¬ PendingOn (bs.flatMap nodes ++ tail) ∧
      PairedOn (bs.flatMap Block.log) (bs.flatMap nodes ++ tail)) ↔
      (∀ b ∈ bs, ¬ PendingOn b.nodes) ∧ (bs.flatMap ids).Nodup := by
  rw [pendingOn_blocks ht]
  refine and_congr_right ?_
  intro hp
  have hs : ∀ b ∈ bs, b.Settled := fun b hb => (not_pendingOn_iff (hf b hb)).mp (hp b hb)
  constructor
  · exact nodup_of_pairedOn hf hs ht
  · intro hd
    refine pairedOn_of_nodup hf hs ht hd ?_ ?_
    · intro b hb run hrun
      exact List.mem_flatMap.mpr ⟨b,hb,hrun⟩
    · intro b hb hc run hrun hid
      obtain ⟨b',hb',hrun'⟩ := List.mem_flatMap.mp hrun
      have hne : b ≠ b' := by
        rintro rfl
        simp [hc.log] at hrun'
      have hdis := (List.nodup_flatMap.mp hd).2
      have hsym : Std.Symm (Function.onFun List.Disjoint ids) :=
        ⟨fun _ _ h => List.disjoint_symm h⟩
      exact List.Pairwise.forall hdis hb hb' hne hid (id_mem_of_log (hf b' hb') hrun')

end Block

end PuCli
