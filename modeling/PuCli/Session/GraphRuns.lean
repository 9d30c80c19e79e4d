import Mathlib.Logic.Relation
import PuCli.Session.GraphCodec

namespace PuCli.MessageGraph

open Relation

variable {g g' g₀ : MessageGraph} {id : MessageId}

inductive Start : MessageGraph → Prop
  | empty : Start empty
  | loaded {j : Json} {g : MessageGraph} : deserialize j = some g → Start g

inductive Step : MessageGraph → MessageGraph → Prop
  | append {g : MessageGraph} {id : MessageId} (p : MessagePayload) (timestamp : String) :
      g.Fresh id → Step g (g.appendAfterLeaf id p timestamp)
  | rewind {g g' : MessageGraph} {id : MessageId} : g.rewindTo id = some g' → Step g g'
  | sealCalls {g : MessageGraph} {newId : Nat → MessageId} :
      FreshSupply g newId → Step g (g.sealInterruptedToolCalls newId)
  | clear {g : MessageGraph} : Step g empty

theorem sound_of_start (h : Start g) : g.Sound := by
  cases h with
  | empty => exact sound_empty
  | loaded hj => exact (deserialize_spec hj).1

theorem step_sound (h : g.Sound) (hs : Step g g') : g'.Sound := by
  cases hs with
  | append p timestamp hf => exact sound_appendAfterLeaf h hf p timestamp
  | rewind hr => exact sound_rewindTo h hr
  | sealCalls hf => exact sound_seal h hf
  | clear => exact sound_empty

theorem run_sound (h : g₀.Sound) (hr : ReflTransGen Step g₀ g) : g.Sound := by
  induction hr with
  | refl => exact h
  | tail _ hs ih => exact step_sound ih hs

def Built (g : MessageGraph) : Prop := ∃ g₀, Start g₀ ∧ ReflTransGen Step g₀ g

theorem Built.sound (h : g.Built) : g.Sound := by
  obtain ⟨g₀,h₀,hr⟩ := h
  exact run_sound (sound_of_start h₀) hr

theorem Built.empty : MessageGraph.empty.Built := ⟨_,.empty,.refl⟩

theorem Built.append (h : g.Built) (hf : g.Fresh id) (p : MessagePayload) (timestamp : String) :
    (g.appendAfterLeaf id p timestamp).Built := by
  obtain ⟨g₀,h₀,hr⟩ := h
  exact ⟨g₀,h₀,hr.tail (.append p timestamp hf)⟩

theorem parentOf_acyclic (h : g.Sound) (id : MessageId) :
    ¬ TransGen (fun a b => g.parentOf a = some b) id id := by
  intro hc
  have hs : (g.find id).isSome := by
    obtain ⟨k,hk,_⟩ := TransGen.head'_iff.mp hc
    cases hf : g.find id with
    | none => simp [parentOf,hf] at hk
    | some n => rfl
  obtain ⟨t,ht⟩ := h.ends hs
  exact ht.acyclic hc

theorem climb_stable (h : g.Sound) {m : Nat} (hm : g.size ≤ m) :
    (g.climb m (g.find g.leaf)).reverse = g.chain := by
  rcases h.leaf with hl | hs
  · rw [chain_of_leaf_eq_empty h hl,hl,h.named]
    cases m <;> rfl
  · obtain ⟨t,ht⟩ := h.ends hs
    have hlen := trail_length_le h ht hs
    rw [climb_eq ht hs (hlen.trans hm),chain_eq h hs ht]

inductive CompletesOne : List MessageNode → List MessageNode → Prop
  | none (ns : List MessageNode) : CompletesOne ns ns
  | one {n : MessageNode} {p : AssistantPayload} {r : ToolCallRecord} {rs rs' : List ToolCallRecord}
      (before after : List MessageNode) : n.payload = .assistant p →
      p.toolCalls = rs ++ r :: rs' → r.status = .pending →
      CompletesOne (before ++ n :: after) (before ++
        { n with payload := .assistant { p with
          toolCalls := rs ++ { r with status := .completed } :: rs' } } :: after)

theorem CompletesOne.ids {old new : List MessageNode} (h : CompletesOne old new) :
    new.map MessageNode.id = old.map MessageNode.id := by
  cases h with
  | none => rfl
  | one before after => simp

theorem completeRecord_cases (callId : String) (rs : List ToolCallRecord) :
    completeRecord callId rs = rs ∨
      ∃ before r after, rs = before ++ r :: after ∧ r.status = .pending ∧
        completeRecord callId rs = before ++ { r with status := .completed } :: after := by
  induction rs with
  | nil => exact .inl rfl
  | cons r rs ih =>
      by_cases hid : r.id = callId
      · by_cases hp : r.status = .pending
        · exact .inr ⟨[],r,rs,rfl,hp,by simp [completeRecord,hid,hp]⟩
        · exact .inl (by simp [completeRecord,hid,hp])
      · rcases ih with hk | ⟨before,x,after,hrs,hp,hc⟩
        · exact .inl (by simp [completeRecord,hid,hk])
        · refine .inr ⟨r :: before,x,after,by simp [hrs],hp,?_⟩
          rw [completeRecord,if_neg hid,hc,List.cons_append]

theorem completesOne_completeRecordOf (callId : String) (n : MessageNode)
    (before after : List MessageNode) :
    CompletesOne (before ++ n :: after) (before ++ completeRecordOf callId n :: after) := by
  unfold completeRecordOf
  split
  · next p hp =>
      rcases completeRecord_cases callId p.toolCalls with hk | ⟨rs,r,rs',hrs,hpend,hc⟩
      · rw [hk,← hp]
        exact .none _
      · rw [hc]
        exact .one before after hp hrs hpend
  · exact .none _

theorem completeNearest_split (callId : String) (ns : List MessageNode) :
    completeNearest callId ns = ns ∨ ∃ before n after,
      ns = before ++ n :: after ∧
        completeNearest callId ns = before ++ completeRecordOf callId n :: after := by
  induction ns with
  | nil => exact .inl rfl
  | cons m ns ih =>
      cases hm : hasRecord callId m with
      | true => exact .inr ⟨[],m,ns,rfl,by simp [completeNearest,hm]⟩
      | false =>
          rcases ih with hk | ⟨before,n,after,hns,hc⟩
          · exact .inl (by simp [completeNearest,hm,hk])
          · refine .inr ⟨m :: before,n,after,by simp [hns],?_⟩
            simp [completeNearest,hm,hc]

theorem completesOne_answerIn (p : MessagePayload) (ns : List MessageNode) :
    CompletesOne ns (answerIn p ns) := by
  cases p with
  | tool r =>
      simp only [answerIn]
      split
      · exact .none ns
      · rcases completeNearest_split r.toolCallId ns.reverse with hk | ⟨before,n,after,hns,hc⟩
        · rw [hk,List.reverse_reverse]
          exact .none ns
        · have hrev : ns = after.reverse ++ n :: before.reverse := by
            rw [← List.reverse_reverse ns,hns]
            simp
          rw [hc,hrev]
          simpa using completesOne_completeRecordOf r.toolCallId n after.reverse before.reverse
  | _ => exact .none ns

theorem message_graph_runs_keep_invariant (h₀ : Start g₀) (hr : ReflTransGen Step g₀ g) :
    (g.leaf = "" ∨ (g.find g.leaf).isSome) ∧
    (∀ id n, g.find id = some n → n.parent = "" ∨ (g.find n.parent).isSome) ∧
    (∀ id, ¬ TransGen (fun a b => g.parentOf a = some b) id id) ∧
    (∀ m, g.size ≤ m → (g.climb m (g.find g.leaf)).reverse = g.chain) ∧
    ∀ id p timestamp, g.Fresh id →
      (∃ old, CompletesOne g.chain old ∧
        (g.appendAfterLeaf id p timestamp).chain = old ++ [⟨id, timestamp, p, g.leaf⟩]) ∧
      ∀ k n, (g.appendAfterLeaf id p timestamp).find k = some n ↔
        n ∈ (g.appendAfterLeaf id p timestamp).chain ∧ n.id = k := by
  have h := run_sound (sound_of_start h₀) hr
  refine ⟨h.leaf,fun _ _ => h.parents,parentOf_acyclic h,fun _ => climb_stable h,?_⟩
  intro id p timestamp hf
  refine ⟨⟨answerIn p g.chain,completesOne_answerIn p g.chain,?_⟩,?_⟩
  · exact chain_appendAfterLeaf h hf p timestamp
  · intro k n
    exact find_appendAfterLeaf h hf p timestamp k

-- A call answered, two that are sealed, and a rewind to before them.
def callPayload (ids : List String) : MessagePayload :=
  .assistant ⟨"", [], ids.map (fun id => ⟨id, "execute_bash", .object [], .pending⟩)⟩

def question : MessagePayload := .user ⟨"hi", ""⟩

def exchange : List (MessageId × MessagePayload) :=
  [("a", question), ("b", callPayload ["c1"]), ("c", .tool ⟨"c1", "execute_bash", "ok", none⟩),
    ("d", question), ("e", callPayload ["c2", "c3"])]

def talked (n : Nat) : MessageGraph :=
  (exchange.take n).foldl (fun g m => g.appendAfterLeaf m.1 m.2 "") empty

def sealName (i : Nat) : MessageId := String.ofList (List.replicate (i + 1) 's')

def talkedSealed : MessageGraph := (talked 5).sealInterruptedToolCalls sealName

def rewound : MessageGraph := { talkedSealed with leaf := "c" }

theorem sealName_toList (i : Nat) : (sealName i).toList = List.replicate (i + 1) 's' :=
  String.toList_ofList

theorem talked_reached : ReflTransGen Step empty (talked 4) ∧ (talked 4).Fresh "e" := by
  have ha : (talked 0).Fresh "a" := ⟨by decide,by decide⟩
  have hb : (talked 1).Fresh "b" := ⟨by decide,by decide⟩
  have hc : (talked 2).Fresh "c" := ⟨by decide,by decide⟩
  have hd : (talked 3).Fresh "d" := ⟨by decide,by decide⟩
  have hasked : Step empty (talked 1) := .append question "" ha
  have hcalled : Step (talked 1) (talked 2) := .append (callPayload ["c1"]) "" hb
  have hran : Step (talked 2) (talked 3) := .append (.tool ⟨"c1", "execute_bash", "ok", none⟩) "" hc
  have hagain : Step (talked 3) (talked 4) := .append question "" hd
  exact ⟨(((ReflTransGen.single hasked).tail hcalled).tail hran).tail hagain,
    by decide,by decide⟩

theorem freshSupply_talked : FreshSupply (talked 5) sealName := by
  obtain ⟨hreached,he⟩ := talked_reached
  have hids : (talked 5).chain.map MessageNode.id = ["a","b","c","d","e"] := by rfl
  refine ⟨?_,?_,?_⟩
  · intro i h
    have := congrArg String.toList h
    simp [sealName_toList,List.replicate_succ] at this
  · intro i
    by_contra hfound
    obtain ⟨n,hn⟩ := Option.ne_none_iff_exists'.mp hfound
    obtain ⟨hmem,hname⟩ := (find_appendAfterLeaf (run_sound sound_empty hreached) he
      (callPayload ["c2", "c3"]) "" (sealName i)).mp hn
    have hin : sealName i ∈ ["a","b","c","d","e"] := hids ▸ hname ▸ List.mem_map_of_mem hmem
    have hhead : ∀ name ∈ ["a","b","c","d","e"], name.toList.head? ≠ some 's' := by decide
    refine hhead _ hin ?_
    rw [sealName_toList]
    rfl
  · intro i k h
    have hlen := congrArg (fun s => s.toList.length) h
    simpa [sealName_toList] using hlen

theorem rewound_reached : ReflTransGen Step empty rewound := by
  obtain ⟨hreached,he⟩ := talked_reached
  have hcalled : Step (talked 4) (talked 5) := .append (callPayload ["c2", "c3"]) "" he
  have hsealed : Step (talked 5) talkedSealed := .sealCalls freshSupply_talked
  have hback : talkedSealed.rewindTo "c" = some rewound := by rfl
  exact ((hreached.tail hcalled).tail hsealed).tail (.rewind hback)

theorem message_graph_runs_keep_invariant_rewound :
    (rewound.find "ss").isSome ∧ (rewound.leaf = "" ∨ (rewound.find rewound.leaf).isSome) ∧
      ¬ TransGen (fun a b => rewound.parentOf a = some b) "ss" "ss" ∧
      ∃ old, CompletesOne rewound.chain old ∧
        (rewound.appendAfterLeaf "f" question "").chain = old ++ [⟨"f", "", question, "c"⟩] ∧
        (rewound.appendAfterLeaf "f" question "").find "ss" = none := by
  have hf : rewound.Fresh "f" := ⟨by decide,by decide⟩
  obtain ⟨hleaf,-,hacyclic,-,happend⟩ := message_graph_runs_keep_invariant .empty rewound_reached
  obtain ⟨⟨old,hold,hchain⟩,-⟩ := happend "f" question "" hf
  exact ⟨by rfl,hleaf,hacyclic "ss",old,hold,hchain,by rfl⟩

end PuCli.MessageGraph
