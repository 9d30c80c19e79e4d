import PuCli.Library.Tree
import PuCli.Session.LinksResolve
import PuCli.Session.GraphSeal

namespace PuCli

open Json

def recordToJson (r : ToolCallRecord) : Json :=
  .object [("id", .string r.id), ("name", .string r.name), ("arguments", r.arguments),
    ("status", .string (toolCallStatusName r.status))]

def recordFromJson (j : Json) : ToolCallRecord :=
  ⟨valueOrDefault j "id" "", valueOrDefault j "name" "",
    valueOrDefault j "arguments" (Json.object []), statusFrom (valueOrDefault j "status" "")⟩

@[simp] theorem recordFromJson_recordToJson (r : ToolCallRecord) :
    recordFromJson (recordToJson r) = r := by
  simp [recordFromJson,recordToJson,valueOrDefault]

def listMember (key : String) (items : List Json) : List (String × Json) :=
  if items.isEmpty then [] else [(key, .array items)]

def payloadMembers : MessagePayload → List (String × Json)
  | .user p =>
      [("role", .string "user"), ("content", .string p.content)] ++
        if p.fromPeer = "" then [] else [("from_peer", .string p.fromPeer)]
  | .assistant p =>
      [("role", .string "assistant"), ("content", .string p.content)] ++
        (listMember "reasoning" (p.reasoning.map reasoningToJson) ++
          listMember "tool_calls" (p.toolCalls.map recordToJson))
  | .system p => [("role", .string "system"), ("content", .string p.content)]
  | .tool p =>
      [("role", .string "tool"), ("content", .string p.content),
        ("tool_call_id", .string p.toolCallId), ("tool_name", .string p.toolName)] ++
        match p.origin with
        | none => []
        | some o => [("origin", Origin.originToJson o)]

def serializeNode (n : MessageNode) : Json :=
  .object ([("id", .string n.id), ("timestamp", .string n.timestamp),
    ("parent", .string n.parent)] ++ payloadMembers n.payload)

def itemsOf (j : Json) (key : String) : List Json := ((j.get? key).getD .null).asArray

def deserializePayload (j : Json) : Option MessagePayload :=
  let role := valueOrDefault j "role" ""
  let content := valueOrDefault j "content" ""
  if role = "user" then some (.user ⟨content, valueOrDefault j "from_peer" ""⟩)
  else if role = "assistant" then
    some (.assistant ⟨content, (itemsOf j "reasoning").map reasoningFromJson,
      (itemsOf j "tool_calls").map recordFromJson⟩)
  else if role = "system" then some (.system ⟨content⟩)
  else if role = "tool" then
    some (.tool ⟨valueOrDefault j "tool_call_id" "", valueOrDefault j "tool_name" "", content,
      (j.get? "origin").bind Origin.originFromJson⟩)
  else none

def parentMember (j : Json) : Option MessageId :=
  match j.get? "parent" with
  | none => some ""
  | some (.string parent) => some parent
  | some _ => none

def deserializeNode (j : Json) : Option MessageNode := do
  let id := valueOrDefault j "id" ""
  if id = "" then none
  else
    let parent ← parentMember j
    let payload ← deserializePayload j
    some ⟨id, valueOrDefault j "timestamp" "", payload, parent⟩

def MessagePayload.WellNamed : MessagePayload → Prop
  | .tool p => ∀ o, p.origin = some o → o.Named
  | _ => True

@[simp] theorem map_recordFromJson_map_recordToJson (rs : List ToolCallRecord) :
    rs.map (recordFromJson ∘ recordToJson) = rs := by
  have h : recordFromJson ∘ recordToJson = id := funext recordFromJson_recordToJson
  rw [h,List.map_id]

@[simp] theorem map_reasoningFromJson_map_reasoningToJson (rs : List Reasoning) :
    rs.map (reasoningFromJson ∘ reasoningToJson) = rs := by
  have h : reasoningFromJson ∘ reasoningToJson = id := funext reasoningFromJson_reasoningToJson
  rw [h,List.map_id]

theorem find_listMember (key k : String) (items : List Json) :
    ((find (listMember key items) k).getD .null).asArray = if key = k then items else [] := by
  cases items with
  | nil => simp [listMember,asArray]
  | cons x xs => by_cases hk : key = k <;> simp [listMember,hk,asArray]

theorem find_listMember_ne {key k : String} (hk : key ≠ k) (items : List Json) :
    find (listMember key items) k = none := by
  unfold listMember
  split <;> simp [hk]

theorem deserializePayload_members {p : MessagePayload} (hp : p.WellNamed)
    (id timestamp parent : String) :
    deserializePayload (.object ([("id", .string id), ("timestamp", .string timestamp),
      ("parent", .string parent)] ++ payloadMembers p)) = some p := by
  cases p with
  | user p =>
      obtain ⟨content,peer⟩ := p
      by_cases h : peer = "" <;>
        simp [deserializePayload,payloadMembers,valueOrDefault,h]
  | assistant p =>
      obtain ⟨content,reasoning,calls⟩ := p
      have hr := find_listMember "reasoning" "reasoning" (reasoning.map reasoningToJson)
      have hc := find_listMember "tool_calls" "tool_calls" (calls.map recordToJson)
      simp only [if_true] at hr hc
      simp [deserializePayload,payloadMembers,valueOrDefault,itemsOf,hr,hc,
        find_listMember_ne (show "reasoning" ≠ "tool_calls" by decide),
        find_listMember_ne (show "tool_calls" ≠ "reasoning" by decide)]
  | system p => simp [deserializePayload,payloadMembers,valueOrDefault]
  | tool p =>
      obtain ⟨callId,name,content,origin⟩ := p
      cases origin with
      | none => simp [deserializePayload,payloadMembers,valueOrDefault]
      | some o =>
          simp [deserializePayload,payloadMembers,valueOrDefault,
            Origin.originFromJson_originToJson (hp o rfl)]

theorem deserializeNode_serializeNode {n : MessageNode} (hid : n.id ≠ "")
    (hp : n.payload.WellNamed) : deserializeNode (serializeNode n) = some n := by
  have hpay := deserializePayload_members hp n.id n.timestamp n.parent
  simp only [deserializeNode,serializeNode,hpay]
  simp [parentMember,valueOrDefault,hid]

theorem deserializePayload_wellNamed {j : Json} {p : MessagePayload}
    (h : deserializePayload j = some p) : p.WellNamed := by
  unfold deserializePayload at h
  dsimp only at h
  split at h
  · obtain rfl := Option.some.inj h
    trivial
  · split at h
    · obtain rfl := Option.some.inj h
      trivial
    · split at h
      · obtain rfl := Option.some.inj h
        trivial
      · split at h
        · obtain rfl := Option.some.inj h
          intro o ho
          obtain ⟨v,_,hv⟩ := Option.bind_eq_some_iff.mp ho
          exact Origin.originFromJson_named hv
        · simp at h

theorem deserializeNode_spec {j : Json} {n : MessageNode} (h : deserializeNode j = some n) :
    n.id ≠ "" ∧ n.payload.WellNamed := by
  unfold deserializeNode at h
  dsimp only at h
  split at h
  · simp at h
  · next hid =>
      obtain ⟨parent,_,h⟩ := Option.bind_eq_some_iff.mp h
      obtain ⟨payload,hp,h⟩ := Option.bind_eq_some_iff.mp h
      obtain rfl := Option.some.inj h
      exact ⟨hid,deserializePayload_wellNamed hp⟩

namespace MessageGraph

variable {g : MessageGraph}

def loadNode (nodes : NodeMap) (entry : Json) : Option NodeMap :=
  match deserializeNode entry with
  | none => none
  | some node => if nodes.contains node.id then none else some (nodes.insert node.id node)

def serialize (g : MessageGraph) : Json :=
  .object [("nodes", .array (g.nodes.toList.map (fun entry => serializeNode entry.2))),
    ("leaf", .string g.leaf)]

def deserialize (j : Json) : Option MessageGraph :=
  match j.get? "nodes", j.get? "leaf" with
  | some (.array entries), some (.string leaf) =>
      match entries.foldlM loadNode ∅ with
      | none => none
      | some nodes =>
          if leaf ≠ "" ∧ nodes[leaf]? = none then none
          else if (MessageGraph.mk nodes "").linksResolve then some ⟨nodes, leaf⟩
          else none
  | _, _ => none

structure Loaded (nodes : NodeMap) : Prop where
  keyed : ∀ {k : MessageId} {n : MessageNode}, nodes[k]? = some n → n.id = k
  named : ∀ {k : MessageId} {n : MessageNode}, nodes[k]? = some n → n.id ≠ ""
  origins : ∀ {k : MessageId} {n : MessageNode}, nodes[k]? = some n → n.payload.WellNamed

theorem loadNode_loaded {nodes nodes' : NodeMap} {entry : Json} (h : Loaded nodes)
    (hl : loadNode nodes entry = some nodes') : Loaded nodes' := by
  unfold loadNode at hl
  split at hl
  · simp at hl
  · next node hnode =>
      split at hl
      · simp at hl
      · obtain rfl := Option.some.inj hl
        obtain ⟨hid,hp⟩ := deserializeNode_spec hnode
        have step : ∀ {k : MessageId} {n : MessageNode}, (nodes.insert node.id node)[k]? = some n →
            (node.id = k ∧ n = node) ∨ nodes[k]? = some n := by
          intro k n hn
          rw [Std.ExtTreeMap.getElem?_insert] at hn
          split at hn
          · next hk => exact .inl ⟨compare_eq_iff_eq.mp hk,(Option.some.inj hn).symm⟩
          · exact .inr hn
        refine ⟨?_,?_,?_⟩ <;> intro k n hn <;> rcases step hn with ⟨hk,rfl⟩ | hn
        · exact hk
        · exact h.keyed hn
        · exact hid
        · exact h.named hn
        · exact hp
        · exact h.origins hn

theorem foldlM_loadNode_loaded {entries : List Json} {nodes nodes' : NodeMap} (h : Loaded nodes)
    (hl : entries.foldlM loadNode nodes = some nodes') : Loaded nodes' := by
  induction entries generalizing nodes with
  | nil =>
      obtain rfl := Option.some.inj hl
      exact h
  | cons e es ih =>
      rw [List.foldlM_cons] at hl
      obtain ⟨mid,he,hl⟩ := Option.bind_eq_some_iff.mp hl
      exact ih (loadNode_loaded h he) hl

def WellNamed (g : MessageGraph) : Prop := ∀ id n, g.find id = some n → n.payload.WellNamed

theorem deserialize_spec {j : Json} (h : deserialize j = some g) : g.Sound ∧ g.WellNamed := by
  unfold deserialize at h
  split at h
  · split at h
    · simp at h
    · next nodes hn =>
        have hl := foldlM_loadNode_loaded ⟨by simp,by simp,by simp⟩ hn
        split at h
        · simp at h
        · next hleaf =>
            split at h
            · next hr =>
                obtain rfl := Option.some.inj h
                have hnone : nodes[""]? = none := by
                  by_contra hc
                  obtain ⟨n,hn⟩ := Option.ne_none_iff_exists'.mp hc
                  exact hl.named hn (hl.keyed hn)
                have hs : (MessageGraph.mk nodes "").Sound :=
                  sound_of_linksResolve hl.keyed hnone (.inl rfl) hr
                refine ⟨⟨hs.keyed,hs.named,?_,hs.parents,hs.ends⟩,fun _ _ => hl.origins⟩
                rcases not_and_or.mp hleaf with he | he
                · exact .inl (not_not.mp he)
                · exact .inr (Option.isSome_iff_ne_none.mpr he)
            · simp at h
  · simp at h

theorem loadNode_serializeNode {m : NodeMap} {n : MessageNode} (hid : n.id ≠ "")
    (hp : n.payload.WellNamed) (hm : m[n.id]? = none) :
    loadNode m (serializeNode n) = some (m.insert n.id n) := by
  have hfree : m.contains n.id = false := by
    rw [Std.ExtTreeMap.contains_eq_isSome_getElem?,hm]
    rfl
  simp only [loadNode,deserializeNode_serializeNode hid hp,hfree,Bool.false_eq_true,if_false]

theorem deserialize_serialize (h : g.Sound) (hw : g.WellNamed) :
    deserialize g.serialize = some g := by
  have hm : (g.nodes.toList.map (fun entry => serializeNode entry.2)).foldlM loadNode ∅ =
      some g.nodes := by
    refine Tree.foldlM_toList g.nodes ?_
    intro k n hn m hfree
    have hid : n.id = k := h.keyed hn
    have hne : n.id ≠ "" := by
      intro hc
      rw [← hid,hc] at hn
      rw [show g.nodes[""]? = none from h.named] at hn
      simp at hn
    rw [← hid] at hfree ⊢
    exact loadNode_serializeNode hne (hw _ _ hn) hfree
  have hleaf : ¬ (g.leaf ≠ "" ∧ g.nodes[g.leaf]? = none) := by
    rintro ⟨hne,hnone⟩
    have := h.leaf.resolve_left hne
    rw [show g.find g.leaf = none from hnone] at this
    simp at this
  have hr : (MessageGraph.mk g.nodes "").linksResolve = true :=
    linksResolve_of_sound ⟨h.keyed,h.named,.inl rfl,h.parents,h.ends⟩
  have hget₁ : g.serialize.get? "nodes" =
      some (.array (g.nodes.toList.map (fun entry => serializeNode entry.2))) := rfl
  have hget₂ : g.serialize.get? "leaf" = some (.string g.leaf) := rfl
  simp only [deserialize,hget₁,hget₂,hm,if_neg hleaf,hr,if_true]

end MessageGraph

end PuCli
