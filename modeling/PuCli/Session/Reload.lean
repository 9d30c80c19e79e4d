import PuCli.Core.Reread
import PuCli.Session.SessionRuns

namespace PuCli

open Json

variable {d : Doubles}

def Reasoning.reread (d : Doubles) (r : Reasoning) : Reasoning := { r with raw := r.raw.reread d }

def ToolCallRecord.reread (d : Doubles) (r : ToolCallRecord) : ToolCallRecord :=
  { r with arguments := r.arguments.reread d }

def MessagePayload.reread (d : Doubles) : MessagePayload → MessagePayload
  | .assistant p =>
      .assistant ⟨p.content, p.reasoning.map (Reasoning.reread d),
        p.toolCalls.map (ToolCallRecord.reread d)⟩
  | .user p => .user p
  | .system p => .system p
  | .tool p => .tool p

def MessageNode.reread (d : Doubles) (n : MessageNode) : MessageNode :=
  { n with payload := n.payload.reread d }

theorem Origin.rankIn_reread {j : Json} (h : ∀ q, j.get? "rank" ≠ some (.double q)) :
    rankIn (j.reread d) = rankIn j := by
  unfold Origin.rankIn
  rw [get?_reread]
  cases hr : j.get? "rank" with
  | none => rfl
  | some v =>
      cases v with
      | uint64 n =>
          by_cases hn : n < 2 ^ 63
          · simp only [Option.map_some,Json.reread,if_pos hn]
            split
            · rfl
            · omega
          · simp only [Option.map_some,Json.reread,if_neg hn]
      | double q => exact absurd hr (h q)
      | array xs => simp
      | object ms => simp
      | _ => rfl

theorem Origin.originFromJson_reread {j : Json} (h : ∀ q, j.get? "rank" ≠ some (.double q)) :
    originFromJson (j.reread d) = originFromJson j := by
  simp only [Origin.originFromJson,isObject_reread,valueOrDefault_reread,Origin.rankIn_reread h]

theorem recordFromJson_reread (j : Json) :
    recordFromJson (j.reread d) = (recordFromJson j).reread d := by
  have hargs : valueOrDefault (j.reread d) "arguments" (Json.object []) =
      (valueOrDefault j "arguments" (Json.object [])).reread d := by
    have := @valueOrDefault_json_reread d j "arguments" (Json.object [])
    simpa using this
  simp only [recordFromJson,valueOrDefault_reread,hargs,ToolCallRecord.reread]

theorem reasoningFromJson_number {j : Json} (h : Number j) :
    reasoningFromJson j = ⟨"", "", .null⟩ := by
  cases h <;> rfl

theorem reasoningFromJson_reread (j : Json) :
    reasoningFromJson (j.reread d) = (reasoningFromJson j).reread d := by
  cases j with
  | uint64 n =>
      rw [reasoningFromJson_number (Number.reread (.uint64 n)),
        reasoningFromJson_number (.uint64 n)]
      rfl
  | double q =>
      rw [reasoningFromJson_number (Number.reread (.double q)),
        reasoningFromJson_number (.double q)]
      rfl
  | array xs => simp [reasoningFromJson,Reasoning.reread,valueOrDefault,get?]
  | object ms =>
      have hraw : (((Json.object ms).reread d).get? "raw").getD .null =
          (((Json.object ms).get? "raw").getD .null).reread d := by
        rw [get?_reread]
        cases (Json.object ms).get? "raw" <;> rfl
      have ht := @valueOrDefault_reread d String _ _ (.object ms) "text" ""
      have hs := @valueOrDefault_reread d String _ _ (.object ms) "signature" ""
      rw [reread_object] at hraw ht hs ⊢
      simp only [reasoningFromJson,Reasoning.reread,hraw,ht,hs]
  | _ => rfl

theorem itemsOf_reread (j : Json) (key : String) :
    itemsOf (j.reread d) key = (itemsOf j key).map (Json.reread d) := by
  unfold itemsOf
  rw [get?_reread]
  cases j.get? key with
  | none => rfl
  | some v => simp

theorem parentMember_reread (j : Json) : parentMember (j.reread d) = parentMember j := by
  have hnone : ∀ {j v : Json}, j.get? "parent" = some v → Number v → parentMember j = none := by
    intro j v hj hv
    rw [parentMember,hj]
    cases hv <;> rfl
  have hread := @get?_reread d j "parent"
  cases hj : j.get? "parent" with
  | none =>
      rw [hj] at hread
      rw [parentMember,parentMember,hread,hj]
      rfl
  | some v =>
      rw [hj,Option.map_some] at hread
      cases v with
      | uint64 n => rw [hnone hread (Number.reread (.uint64 n)),hnone hj (.uint64 n)]
      | double q => rw [hnone hread (Number.reread (.double q)),hnone hj (.double q)]
      | array xs => simp [parentMember,hread,hj]
      | object ms => simp [parentMember,hread,hj]
      | _ =>
          rw [parentMember,parentMember,hread,hj]
          rfl

def RankWhole (j : Json) : Prop :=
  ∀ origin, j.get? "origin" = some origin → ∀ q, origin.get? "rank" ≠ some (.double q)

theorem deserializePayload_reread {j : Json} (h : RankWhole j) :
    deserializePayload (j.reread d) = (deserializePayload j).map (MessagePayload.reread d) := by
  have ho : ((j.reread d).get? "origin").bind Origin.originFromJson =
      (j.get? "origin").bind Origin.originFromJson := by
    rw [get?_reread]
    cases hv : j.get? "origin" with
    | none => rfl
    | some v => exact Origin.originFromJson_reread (h v hv)
  simp only [deserializePayload,valueOrDefault_reread,itemsOf_reread,ho,List.map_map]
  split
  · rfl
  · split
    · have hr : reasoningFromJson ∘ Json.reread d = Reasoning.reread d ∘ reasoningFromJson :=
        funext reasoningFromJson_reread
      have hc : recordFromJson ∘ Json.reread d = ToolCallRecord.reread d ∘ recordFromJson :=
        funext recordFromJson_reread
      rw [hr,hc]
      simp [MessagePayload.reread]
    · split
      · rfl
      · split
        · rfl
        · rfl

theorem deserializeNode_reread {j : Json} (h : RankWhole j) :
    deserializeNode (j.reread d) = (deserializeNode j).map (MessageNode.reread d) := by
  simp only [deserializeNode,valueOrDefault_reread,parentMember_reread,deserializePayload_reread h]
  split
  · rfl
  · cases parentMember j with
    | none => rfl
    | some parent =>
        cases deserializePayload j with
        | none => rfl
        | some payload => rfl

theorem rankWhole_serializeNode (n : MessageNode) : RankWhole (serializeNode n) := by
  intro origin ho q
  obtain ⟨id,timestamp,payload,parent⟩ := n
  cases payload with
  | user p => by_cases hp : p.fromPeer = "" <;> simp [serializeNode,payloadMembers,hp] at ho
  | system p => simp [serializeNode,payloadMembers] at ho
  | assistant p =>
      simp [serializeNode,payloadMembers,
        find_listMember_ne (show "reasoning" ≠ "origin" by decide),
        find_listMember_ne (show "tool_calls" ≠ "origin" by decide)] at ho
  | tool p =>
      cases hp : p.origin with
      | none => simp [serializeNode,payloadMembers,hp] at ho
      | some o =>
          simp only [serializeNode,payloadMembers,hp] at ho
          obtain rfl : Origin.originToJson o = origin := by simpa using ho
          simp [Origin.originToJson]

theorem MessagePayload.WellNamed.reread {p : MessagePayload} (h : p.WellNamed) :
    (p.reread d).WellNamed := by
  cases p with
  | tool p => exact h
  | _ => trivial

theorem deserializeNode_serialized {n : MessageNode} (hid : n.id ≠ "")
    (hp : n.payload.WellNamed) :
    deserializeNode ((serializeNode n).reread d) = deserializeNode (serializeNode (n.reread d)) := by
  rw [deserializeNode_reread (rankWhole_serializeNode n),deserializeNode_serializeNode hid hp]
  exact (@deserializeNode_serializeNode (n.reread d) hid hp.reread).symm

namespace MessageGraph

variable {g : MessageGraph}

def reread (d : Doubles) (g : MessageGraph) : MessageGraph :=
  ⟨g.nodes.map (fun _ n => n.reread d), g.leaf⟩

theorem find_reread (g : MessageGraph) (id : MessageId) :
    (g.reread d).find id = (g.find id).map (MessageNode.reread d) := by
  unfold find reread
  rw [Std.ExtTreeMap.getElem?_map]

theorem parentOf_reread (g : MessageGraph) : (g.reread d).parentOf = g.parentOf := by
  funext id
  unfold parentOf
  rw [find_reread]
  cases g.find id <;> rfl

theorem size_reread (g : MessageGraph) : (g.reread d).size = g.size := by
  unfold size reread
  rw [Std.ExtTreeMap.size_map]

theorem climb_reread (g : MessageGraph) (n : Nat) (start : Option MessageNode) :
    (g.reread d).climb n (start.map (MessageNode.reread d)) =
      (g.climb n start).map (MessageNode.reread d) := by
  induction n generalizing start with
  | zero => cases start <;> rfl
  | succ n ih =>
      cases start with
      | none => rfl
      | some node =>
          have hparent : (node.reread d).parent = node.parent := rfl
          simp only [Option.map_some,climb,List.map_cons,hparent]
          split
          · exact congrArg _ (ih none)
          · rw [find_reread]
            exact congrArg _ (ih _)

theorem chain_reread (g : MessageGraph) : (g.reread d).chain = g.chain.map (MessageNode.reread d) := by
  have hleaf : (g.reread d).leaf = g.leaf := rfl
  simp only [chain,size_reread,hleaf,find_reread,climb_reread,List.map_reverse]

theorem Sound.reread (h : g.Sound) : (g.reread d).Sound := by
  refine ⟨?_,?_,?_,?_,?_⟩
  · intro id n hn
    rw [find_reread] at hn
    obtain ⟨m,hm,rfl⟩ := Option.map_eq_some_iff.mp hn
    have hid : m.id = id := h.keyed hm
    exact hid
  · rw [find_reread,h.named]
    rfl
  · rw [find_reread,Option.isSome_map]
    exact h.leaf
  · intro id n hn
    rw [find_reread] at hn
    obtain ⟨m,hm,rfl⟩ := Option.map_eq_some_iff.mp hn
    have hparent : m.parent = "" ∨ (g.find m.parent).isSome = true := h.parents hm
    rw [find_reread,Option.isSome_map]
    exact hparent
  · intro id hs
    rw [find_reread] at hs
    rw [parentOf_reread]
    exact h.ends (by simpa using hs)

theorem every_reread {P : MessagePayload → Prop} (hP : ∀ p, P p → P (p.reread d))
    (hw : g.Every P) : (g.reread d).Every P := by
  intro id n hn
  rw [find_reread] at hn
  obtain ⟨m,hm,rfl⟩ := Option.map_eq_some_iff.mp hn
  exact hP _ (hw _ _ hm)

theorem foldlM_loadNode_congr {entries others : List Json}
    (h : entries.map deserializeNode = others.map deserializeNode) (nodes : NodeMap) :
    entries.foldlM loadNode nodes = others.foldlM loadNode nodes := by
  induction entries generalizing others nodes with
  | nil =>
      have : others = [] := by simpa using h.symm
      rw [this]
  | cons entry entries ih =>
      cases others with
      | nil => simp at h
      | cons other others =>
          simp only [List.map_cons,List.cons.injEq] at h
          have hone : loadNode nodes entry = loadNode nodes other := by
            simp only [loadNode,h.1]
          rw [List.foldlM_cons,List.foldlM_cons,hone]
          exact congrArg _ (funext (ih h.2))

theorem deserialize_serialize_reread (h : g.Sound) (hw : g.WellNamed) :
    deserialize (g.serialize.reread d) = some (g.reread d) := by
  have hentries : ((g.nodes.toList.map (fun entry => serializeNode entry.2)).map (Json.reread d)).map
      deserializeNode = ((g.reread d).nodes.toList.map (fun entry => serializeNode entry.2)).map
        deserializeNode := by
    unfold MessageGraph.reread
    rw [Std.ExtTreeMap.toList_map]
    simp only [List.map_map]
    refine List.map_congr_left ?_
    rintro ⟨k,n⟩ hn
    have hk : g.find k = some n := Std.ExtTreeMap.mem_toList_iff_getElem?_eq_some.mp hn
    have hid : n.id ≠ "" := by
      intro hc
      rw [← h.keyed hk,hc,h.named] at hk
      simp at hk
    exact deserializeNode_serialized hid (hw _ _ hk)
  have hload := foldlM_loadNode_congr hentries ∅
  have hold := @deserialize_serialize (g.reread d) h.reread
    (every_reread (fun _ hp => hp.reread) hw)
  rw [← hold]
  have hget₁ : (g.reread d).serialize.get? "nodes" =
      some (.array ((g.reread d).nodes.toList.map (fun entry => serializeNode entry.2))) := rfl
  have hget₂ : (g.reread d).serialize.get? "leaf" = some (.string g.leaf) := rfl
  have hget₃ : g.serialize.get? "nodes" =
      some (.array (g.nodes.toList.map (fun entry => serializeNode entry.2))) := rfl
  have hget₄ : g.serialize.get? "leaf" = some (.string g.leaf) := rfl
  simp only [deserialize,get?_reread,hget₁,hget₂,hget₃,hget₄,Option.map_some,reread_array,
    reread_string,hload]

end MessageGraph

namespace SessionSpec

def reread (d : Doubles) (spec : SessionSpec) : SessionSpec :=
  { spec with overrides := spec.overrides.map (fun _ v => v.reread d) }

theorem reread_ne_null {v : Json} (h : v ≠ .null) : v.reread d ≠ .null := by
  have hnumber : ∀ {v : Json}, Number v → v ≠ .null := by
    intro v hv
    cases hv <;> simp
  cases v with
  | null => exact absurd rfl h
  | uint64 n => exact hnumber (Number.reread (.uint64 n))
  | double q => exact hnumber (Number.reread (.double q))
  | _ => simp

theorem Clean.reread {overrides : Overrides} (h : Clean overrides) :
    Clean (overrides.map (fun _ v => v.reread d)) := by
  constructor
  · intro k v hv
    rw [Std.ExtTreeMap.getElem?_map] at hv
    obtain ⟨w,hw,_⟩ := Option.map_eq_some_iff.mp hv
    exact h.named hw
  · intro k v hv
    rw [Std.ExtTreeMap.getElem?_map] at hv
    obtain ⟨w,hw,rfl⟩ := Option.map_eq_some_iff.mp hv
    exact reread_ne_null (h.valued hw)

theorem serialize_reread {spec : SessionSpec} (h : Clean spec.overrides) :
    spec.serialize.reread d = (spec.reread d).serialize := by
  rw [serialize_eq h,@serialize_eq (spec.reread d) h.reread]
  simp only [reread,Std.ExtTreeMap.toList_map]
  simp

end SessionSpec

namespace UsageLedger

theorem costFromJson_reread (j : Json) : costFromJson (j.reread d) = costFromJson j := by
  have hnumber : ∀ {j v : Json}, j.get? "cost" = some v → Number v → costFromJson j = none := by
    intro j v hj hv
    rw [costFromJson,hj]
    cases hv <;> rfl
  have hread := @get?_reread d j "cost"
  cases hj : j.get? "cost" with
  | none =>
      rw [hj] at hread
      rw [costFromJson,costFromJson,hread,hj]
      rfl
  | some v =>
      rw [hj,Option.map_some] at hread
      cases v with
      | uint64 n => rw [hnumber hread (Number.reread (.uint64 n)),hnumber hj (.uint64 n)]
      | double q => rw [hnumber hread (Number.reread (.double q)),hnumber hj (.double q)]
      | array xs => simp [costFromJson,hread,hj]
      | object ms =>
          have ha := @valueOrDefault_reread d Double _ _ (.object ms) "amount" 0
          have hu := @valueOrDefault_reread d String _ _ (.object ms) "unit" ""
          rw [reread_object] at ha hu
          simp only [costFromJson,hread,hj,reread_object,ha,hu]
      | _ =>
          rw [costFromJson,costFromJson,hread,hj]
          rfl

theorem loadEntry_reread (ledger : UsageLedger) (member : String × Json) :
    loadEntry ledger (member.1, member.2.reread d) = loadEntry ledger member := by
  simp only [loadEntry,isObject_reread,entryFromJson,valueOrDefault_reread,costFromJson_reread]

theorem deserialize_reread (members : List (String × Json)) :
    deserialize ((Json.object members).reread d) = deserialize (.object members) := by
  rw [reread_object]
  simp only [deserialize,asObject,List.foldl_map,loadEntry_reread]

end UsageLedger

namespace Session

variable {text : JsonText} {chars : ToChars} {s s' : Session}

def reread (d : Doubles) (s : Session) : Session :=
  ⟨⟨s.conversation.graph.reread d⟩, s.spec.reread d, s.usage.keepOnly s.live⟩

def savedText (text : JsonText) (chars : ToChars) (s : Session) : String :=
  s.serialize.prettyPrint text chars

def loadSession (text : JsonText) (file : String) : Option Session :=
  (text.parse file).bind deserialize

theorem deserialize_serialize_reread (h : s.Sound) :
    deserialize (s.serialize.reread d) = some (s.reread d) := by
  have hgraph := @MessageGraph.deserialize_serialize_reread d _ h.graph h.origins
  have hspec : SessionSpec.deserialize (s.spec.serialize.reread d) = some (s.spec.reread d) := by
    rw [SessionSpec.serialize_reread h.overrides]
    exact @SessionSpec.deserialize_serialize (s.spec.reread d) h.overrides.reread
  have hkept := UsageLedger.keyed_keepOnly h.usage s.live
  have hpruned := UsageLedger.foldl_record_toList hkept
  have husage := UsageLedger.deserialize_serialize hkept
  have hconv : s.conversation.serialize.get? "history" = some s.conversation.graph.serialize := rfl
  have hob : s.conversation.graph.serialize.isObject = true := rfl
  have hload : Conversation.deserialize (s.conversation.serialize.reread d) =
      some ⟨s.conversation.graph.reread d⟩ := by
    simp only [Conversation.deserialize,get?_reread,hconv,Option.map_some,hgraph]
  simp only [serialize,hpruned]
  by_cases he : (s.usage.keepOnly s.live).isEmpty
  · have hempty : s.usage.keepOnly s.live = ∅ := Std.ExtTreeMap.isEmpty_iff.mp he
    simp [deserialize,hasKey,valueOrDefault,hconv,hob,hload,hspec,hempty,reread]
  · have hread : UsageLedger.deserialize
        ((UsageLedger.serialize (s.usage.keepOnly s.live)).reread d) =
          s.usage.keepOnly s.live :=
      (UsageLedger.deserialize_reread _).trans husage
    simp [deserialize,hasKey,valueOrDefault,hconv,hob,hload,hspec,he,hread,reread]

theorem loadSession_saved (h : s.Sound) (hr : text.ReadsPretty chars s.serialize) :
    loadSession text (s.savedText text chars) = some (s.reread chars.toDoubles) := by
  rw [loadSession,savedText,hr]
  exact deserialize_serialize_reread h

inductive Kept (text : JsonText) (chars : ToChars) : Session → Prop
  | new : Kept text chars {}
  | step {s s' : Session} : Kept text chars s → Step text s s' → Kept text chars s'
  | reload {s s' : Session} : Kept text chars s → text.ReadsPretty chars s.serialize →
      loadSession text (s.savedText text chars) = some s' → Kept text chars s'

theorem Sound.reread (h : s.Sound) : (s.reread d).Sound :=
  ⟨h.graph.reread,MessageGraph.every_reread (fun _ hp => hp.reread) h.origins,h.overrides.reread,
    UsageLedger.keyed_keepOnly h.usage s.live⟩

theorem kept_sound (h : Kept text chars s) : s.Sound := by
  induction h with
  | new => exact sound_new
  | step _ hs ih => exact step_sound ih hs
  | reload _ hr hl ih =>
      rw [loadSession_saved ih hr] at hl
      obtain rfl := Option.some.inj hl
      exact ih.reread

theorem kept_every {P : MessagePayload → Prop} (hP : MessageGraph.Settled P)
    (happend : ∀ msg, P (toPayload text msg)) (hreread : ∀ p, P p → P (p.reread chars.toDoubles))
    (h : Kept text chars s) : s.conversation.graph.Every P := by
  induction h with
  | new => exact MessageGraph.every_empty
  | step hk hs ih => exact step_every hP happend (kept_sound hk) ih hs
  | reload hk hr hl ih =>
      rw [loadSession_saved (kept_sound hk) hr] at hl
      obtain rfl := Option.some.inj hl
      exact MessageGraph.every_reread hreread ih

theorem session_save_load_round_trip (h : Kept text chars s) :
    ∃ loaded, deserialize s.serialize = some loaded ∧
      loaded.conversation.graph = s.conversation.graph ∧
      loaded.spec.agentName = s.spec.agentName ∧ loaded.spec.overrides = s.spec.overrides ∧
      ∀ id, loaded.usage[id]? =
        if id ∈ s.conversation.chain.map MessageNode.id then s.usage[id]? else none := by
  refine ⟨_,deserialize_serialize (kept_sound h),rfl,rfl,rfl,?_⟩
  intro id
  exact UsageLedger.getElem?_keepOnly s.usage s.live id

def pageOne : List (String × Json) :=
  [("buffer", .object [("id", .string "o1"), ("source", .string "s1"), ("rank", .uint64 1)])]

def pageText : JsonText := reading ⟨.plain, fun _ => ""⟩ .null [pageOne]

def calling : Json :=
  .array [toolCallToJson ⟨"c1", "execute_bash", .object [("command", .string "ls")], .pending⟩]

-- A peer's question, a call, its page, and a question of the user's own.
def asked : ChatMessage := { role := .user, content := "hi", fromPeer := "B" }

def called : ChatMessage :=
  { role := .assistant, reasoning := [⟨"hm", "sig", .object []⟩], toolCalls := calling }

def paged : ChatMessage :=
  { role := .tool, toolCallId := "c1", content := compact (.object pageOne) }

def again : ChatMessage := { role := .user, content := "more" }

def exchange : List (MessageId × ChatMessage) :=
  [("a", asked), ("b", called), ("c", paged), ("d", again)]

def talked (n : Nat) : Conversation :=
  (exchange.take n).foldl (fun c m => c.append pageText m.1 m.2) .new

def takenBack : Conversation := ⟨{ (talked 4).graph with leaf := "c" }⟩

def billed (nodeId : String) : TurnUsage := ⟨nodeId, 2, 10, 5, 0, some ⟨1, "USD"⟩, "m", "openai"⟩

def talkedTo : Session :=
  Session.storeSetting
    { conversation := takenBack
      spec := { agentName := "dev" }
      usage := ((∅ : UsageLedger).record (billed "b")).record (billed "d") }
    "tool_budget" (.int64 5)

theorem talkedTo_kept : Kept pageText chars talkedTo := by
  have hrewound : (talked 4).rewindBefore 4 = .ok (true, takenBack) := by rfl
  have hbudget : parseSetting "tool_budget" (.int64 5) = .ok (.int64 5) := by rfl
  have ha : (talked 0).graph.Fresh "a" := ⟨by decide,by decide⟩
  have hb : (talked 1).graph.Fresh "b" := ⟨by decide,by decide⟩
  have hc : (talked 2).graph.Fresh "c" := ⟨by decide,by decide⟩
  have hd : (talked 3).graph.Fresh "d" := ⟨by decide,by decide⟩
  have hnamed : Kept pageText chars { spec := { agentName := "dev" } } :=
    .step .new (.nameAgent "dev")
  have hasked := hnamed.step (.append asked ha)
  have hcalled := hasked.step (.append called hb)
  have hpaged := hcalled.step (.append paged hc)
  have hagain := hpaged.step (.append again hd)
  have htaken := hagain.step (.rewind hrewound)
  exact ((htaken.step (.recordUsage (billed "b"))).step (.recordUsage (billed "d"))).step
    (.setSetting hbudget)

theorem session_save_load_round_trip_talked :
    ∃ loaded, deserialize talkedTo.serialize = some loaded ∧
      loaded.conversation.graph = talkedTo.conversation.graph ∧
      (loaded.conversation.graph.find "d").isSome ∧
      loaded.spec.agentName = "dev" ∧ loaded.spec.overrides["tool_budget"]? = some (.int64 5) ∧
      loaded.usage["b"]? = some (billed "b") ∧ loaded.usage["d"]? = none := by
  have hkept : Kept pageText ⟨.plain, fun _ => ""⟩ talkedTo := talkedTo_kept
  obtain ⟨loaded,hload,hgraph,hagent,hoverrides,husage⟩ := session_save_load_round_trip hkept
  have hchain : talkedTo.conversation.chain.map MessageNode.id = ["a","b","c"] := by rfl
  refine ⟨loaded,hload,hgraph,?_,hagent,?_,?_,?_⟩
  · rw [hgraph]
    rfl
  · rw [hoverrides]
    rfl
  · rw [husage,hchain]
    rfl
  · rw [husage,hchain]
    rfl

end Session

end PuCli
