import PuCli.Core.Depth
import PuCli.Session.Reload

namespace PuCli

open Json

variable {n : Nat}

def Reasoning.Within (n : Nat) (r : Reasoning) : Prop := r.raw.Readable n

def ToolCall.Within (n : Nat) (call : ToolCall) : Prop := call.arguments.Readable n

def ToolCallRecord.Within (n : Nat) (r : ToolCallRecord) : Prop := r.arguments.Readable n

structure AssistantPayload.Within (n : Nat) (p : AssistantPayload) : Prop where
  reasoning : ∀ r ∈ p.reasoning, r.Within n
  toolCalls : ∀ c ∈ p.toolCalls, c.Within n

def MessagePayload.Within (n : Nat) : MessagePayload → Prop
  | .assistant p => p.Within n
  | _ => True

def SessionSpec.Within (n : Nat) (spec : SessionSpec) : Prop :=
  ∀ (k : String) (v : Json), spec.overrides[k]? = some v → v.Readable n

theorem readable_recordToJson (r : ToolCallRecord) :
    (recordToJson r).Readable (n + 1) ↔ r.Within n := by
  simp [recordToJson,ToolCallRecord.Within]

theorem readable_reasoningToJson (r : Reasoning) :
    (reasoningToJson r).Readable (n + 1) ↔ r.Within n := by
  obtain ⟨text,signature,raw⟩ := r
  by_cases hs : signature = "" <;> by_cases hr : raw = Json.null <;>
    simp [reasoningToJson,Reasoning.Within,hs,hr]

theorem readable_originToJson (o : Origin) : (Origin.originToJson o).Readable (n + 1) := by
  simp [Origin.originToJson]

theorem readable_listMember {α : Type} {P : α → Prop} {f : α → Json} (key : String) (items : List α)
    (hf : ∀ a, (f a).Readable n ↔ P a) :
    (∀ m ∈ listMember key (items.map f), m.2.Readable (n + 1)) ↔ ∀ a ∈ items, P a := by
  unfold listMember
  split
  · next hnil =>
      obtain rfl : items = [] := by simpa using hnil
      simp
  · simp [hf]

theorem readable_payloadMembers (p : MessagePayload) :
    (∀ m ∈ payloadMembers p, m.2.Readable (n + 2)) ↔ p.Within n := by
  cases p with
  | user p =>
      by_cases hp : p.fromPeer = "" <;> simp [payloadMembers,MessagePayload.Within,hp]
  | system p => simp [payloadMembers,MessagePayload.Within]
  | tool p =>
      cases ho : p.origin with
      | none => simp [payloadMembers,MessagePayload.Within,ho]
      | some o =>
          have hdepth := @readable_originToJson (n + 1) o
          simp [payloadMembers,MessagePayload.Within,ho,hdepth]
  | assistant p =>
      have hr := readable_listMember "reasoning" p.reasoning (@readable_reasoningToJson n)
      have hc := readable_listMember "tool_calls" p.toolCalls (@readable_recordToJson n)
      rw [payloadMembers,List.forall_mem_append,List.forall_mem_append,hr,hc]
      simp only [List.forall_mem_cons,readable_string,List.not_mem_nil,false_imp_iff,
        implies_true,true_and]
      exact ⟨fun h => ⟨h.1,h.2⟩,fun h => ⟨h.reasoning,h.toolCalls⟩⟩

theorem readable_serializeNode (node : MessageNode) :
    (serializeNode node).Readable (n + 3) ↔ node.payload.Within n := by
  rw [serializeNode,readable_object,List.forall_mem_append,readable_payloadMembers]
  simp

theorem MessageGraph.readable_serialize (g : MessageGraph) :
    g.serialize.Readable (n + 5) ↔ g.Every (MessagePayload.Within n) := by
  have hentries := Tree.forall_mem_toList (fun _ (node : MessageNode) => node.payload.Within n) g.nodes
  refine Iff.trans ?_ hentries
  rw [serialize,readable_object,List.forall_mem_cons,readable_array,List.forall_mem_map]
  simp only [readable_serializeNode]
  simp

theorem Conversation.readable_serialize (c : Conversation) :
    c.serialize.Readable (n + 6) ↔ c.graph.Every (MessagePayload.Within n) := by
  rw [← MessageGraph.readable_serialize]
  simp [serialize]

theorem SessionSpec.readable_serialize {spec : SessionSpec} (h : Clean spec.overrides) :
    spec.serialize.Readable (n + 1) ↔ spec.Within n := by
  have hentries := Tree.forall_mem_toList (fun _ (v : Json) => v.Readable n) spec.overrides
  refine Iff.trans ?_ hentries
  rw [serialize_eq h,readable_object,List.forall_mem_cons,List.forall_mem_map]
  simp

def Cost.Finite (cost : Cost) : Prop := cost.amount.isFinite = true

def TurnUsage.Finite (usage : TurnUsage) : Prop := ∀ cost, usage.cost = some cost → cost.Finite

namespace UsageLedger

theorem readable_costMember (usage : TurnUsage) :
    (∀ m ∈ costMember usage, m.2.Readable (n + 1)) ↔ usage.Finite := by
  unfold costMember TurnUsage.Finite
  split
  · next hnone => simp [hnone]
  · next cost hsome => simp [hsome,Cost.Finite]

theorem readable_toJson (usage : TurnUsage) : (toJson usage).Readable (n + 2) ↔ usage.Finite := by
  rw [toJson,readable_object,List.forall_mem_append,readable_costMember]
  simp

theorem readable_dropMember {members : List (String × Json)} (key value : String)
    (h : ∀ m ∈ members, m.2.Readable n) : ∀ m ∈ dropMember key value members, m.2.Readable n := by
  intro m hm
  unfold dropMember at hm
  split at hm
  · exact h m (mem_of_mem_erase hm)
  · exact h m hm

-- A price stays in the entry, whichever names are left out of it.
theorem cost_mem_entry {usage : TurnUsage} {cost : Cost} (h : usage.cost = some cost) :
    ("cost", .object [("amount", .double cost.amount), ("unit", .string cost.unit)]) ∈
      dropMember "gateway" usage.gateway (dropMember "model" usage.model
        (toJson usage).asObject) := by
  by_cases hm : usage.model = "" <;> by_cases hg : usage.gateway = "" <;>
    simp [toJson,costMember,h,dropMember,erase,asObject,hm,hg]

theorem readable_entryToJson (nodeId : String) (usage : TurnUsage) :
    (entryToJson nodeId usage).Readable (n + 2) ↔ usage.Finite := by
  rw [entryToJson,readable_object,List.forall_mem_append]
  constructor
  · rintro ⟨hentry,-⟩ cost hcost
    simpa [Cost.Finite] using hentry _ (cost_mem_entry hcost)
  · intro h
    have hentry : ∀ m ∈ (toJson usage).asObject, m.2.Readable (n + 1) :=
      (readable_object _).mp ((readable_toJson usage).mpr h)
    exact ⟨readable_dropMember _ _ (readable_dropMember _ _ hentry),by simp⟩

theorem readable_serialize (ledger : UsageLedger) :
    (serialize ledger).Readable (n + 3) ↔
      ∀ (k : String) (usage : TurnUsage), ledger[k]? = some usage → usage.Finite := by
  rw [serialize,readable_object,List.forall_mem_map]
  simp only [readable_entryToJson]
  exact Tree.forall_mem_toList (fun _ usage => usage.Finite) ledger

end UsageLedger

def kArgumentsDepth : Nat := 25

def kOverrideDepth : Nat := 30

def Session.PricesFinite (s : Session) : Prop :=
  ∀ id ∈ s.live, ∀ usage : TurnUsage, s.usage[id]? = some usage → usage.Finite

theorem Session.pricesFinite_iff (s : Session) :
    s.PricesFinite ↔ ∀ (k : String) (usage : TurnUsage),
      (s.usage.keepOnly s.live)[k]? = some usage → usage.Finite := by
  simp only [UsageLedger.getElem?_keepOnly]
  constructor
  · intro h k usage hk
    split at hk
    · next hlive => exact h k hlive usage hk
    · cases hk
  · intro h id hid usage hu
    exact h id usage (by rw [if_pos hid,hu])

theorem Session.readable_serialize {s : Session} (ho : SessionSpec.Clean s.spec.overrides)
    (hu : UsageLedger.Keyed s.usage) :
    s.serialize.Readable kMaxDepth ↔
      s.conversation.graph.Every (MessagePayload.Within kArgumentsDepth) ∧
        s.spec.Within kOverrideDepth ∧ s.PricesFinite := by
  have hconv := @Conversation.readable_serialize 25 s.conversation
  have hspec := @SessionSpec.readable_serialize 30 s.spec ho
  have husage := @UsageLedger.readable_serialize 28 (s.usage.keepOnly s.live)
  have hpruned := UsageLedger.foldl_record_toList (UsageLedger.keyed_keepOnly hu s.live)
  rw [kArgumentsDepth,kOverrideDepth,← hconv,← hspec,Session.pricesFinite_iff,← husage,serialize]
  refine (@readable_object 31 _).trans ?_
  rw [hpruned]
  split
  · next hempty =>
      have hnone : s.usage.keepOnly s.live = ∅ := Std.ExtTreeMap.isEmpty_iff.mp hempty
      rw [hnone]
      simp [UsageLedger.serialize]
  · simp

end PuCli
