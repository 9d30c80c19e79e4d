import PuCli.Library.Tree
import PuCli.Core.Json

namespace PuCli

open Json

structure Cost where
  amount : Double
  unit : String
  deriving DecidableEq

structure TokenUsage where
  promptTokens : Int32 := 0
  completionTokens : Int32 := 0
  totalTokens : Int32 := 0
  cachedTokens : Int32 := 0
  cost : Option Cost := none
  deriving DecidableEq

structure TurnUsage where
  nodeId : String
  rounds : Int32
  promptTokens : Int32
  completionTokens : Int32
  cachedTokens : Int32
  cost : Option Cost
  model : String
  gateway : String
  deriving DecidableEq

abbrev UsageLedger := Std.ExtTreeMap String TurnUsage compare

namespace UsageLedger

def record (ledger : UsageLedger) (usage : TurnUsage) : UsageLedger :=
  if usage.nodeId = "" then ledger else ledger.insert usage.nodeId usage

def keepOnly (ledger : UsageLedger) (live : List String) : UsageLedger :=
  ledger.filter (fun nodeId _ => nodeId ∈ live)

def costMember (usage : TurnUsage) : List (String × Json) :=
  match usage.cost with
  | none => []
  | some cost => [("cost", .object [("amount", .double cost.amount), ("unit", .string cost.unit)])]

def toJson (usage : TurnUsage) : Json :=
  .object ([("prompt_tokens", .int64 usage.promptTokens.toInt),
    ("completion_tokens", .int64 usage.completionTokens.toInt),
    ("cached_tokens", .int64 usage.cachedTokens.toInt), ("rounds", .int64 usage.rounds.toInt),
    ("model", .string usage.model), ("gateway", .string usage.gateway)] ++ costMember usage)

def dropMember (key value : String) (members : List (String × Json)) : List (String × Json) :=
  if value = "" then erase key members else members

def entryToJson (nodeId : String) (usage : TurnUsage) : Json :=
  let entry := (toJson usage).asObject
  let entry := dropMember "model" usage.model entry
  let entry := dropMember "gateway" usage.gateway entry
  .object (entry ++ [("node", .string nodeId)])

def serialize (ledger : UsageLedger) : Json :=
  .object (ledger.toList.map (fun e => (e.1, entryToJson e.1 e.2)))

def costFromJson (entry : Json) : Option Cost :=
  match entry.get? "cost" with
  | some (.object members) =>
      some ⟨valueOrDefault (.object members) "amount" 0, valueOrDefault (.object members) "unit" ""⟩
  | _ => none

def entryFromJson (nodeId : String) (entry : Json) : TurnUsage :=
  { nodeId := nodeId
    rounds := valueOrDefault entry "rounds" 0
    promptTokens := valueOrDefault entry "prompt_tokens" 0
    completionTokens := valueOrDefault entry "completion_tokens" 0
    cachedTokens := valueOrDefault entry "cached_tokens" 0
    cost := costFromJson entry
    model := valueOrDefault entry "model" ""
    gateway := valueOrDefault entry "gateway" "" }

def loadEntry (ledger : UsageLedger) (member : String × Json) : UsageLedger :=
  if member.2.isObject then ledger.insertIfNew member.1 (entryFromJson member.1 member.2)
  else ledger

def deserialize (j : Json) : UsageLedger := j.asObject.foldl loadEntry ∅

structure Keyed (ledger : UsageLedger) : Prop where
  keyed : ∀ {k : String} {u : TurnUsage}, ledger[k]? = some u → u.nodeId = k
  named : ∀ {k : String} {u : TurnUsage}, ledger[k]? = some u → u.nodeId ≠ ""

variable {ledger : UsageLedger}

theorem keyed_empty : Keyed ∅ := by
  constructor <;> simp

theorem keyed_record (h : Keyed ledger) (usage : TurnUsage) : Keyed (record ledger usage) := by
  unfold record
  split
  · exact h
  · next hne =>
      have step : ∀ {k : String} {u : TurnUsage},
          (ledger.insert usage.nodeId usage)[k]? = some u →
            (usage.nodeId = k ∧ u = usage) ∨ ledger[k]? = some u := by
        intro k u hu
        rw [Std.ExtTreeMap.getElem?_insert] at hu
        split at hu
        · next hk => exact .inl ⟨compare_eq_iff_eq.mp hk,(Option.some.inj hu).symm⟩
        · exact .inr hu
      constructor <;> intro k u hu <;> rcases step hu with ⟨hk,rfl⟩ | hu
      · exact hk
      · exact h.keyed hu
      · exact hne
      · exact h.named hu

theorem getElem?_keepOnly (ledger : UsageLedger) (live : List String) (k : String) :
    (keepOnly ledger live)[k]? = if k ∈ live then ledger[k]? else none := by
  unfold keepOnly
  rw [Std.ExtTreeMap.getElem?_filter']
  by_cases hk : k ∈ live <;> cases ledger[k]? <;> simp [hk]

theorem keyed_keepOnly (h : Keyed ledger) (live : List String) : Keyed (keepOnly ledger live) := by
  constructor <;> intro k u hu <;> rw [getElem?_keepOnly] at hu <;> split at hu
  · exact h.keyed hu
  · simp at hu
  · exact h.named hu
  · simp at hu

theorem foldl_record_toList (h : Keyed ledger) :
    (ledger.toList.map Prod.snd).foldl record ∅ = ledger := by
  refine Tree.foldl_toList ledger ?_
  intro k u hu m _
  have hne : k ≠ "" := h.keyed hu ▸ h.named hu
  simp only [record,h.keyed hu,if_neg hne]

theorem entryFromJson_entryToJson (usage : TurnUsage) :
    entryFromJson usage.nodeId (entryToJson usage.nodeId usage) = usage := by
  obtain ⟨nodeId,rounds,prompt,completion,cached,cost,model,gateway⟩ := usage
  by_cases hm : model = "" <;> by_cases hg : gateway = "" <;> cases cost <;>
    simp [entryFromJson,entryToJson,toJson,dropMember,erase,costMember,costFromJson,asObject,
      valueOrDefault,hm,hg]

theorem deserialize_serialize (h : Keyed ledger) : deserialize (serialize ledger) = ledger := by
  refine Tree.foldl_toList ledger ?_
  intro k u hu m hm
  have hfree : k ∉ m := by
    rw [Std.ExtTreeMap.mem_iff_isSome_getElem?,hm]
    simp
  obtain rfl := h.keyed hu
  have hob : (entryToJson u.nodeId u).isObject = true := rfl
  simp only [loadEntry,hob,if_true,entryFromJson_entryToJson]
  refine Std.ExtTreeMap.ext_getElem? ?_
  intro j
  rw [Std.ExtTreeMap.getElem?_insertIfNew,Std.ExtTreeMap.getElem?_insert]
  by_cases hj : u.nodeId = j
  · simp [hj,hj ▸ hfree]
  · simp [hj]

end UsageLedger

end PuCli
