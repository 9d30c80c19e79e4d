import PuCli.Session.Conversation
import PuCli.Session.Settings
import PuCli.Session.Usage

namespace PuCli

open Json

structure SessionSpec where
  agentName : String := ""
  overrides : Overrides := ∅

namespace SessionSpec

def kSuffix : List Char := "_override".toList

def overrideKey (name : String) : String := name ++ "_override"

def overrideName (key : String) : Option String :=
  let chars := key.toList
  let rest := chars.length - kSuffix.length
  if chars.length ≤ kSuffix.length then none
  else if chars.drop rest ≠ kSuffix then none
  else some (String.ofList (chars.take rest))

def writeOverride (members : List (String × Json)) (override : String × Json) :
    List (String × Json) :=
  if override.2.isNull then members else assign members (overrideKey override.1) override.2

def serialize (spec : SessionSpec) : Json :=
  .object (spec.overrides.toList.foldl writeOverride [("agent_name", .string spec.agentName)])

def readOverride (overrides : Overrides) (member : String × Json) : Overrides :=
  match overrideName member.1 with
  | none => overrides
  | some name => overrides.insert name member.2

def deserialize : Json → Option SessionSpec
  | .object members =>
      some ⟨valueOrDefault (.object members) "agent_name" "", members.foldl readOverride ∅⟩
  | _ => none

structure Clean (overrides : Overrides) : Prop where
  named : ∀ {k : String} {v : Json}, overrides[k]? = some v → k ≠ ""
  valued : ∀ {k : String} {v : Json}, overrides[k]? = some v → v ≠ .null

theorem overrideName_overrideKey {name : String} (hn : name ≠ "") :
    overrideName (overrideKey name) = some name := by
  have hne : name.toList ≠ [] := fun hc => hn (String.toList_eq_nil_iff.mp hc)
  have hpos := List.length_pos_of_ne_nil hne
  have hchars : (overrideKey name).toList = name.toList ++ kSuffix := String.toList_append
  unfold overrideName
  rw [hchars]
  generalize kSuffix = suffix
  have hrest : (name.toList ++ suffix).length - suffix.length = name.toList.length := by
    rw [List.length_append]
    omega
  have hlong : ¬ (name.toList ++ suffix).length ≤ suffix.length := by
    rw [List.length_append]
    omega
  simp only [hrest,hlong,if_false,List.drop_left,List.take_left,ne_eq,not_true_eq_false]
  rw [String.ofList_toList]

theorem overrideKey_injective {a b : String} (h : overrideKey a = overrideKey b) : a = b := by
  have := congrArg String.toList h
  simp only [overrideKey,String.toList_append] at this
  exact String.toList_inj.mp (List.append_cancel_right this)

theorem agent_name_ne_overrideKey (name : String) : "agent_name" ≠ overrideKey name := by
  intro h
  by_cases hn : name = ""
  · subst hn
    revert h
    decide
  · have hno : overrideName "agent_name" = none := by decide
    rw [h,overrideName_overrideKey hn] at hno
    simp at hno

theorem foldl_writeOverride {es : List (String × Json)} {members : List (String × Json)}
    (hd : (es.map Prod.fst).Nodup) (hv : ∀ e ∈ es, e.2 ≠ .null)
    (hm : ∀ e ∈ es, overrideKey e.1 ∉ members.map Prod.fst) :
    es.foldl writeOverride members = members ++ es.map (fun e => (overrideKey e.1, e.2)) := by
  induction es generalizing members with
  | nil => simp
  | cons e es ih =>
      simp only [List.map_cons,List.nodup_cons] at hd
      have hw : writeOverride members e = members ++ [(overrideKey e.1, e.2)] := by
        have hn : e.2.isNull = false := isNull_eq_false.mpr (hv e (by simp))
        simp only [writeOverride,hn,Bool.false_eq_true,if_false]
        exact assign_fresh e.2 (hm e (by simp))
      have hm' : ∀ x ∈ es,
          overrideKey x.1 ∉ (members ++ [(overrideKey e.1, e.2)]).map Prod.fst := by
        intro x hx hc
        rw [List.map_append,List.mem_append] at hc
        rcases hc with hc | hc
        · exact hm x (List.mem_cons_of_mem _ hx) hc
        · have hxe := overrideKey_injective (List.mem_singleton.mp hc)
          exact hd.1 (hxe ▸ List.mem_map_of_mem hx)
      rw [List.foldl_cons,hw,ih hd.2 (fun x hx => hv x (List.mem_cons_of_mem _ hx)) hm']
      simp

theorem serialize_eq {spec : SessionSpec} (h : Clean spec.overrides) :
    spec.serialize = .object (("agent_name", .string spec.agentName) ::
      spec.overrides.toList.map (fun e => (overrideKey e.1, e.2))) := by
  have hmem : ∀ {e : String × Json}, e ∈ spec.overrides.toList → spec.overrides[e.1]? = some e.2 :=
    fun he => Std.ExtTreeMap.mem_toList_iff_getElem?_eq_some.mp he
  have hd : (spec.overrides.toList.map Prod.fst).Nodup := by
    rw [Std.ExtTreeMap.map_fst_toList_eq_keys]
    exact Std.ExtTreeMap.nodup_keys
  have hagents : ∀ e ∈ spec.overrides.toList,
      overrideKey e.1 ∉ [("agent_name", Json.string spec.agentName)].map Prod.fst :=
    fun e _ hc => agent_name_ne_overrideKey e.1 (List.mem_singleton.mp hc).symm
  have hw := foldl_writeOverride hd (fun e he => h.valued (hmem he)) hagents
  simp only [serialize,hw,List.singleton_append]

theorem deserialize_serialize {spec : SessionSpec} (h : Clean spec.overrides) :
    deserialize spec.serialize = some spec := by
  have hread : (spec.overrides.toList.map (fun e => (overrideKey e.1, e.2))).foldl
      readOverride ∅ = spec.overrides := by
    refine Tree.foldl_toList spec.overrides ?_
    intro k v hv m _
    simp only [readOverride,overrideName_overrideKey (h.named hv)]
  have hagent : readOverride ∅ ("agent_name", .string spec.agentName) = ∅ := by
    have hno : overrideName "agent_name" = none := by decide
    simp only [readOverride,hno]
  rw [serialize_eq h]
  simp only [deserialize,List.foldl_cons,hagent,hread]
  simp [valueOrDefault]

end SessionSpec

def kSessionSchemaVersion : Int32 := 9

structure Session where
  conversation : Conversation := .new
  spec : SessionSpec := {}
  usage : UsageLedger := ∅

namespace Session

def kPendingAgentRefusal : String :=
  "Cannot switch agent while tool calls are pending. " ++
  "Please let the current tool finish or /clear."

def hasPendingToolCalls (s : Session) : Bool := s.conversation.hasPendingToolCalls

def setAgent (s : Session) (agentName : String) : Except String Session :=
  if s.hasPendingToolCalls then .error kPendingAgentRefusal
  else .ok { s with spec := { s.spec with agentName := agentName } }

def storeSetting (s : Session) (name : String) (value : Json) : Session :=
  { s with spec := { s.spec with overrides :=
    if value.isNull then s.spec.overrides.erase name else s.spec.overrides.insert name value } }

def clearOverrides (s : Session) : Session := { s with spec := { s.spec with overrides := ∅ } }

def live (s : Session) : List MessageId := s.conversation.chain.map MessageNode.id

def serialize (s : Session) : Json :=
  let kept := s.usage.keepOnly s.live
  let pruned := (kept.toList.map Prod.snd).foldl UsageLedger.record ∅
  .object ([("schema_version", .int64 kSessionSchemaVersion.toInt),
    ("conversation", s.conversation.serialize), ("session_spec", s.spec.serialize)] ++
    if kept.isEmpty then [] else [("usage", UsageLedger.serialize pruned)])

def deserialize (j : Json) : Option Session :=
  if ¬ j.hasKey "schema_version" ∨ valueOrDefault j "schema_version" 0 ≠ kSessionSchemaVersion then
    none
  else do
    let stored ← j.get? "conversation"
    let history ← stored.get? "history"
    if ¬ history.isObject then none
    else
      let conversation ← Conversation.deserialize stored
      let spec ← (j.get? "session_spec").bind SessionSpec.deserialize
      some ⟨conversation, spec, match j.get? "usage" with
        | none => ∅
        | some usage => UsageLedger.deserialize usage⟩

structure Sound (s : Session) : Prop where
  graph : s.conversation.graph.Sound
  origins : s.conversation.graph.WellNamed
  overrides : SessionSpec.Clean s.spec.overrides
  usage : UsageLedger.Keyed s.usage

theorem deserialize_serialize {s : Session} (h : s.Sound) :
    deserialize s.serialize = some { s with usage := s.usage.keepOnly s.live } := by
  have hconv := Conversation.deserialize_serialize h.graph h.origins
  have hspec := SessionSpec.deserialize_serialize h.overrides
  have hkept := UsageLedger.keyed_keepOnly h.usage s.live
  have hpruned := UsageLedger.foldl_record_toList hkept
  have husage := UsageLedger.deserialize_serialize hkept
  have hhist : s.conversation.serialize.get? "history" = some s.conversation.graph.serialize := rfl
  have hob : s.conversation.graph.serialize.isObject = true := rfl
  simp only [serialize,hpruned]
  by_cases he : (s.usage.keepOnly s.live).isEmpty
  · have hempty : s.usage.keepOnly s.live = ∅ := Std.ExtTreeMap.isEmpty_iff.mp he
    simp [deserialize,hasKey,valueOrDefault,hhist,hob,hconv,hspec,hempty]
  · simp [deserialize,hasKey,valueOrDefault,hhist,hob,hconv,hspec,he,husage]

end Session

end PuCli
