import PuCli.Session.InForce
import PuCli.Session.SessionRuns

namespace PuCli

open Json

namespace SessionSpec

theorem overrideName_eq_some {key name : String} (h : overrideName key = some name) :
    key = overrideKey name := by
  unfold overrideName at h
  simp only at h
  split at h
  · cases h
  · split at h
    · cases h
    · next hsuffix =>
        obtain rfl := Option.some.inj h
        have hdrop : key.toList.drop (key.toList.length - kSuffix.length) = kSuffix :=
          not_not.mp hsuffix
        have happ := List.take_append_drop (key.toList.length - kSuffix.length) key.toList
        rw [hdrop] at happ
        refine String.toList_inj.mp ?_
        rw [overrideKey,String.toList_append,String.toList_ofList]
        exact happ.symm

theorem overrideName_iff {key name : String} (hn : name ≠ "") :
    overrideName key = some name ↔ key = overrideKey name := by
  constructor
  · exact overrideName_eq_some
  · rintro rfl
    exact overrideName_overrideKey hn

def lastMember (members : List (String × Json)) (key : String) : Option Json :=
  (members.reverse.find? (fun member => member.1 = key)).map Prod.snd

theorem getElem?_readOverride (overrides : Overrides) (member : String × Json) {name : String}
    (hn : name ≠ "") : (readOverride overrides member)[name]? =
      if member.1 = overrideKey name then some member.2 else overrides[name]? := by
  unfold readOverride
  by_cases hk : member.1 = overrideKey name
  · rw [(overrideName_iff hn).mpr hk,if_pos hk]
    simp
  · have hother : overrideName member.1 ≠ some name := fun h => hk ((overrideName_iff hn).mp h)
    rw [if_neg hk]
    cases ho : overrideName member.1 with
    | none => rfl
    | some other =>
        have hne : other ≠ name := fun h => hother (h ▸ ho)
        simp [Std.ExtTreeMap.getElem?_insert,hne]

theorem overrides_of_members (members : List (String × Json)) {name : String} (hn : name ≠ "") :
    (members.foldl readOverride ∅)[name]? = lastMember members (overrideKey name) := by
  induction members using List.reverseRecOn with
  | nil => simp [lastMember]
  | append_singleton members member ih =>
      rw [List.foldl_concat,getElem?_readOverride _ _ hn,ih,lastMember,lastMember,
        List.reverse_concat,List.find?_cons]
      by_cases hk : member.1 = overrideKey name <;> simp [hk]

end SessionSpec

-- The values a request may set, as a file can hold them.
inductive Storable : SettingName → Json → Prop
  | null (setting : SettingName) : Storable setting .null
  | level {name : String} : name ∈ ["auto", "default", "none", "low", "medium", "high"] →
      Storable .thinking (.string name)
  | double {x : Double} : ¬ x < 0 → ¬ 2 < x → Storable .temperature (.double x)
  | whole {i : Int} : 0 ≤ i → i ≤ 2 → Storable .temperature (.int64 i)
  | tokens {i : Int} : 1 ≤ i → i ≤ 1000000 → Storable .maxTokens (.int64 i)
  | budget {i : Int} : 1 ≤ i → i ≤ 100000 → Storable .toolBudget (.int64 i)

def fileOverride (j : Json) (setting : SettingName) : Option Json :=
  match j.get? "session_spec" with
  | some (.object members) => SessionSpec.lastMember members (SessionSpec.overrideKey setting.text)
  | _ => none

structure SettingsHold (overrides : Overrides) : Prop where
  resolves : ∀ (text : JsonText) (toFloat : Double → Double) (backend : Backend) (toolBudget : Int32),
    ∃ f, InForce.resolve text toFloat backend toolBudget overrides = .ok f
  accepts : ∀ setting value, chosen overrides setting = some value →
    ∃ stored, parseSetting setting.text value = .ok stored

section File

variable {j : Json} {s : Session} {setting : SettingName} {value : Json}

theorem storable_iff : (∃ stored, parseSetting setting.text value = .ok stored) ↔
    Storable setting value := by
  constructor
  · rintro ⟨stored,h⟩
    cases parsed_of_parse h with
    | cleared => exact .null setting
    | followed hown => exact .level (by rcases hown with rfl | rfl <;> decide)
    | level hname => exact .level (by simp only [List.mem_cons] at hname ⊢; tauto)
    | number hnum hlow hhigh =>
        obtain rfl | ⟨i,rfl,rfl⟩ := hnum
        · exact .double hlow hhigh
        · rw [(Double.finite_lt_ofNat i 0).1] at hlow
          rw [(Double.finite_lt_ofNat i 2).2] at hhigh
          exact .whole (Int.not_lt.mp hlow) (Int.not_lt.mp hhigh)
    | tokens hlow hhigh => exact .tokens hlow hhigh
    | budget hlow hhigh => exact .budget hlow hhigh
  · intro h
    cases h with
    | null => exact ⟨.null,by rw [parseSetting,findSetting_text]; rfl⟩
    | @level name hname =>
        simp only [List.mem_cons,List.not_mem_nil,or_false] at hname
        obtain rfl | rfl | rfl | rfl | rfl | rfl := hname
        · exact ⟨.null,rfl⟩
        · exact ⟨.null,rfl⟩
        all_goals exact ⟨_,rfl⟩
    | double hlow hhigh => exact ⟨_,if_neg (not_or.mpr ⟨hlow,hhigh⟩)⟩
    | @whole i hlow hhigh =>
        have hrange : ¬ (Double.finite i < 0 ∨ 2 < Double.finite i) := by
          rw [(Double.finite_lt_ofNat i 0).1,(Double.finite_lt_ofNat i 2).2]
          exact not_or.mpr ⟨Int.not_lt.mpr hlow,Int.not_lt.mpr hhigh⟩
        exact ⟨_,if_neg hrange⟩
    | @tokens i hlow hhigh =>
        have hrange : ¬ (i < 1 ∨ 1000000 < i) := by omega
        exact ⟨.int64 i,if_neg hrange⟩
    | @budget i hlow hhigh =>
        have hrange : ¬ (i < 1 ∨ 100000 < i) := by omega
        exact ⟨.int64 i,if_neg hrange⟩

theorem overrides_of_file (h : Session.deserialize j = some s) (setting : SettingName) :
    s.spec.overrides[setting.text]? = fileOverride j setting := by
  unfold Session.deserialize at h
  split at h
  · cases h
  · simp only [Option.bind_eq_bind,Option.bind_eq_some_iff] at h
    obtain ⟨stored,-,history,-,h⟩ := h
    split at h
    · cases h
    · simp only [Option.bind_eq_some_iff] at h
      obtain ⟨conversation,-,spec,⟨file,hfile,hspec⟩,hs⟩ := h
      obtain rfl := Option.some.inj hs
      unfold fileOverride
      rw [hfile]
      cases file with
      | object members =>
          obtain rfl := Option.some.inj hspec
          exact SessionSpec.overrides_of_members members (text_ne_empty setting)
      | _ => cases hspec

theorem settingsHold_iff {overrides : Overrides} : SettingsHold overrides ↔
    ∀ setting value, overrides[setting.text]? = some value → Storable setting value := by
  constructor
  · intro h setting value hv
    by_cases hnull : value = .null
    · subst hnull
      exact .null setting
    · refine storable_iff.mp (h.accepts setting value ?_)
      have hn : value.isNull = false := isNull_eq_false.mpr hnull
      simp [chosen,hv,Option.filter,hn]
  · intro h
    have haccepts : ∀ setting value, chosen overrides setting = some value →
        ∃ stored, parseSetting setting.text value = .ok stored :=
      fun setting value hc =>
        storable_iff.mpr (h setting value (Option.filter_eq_some_iff.mp hc).1)
    have ha : Accepted overrides := by
      intro setting value hc
      obtain ⟨stored,hp⟩ := haccepts setting value hc
      exact ⟨stored,parsed_of_parse hp⟩
    exact ⟨fun _ _ _ _ => ⟨_,InForce.resolve_of_typed ha.typed⟩,haccepts⟩

theorem accepted_file_settings_iff (h : Session.deserialize j = some s) :
    SettingsHold s.spec.overrides ↔
      ∀ setting value, fileOverride j setting = some value → Storable setting value := by
  rw [settingsHold_iff]
  simp only [overrides_of_file h]

def fileWith (value : Json) : Json :=
  .object [("schema_version", .int64 kSessionSchemaVersion.toInt),
    ("conversation", Conversation.new.serialize),
    ("session_spec", .object [("agent_name", .string "chat"), ("thinking_override", value)])]

theorem deserialize_fileWith (value : Json) :
    ∃ s, Session.deserialize (fileWith value) = some s := by
  have hconv : Conversation.deserialize Conversation.new.serialize = some .new :=
    Conversation.deserialize_serialize Session.sound_new.graph Session.sound_new.origins
  have hhist : Conversation.new.serialize.get? "history" = some MessageGraph.empty.serialize := rfl
  have hob : MessageGraph.empty.serialize.isObject = true := rfl
  simp [Session.deserialize,fileWith,hasKey,valueOrDefault,hhist,hob,hconv,SessionSpec.deserialize]

theorem accepted_file_low_thinking :
    ∃ s, Session.deserialize (fileWith (.string "low")) = some s ∧
      SettingsHold s.spec.overrides := by
  obtain ⟨s,hs⟩ := deserialize_fileWith (.string "low")
  refine ⟨s,hs,(accepted_file_settings_iff hs).mpr ?_⟩
  intro setting value hv
  cases setting with
  | thinking =>
      have hlow : fileOverride (fileWith (.string "low")) .thinking = some (.string "low") := by
        decide
      obtain rfl := Option.some.inj (hlow.symm.trans hv)
      exact .level (by decide)
  | temperature | maxTokens | toolBudget =>
      revert hv
      simp [fileOverride,fileWith,SessionSpec.lastMember,SessionSpec.overrideKey,SettingName.text]

theorem thinking_number_breaks_resolve :
    ∃ s, Session.deserialize (fileWith (.int64 5)) = some s ∧
      ¬ (∃ f, InForce.resolve ⟨fun _ => none, fun _ => "", id, fun _ => ""⟩ id {} 100
        s.spec.overrides = .ok f) ∧ ¬ SettingsHold s.spec.overrides := by
  obtain ⟨s,hs⟩ := deserialize_fileWith (.int64 5)
  have hfive : s.spec.overrides[SettingName.thinking.text]? = some (.int64 5) := by
    rw [overrides_of_file hs]
    decide
  have hno : ¬ ∃ f, InForce.resolve ⟨fun _ => none, fun _ => "", id, fun _ => ""⟩ id {} 100
      s.spec.overrides = .ok f := by
    rintro ⟨f,hf⟩
    have ht := (InForce.resolve_eq_ok_iff.mp hf).1 .thinking (.int64 5)
      (by simp [chosen,hfive,Option.filter,isNull])
    cases ht
  exact ⟨s,hs,hno,fun h => hno (h.resolves _ _ _ _)⟩

end File

end PuCli
