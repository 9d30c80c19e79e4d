import PuCli.Library.LastWrite
import PuCli.Runtime.CommandRouter
import PuCli.Runtime.Tuning

namespace PuCli

open Json CommandRouter

inductive SettingValue where
  | level (level : ThinkingLevel)
  | number (value : Double)
  | limit (value : Option Int)
  deriving DecidableEq

def InForce.value (f : InForce) : SettingName → SettingValue
  | .thinking => .level f.backend.thinking
  | .temperature => .number f.backend.temperature
  | .maxTokens => .limit (f.backend.maxTokens.map Int32.toInt)
  | .toolBudget => .limit (some f.toolBudget.toInt)

-- A page draws a number as the session file or the configuration spells it.
inductive SettingValue.Shows (toFloat : Double → Double) : SettingValue → Json → Prop
  | level {name : String} : Shows toFloat (.level (parseThinkingLevel name)) (.string name)
  | own {value : Double} : Shows toFloat (.number value) (.double value)
  | number {j : Json} {value : Double} : j.toNumber = some value →
      Shows toFloat (.number (toFloat value)) j
  | limit {value : Int} : Shows toFloat (.limit (some value)) (.int64 value)
  | unlimited : Shows toFloat (.limit none) .null

def SettingName.wants (toFloat : Double → Double) (setting : SettingName) (raw : Json) :
    Option SettingValue :=
  match setting, raw with
  | .thinking, .string name =>
      if name = "auto" ∨ name = "default" then none else some (.level (parseThinkingLevel name))
  | .temperature, raw => raw.toNumber.map (fun value => .number (toFloat value))
  | .maxTokens, .int64 value => some (.limit (some value))
  | .toolBudget, .int64 value => some (.limit (some value))
  | _, _ => none

inductive SettingCommand where
  | setSetting (name : String) (raw : Json)
  | clearSettings
  | thinking (args : List String)

abbrev SettingWrite := Write SettingName (Option SettingValue)

namespace SettingCommand

def run (host : Host) (rt : Runtime) : SettingCommand → Runtime
  | .setSetting name raw => (rt.setSetting host name raw).2
  | .clearSettings => (rt.clearSettings host).2
  | .thinking args => (handleThinking host rt args).2

def reportsThinking : Except String (Bool × String) → Bool
  | .ok (_, output) => "Thinking".toList.isPrefixOf output.toList
  | .error _ => false

def accepted (host : Host) (rt : Runtime) : SettingCommand → Bool
  | .setSetting name raw => (rt.setSetting host name raw).1.isOk
  | .clearSettings => (rt.clearSettings host).1.isOk
  | .thinking args => decide (args ≠ []) && reportsThinking (handleThinking host rt args).1

def asks (toFloat : Double → Double) : SettingCommand → Option SettingWrite
  | .setSetting name raw =>
      (findSetting name).map (fun setting => .put setting (setting.wants toFloat raw))
  | .clearSettings => some .wipe
  | .thinking [level] =>
      some (.put .thinking (if level = "auto" then none else some (.level (parseThinkingLevel level))))
  | .thinking _ => none

end SettingCommand

namespace SettingName

variable {toFloat : Double → Double} {setting : SettingName} {raw value : Json}

def meaning (toFloat : Double → Double) (value : Json) : SettingName → SettingValue
  | .thinking => .level (levelIn value)
  | .temperature => .number (toFloat (numberIn value))
  | .maxTokens => .limit (some (Int32.ofInt (wholeIn value)).toInt)
  | .toolBudget => .limit (some (Int32.ofInt (wholeIn value)).toInt)

theorem toInt_ofInt {i : Int} (hl : 1 ≤ i) (hh : i ≤ 1000000) : (Int32.ofInt i).toInt = i := by
  exact Int32.toInt_ofInt_of_le (by omega) (by omega)

theorem wants_eq (h : Parsed setting raw value) :
    setting.wants toFloat raw = if value = .null then none else some (setting.meaning toFloat value) := by
  cases h with
  | cleared => cases setting <;> rfl
  | followed hown => simp [wants,hown]
  | @level name hlevel =>
      have hne : ¬ (name = "auto" ∨ name = "default") := by
        rintro (rfl | rfl) <;> revert hlevel <;> decide
      simp [wants,hne,meaning,levelIn]
  | @number raw x hraw hlow hhigh =>
      have hnum : raw.toNumber = some x := by
        obtain rfl | ⟨i,rfl,rfl⟩ := hraw <;> rfl
      rw [wants,hnum]
      rfl
  | tokens hlow hhigh => simp [wants,meaning,wholeIn,toInt_ofInt hlow hhigh]
  | budget hlow hhigh => simp [wants,meaning,wholeIn,toInt_ofInt hlow (hhigh.trans (by omega))]

theorem shows_meaning (h : Parsed setting raw value) (hraw : raw ≠ .null) :
    (setting.meaning toFloat raw).Shows toFloat raw := by
  cases h with
  | cleared => exact absurd rfl hraw
  | followed => exact .level
  | level => exact .level
  | number hnum =>
      obtain rfl | ⟨i,rfl,rfl⟩ := hnum
      · exact .number rfl
      · exact .number rfl
  | tokens hlow hhigh =>
      simp only [meaning,wholeIn,toInt_ofInt hlow hhigh]
      exact .limit
  | budget hlow hhigh =>
      simp only [meaning,wholeIn,toInt_ofInt hlow (hhigh.trans (by omega))]
      exact .limit

theorem shows_own (setting : SettingName) (backend : Backend) (toolBudget : Int32) :
    (InForce.value ⟨backend, toolBudget⟩ setting).Shows toFloat
      (setting.agentValue backend toolBudget) := by
  cases setting with
  | thinking =>
      have hname : parseThinkingLevel (thinkingName backend.thinking) = backend.thinking := by
        cases backend.thinking <;> decide
      simp only [InForce.value,agentValue]
      conv => arg 2; rw [← hname]
      exact .level
  | temperature => exact .own
  | maxTokens =>
      simp only [InForce.value,agentValue]
      cases backend.maxTokens with
      | none => exact .unlimited
      | some tokens => exact .limit
  | toolBudget => exact .limit

end SettingName

namespace InForce

theorem value_overlay (toFloat : Double → Double) (own : InForce) (overrides : Overrides)
    (setting : SettingName) : (overlay toFloat own overrides).value setting =
      ((chosen overrides setting).map (fun value => setting.meaning toFloat value)).getD
        (own.value setting) := by
  rw [overlay_eq]
  cases setting with
  | thinking => cases chosen overrides .thinking <;> simp [value,SettingName.meaning]
  | temperature => cases chosen overrides .temperature <;> simp [value,SettingName.meaning]
  | maxTokens => cases chosen overrides .maxTokens <;> simp [value,SettingName.meaning]
  | toolBudget => cases chosen overrides .toolBudget <;> simp [value,SettingName.meaning]

end InForce

namespace SettingCommand

variable {host : Host} {rt : Runtime} {setting : SettingName} {raw value : Json} {name : String}

theorem setSetting_parsed (ht : Typed rt.overrides) (hp : parseSetting setting.text raw = .ok value) :
    (setSetting setting.text raw).accepted host rt = true ∧
      (setSetting setting.text raw).run host rt = { rt.written setting.text value with
        toolCallBudget := (rt.written setting.text value).budgetInForce } := by
  have hset := @Runtime.setSetting_taken host rt setting.text raw value ht hp
  constructor
  · rw [accepted,hset]
    rfl
  · rw [run,hset]

theorem setSetting_unparsed {what : String} (hp : parseSetting name raw = .error what) :
    (setSetting name raw).accepted host rt = false ∧ (setSetting name raw).run host rt = rt := by
  constructor
  · rw [accepted,Runtime.setSetting_refused hp]
    rfl
  · rw [run,Runtime.setSetting_refused hp]

theorem clearSettings_accepted :
    clearSettings.accepted host rt = true ∧ clearSettings.run host rt =
      { rt.emptied with toolCallBudget := rt.emptied.budgetInForce } := by
  constructor
  · rw [accepted,Runtime.clearSettings_eq]
    rfl
  · rw [run,Runtime.clearSettings_eq]

theorem reportThinking_typed (ht : Typed rt.overrides) (output : String → String) :
    ∃ level, reportThinking host rt output = said rt (output level) := by
  have hlevel : ∃ level, rt.currentThinkingLevel host = .ok level := by
    unfold Runtime.currentThinkingLevel Runtime.currentBackend Runtime.inForce
    cases hs : rt.session with
    | none => exact ⟨_,rfl⟩
    | some s => exact ⟨_,by rw [InForce.resolve_of_typed ht]; rfl⟩
  obtain ⟨level,hl⟩ := hlevel
  exact ⟨thinkingLevelName level,by rw [reportThinking,hl]⟩

def levelRaw : Option ThinkingLevel → Json
  | some level => .string (thinkingLevelName level)
  | none => .null

theorem setThinkingLevel_eq (level : Option ThinkingLevel) :
    rt.setThinkingLevel host level = rt.setSetting host "thinking" (levelRaw level) := by
  cases level <;> rfl

theorem thinking_parsed {args : List String} {level : Option ThinkingLevel}
    {output : String → String} (ht : Typed rt.overrides)
    (hdo : handleThinking host rt args = changeThinking host rt level output)
    (hargs : args ≠ []) (hout : ∀ level, "Thinking".toList <+: (output level).toList)
    (hp : parseSetting "thinking" (levelRaw level) = .ok value) :
    (thinking args).accepted host rt = true ∧ (thinking args).run host rt =
      { rt.written "thinking" value with
        toolCallBudget := (rt.written "thinking" value).budgetInForce } := by
  have hset : rt.setThinkingLevel host level = (.ok (), { rt.written "thinking" value with
      toolCallBudget := (rt.written "thinking" value).budgetInForce }) := by
    rw [setThinkingLevel_eq]
    exact Runtime.setSetting_taken ht hp
  have ht' : Typed ({ rt.written "thinking" value with
      toolCallBudget := (rt.written "thinking" value).budgetInForce } : Runtime).overrides :=
    Runtime.typed_written ht hp
  obtain ⟨name,hreport⟩ := @reportThinking_typed host _ ht' output
  rw [changeThinking,hset] at hdo
  constructor
  · rw [accepted,hdo]
    simp only [hreport]
    rw [Bool.and_eq_true]
    exact ⟨decide_eq_true hargs,List.isPrefixOf_iff_prefix.mpr (hout name)⟩
  · rw [run,hdo]
    simp only [hreport]
    rfl

theorem prefix_append_text {a b c : String} (h : a.toList <+: b.toList) :
    a.toList <+: (b ++ c).toList := by
  rw [String.toList_append]
  exact h.trans (List.prefix_append _ _)

def levels : List String := ["none", "low", "medium", "high"]

theorem parseThinkingLevel_of_not_mem (h : name ∉ levels) : parseThinkingLevel name = .serverDefault := by
  simp only [levels,List.mem_cons,List.not_mem_nil,or_false,not_or] at h
  simp [parseThinkingLevel,h]

theorem thinking_auto (ht : Typed rt.overrides) :
    (thinking ["auto"]).accepted host rt = true ∧ (thinking ["auto"]).run host rt =
      { rt.written "thinking" .null with
        toolCallBudget := (rt.written "thinking" .null).budgetInForce } :=
  @thinking_parsed host rt .null ["auto"] none _ ht rfl (by simp)
    (fun _ => prefix_append_text (prefix_append_text (by decide))) rfl

theorem thinking_default (ht : Typed rt.overrides) :
    (thinking ["default"]).accepted host rt = true ∧ (thinking ["default"]).run host rt =
      { rt.written "thinking" .null with
        toolCallBudget := (rt.written "thinking" .null).budgetInForce } :=
  @thinking_parsed host rt .null ["default"] (some .serverDefault) _ ht rfl (by simp)
    (fun _ => prefix_append_text (prefix_append_text (by decide))) rfl

theorem thinking_level (ht : Typed rt.overrides) (hl : name ∈ levels) :
    (thinking [name]).accepted host rt = true ∧ (thinking [name]).run host rt =
      { rt.written "thinking" (.string name) with
        toolCallBudget := (rt.written "thinking" (.string name)).budgetInForce } := by
  have hname : thinkingLevelName (parseThinkingLevel name) = name := by
    revert hl name
    decide
  have hparse : parseSetting "thinking" (.string name) = .ok (.string name) := by
    revert hl name
    decide
  have hhandle : handleThinking host rt [name] = changeThinking host rt
      (some (parseThinkingLevel name)) (fun level => "Thinking: " ++ level ++ " for this session.") := by
    have hauto : name ≠ "auto" := by
      rintro rfl
      revert hl
      decide
    have hset : parseThinkingLevel name ≠ .serverDefault := by
      revert hl name
      decide
    simp only [handleThinking,if_neg hauto,hset,and_false,if_false]
  refine thinking_parsed ht hhandle (by simp)
    (fun _ => prefix_append_text (prefix_append_text (by decide))) ?_
  rw [levelRaw,hname]
  exact hparse

theorem thinking_refused {args : List String} (ht : Typed rt.overrides)
    (h : ∀ name, args = [name] → name ≠ "auto" ∧ name ≠ "default" ∧ name ∉ levels) :
    (thinking args).accepted host rt = false ∧ (thinking args).run host rt = rt := by
  match args with
  | [] =>
      obtain ⟨level,hreport⟩ := @reportThinking_typed host rt ht (fun level => "Thinking: " ++ level ++
        (if rt.thinkingOverride.isSome then " (set for this session)"
          else " (from the agent's configuration)"))
      simp only [accepted,run,handleThinking,hreport]
      exact ⟨rfl,rfl⟩
  | [name] =>
      obtain ⟨ha,hd,hn⟩ := h name rfl
      simp only [accepted,run,handleThinking,if_neg ha,hd,ne_eq,not_false_eq_true,true_and,
        parseThinkingLevel_of_not_mem hn,if_true]
      refine ⟨?_,rfl⟩
      simp [reportsThinking,said,String.toList_append,List.isPrefixOf]
  | first :: second :: rest =>
      simp only [accepted,run,handleThinking]
      exact ⟨rfl,rfl⟩

-- What an accepted command writes, and whether that is what it asked for.
structure Writes (host : Host) (rt : Runtime) (command : SettingCommand) (setting : SettingName)
    (raw value : Json) (want : Option SettingValue) : Prop where
  accepted : command.accepted host rt = true
  parsed : parseSetting setting.text raw = .ok value
  asks : command.asks host.toFloat = some (.put setting want)
  run : command.run host rt = { rt.written setting.text value with
    toolCallBudget := (rt.written setting.text value).budgetInForce }
  means : (if value = .null then none else some (setting.meaning host.toFloat value)) = want ↔
    command ≠ .thinking ["default"]

theorem thinking_writes (ht : Typed rt.overrides)
    (hname : name = "auto" ∨ name = "default" ∨ name ∈ levels) :
    ∃ raw value want, Writes host rt (.thinking [name]) .thinking raw value want := by
  obtain rfl | rfl | hl := hname
  · exact ⟨.null,.null,none,(thinking_auto ht).1,rfl,rfl,(thinking_auto ht).2,by simp⟩
  · exact ⟨.null,.null,_,(thinking_default ht).1,rfl,rfl,(thinking_default ht).2,by simp⟩
  · have hparse : parseSetting "thinking" (.string name) = .ok (.string name) := by
      revert hl name
      decide
    have hauto : name ≠ "auto" := by
      rintro rfl
      revert hl
      decide
    have hdefault : name ≠ "default" := by
      rintro rfl
      revert hl
      decide
    exact ⟨.string name,.string name,some (.level (parseThinkingLevel name)),
      (thinking_level ht hl).1,hparse,by simp only [asks,if_neg hauto],(thinking_level ht hl).2,
      by simp [SettingName.meaning,levelIn,hdefault]⟩

theorem run_cases (ht : Typed rt.overrides) (command : SettingCommand) :
    (command.accepted host rt = false ∧ command.run host rt = rt ∧
        command ≠ .thinking ["default"]) ∨
      command = .clearSettings ∨
      ∃ setting raw value want, Writes host rt command setting raw value want := by
  cases command with
  | clearSettings => exact .inr (.inl rfl)
  | setSetting name raw =>
      cases hp : parseSetting name raw with
      | error what =>
          obtain ⟨hno,hsame⟩ := @setSetting_unparsed host rt raw name what hp
          exact .inl ⟨hno,hsame,by simp⟩
      | ok value =>
          obtain ⟨setting,rfl⟩ := named_of_parse hp
          obtain ⟨hyes,hrun⟩ := @setSetting_parsed host rt setting raw value ht hp
          refine .inr (.inr ⟨setting,raw,value,setting.wants host.toFloat raw,hyes,hp,?_,hrun,?_⟩)
          · rw [asks,findSetting_text]
            rfl
          · exact iff_of_true (SettingName.wants_eq (parsed_of_parse hp)).symm (by simp)
  | thinking args =>
      by_cases hnone : ∀ name, args = [name] → name ≠ "auto" ∧ name ≠ "default" ∧ name ∉ levels
      · obtain ⟨hno,hsame⟩ := @thinking_refused host rt args ht hnone
        refine .inl ⟨hno,hsame,?_⟩
        intro hc
        exact (hnone "default" (SettingCommand.thinking.inj hc)).2.1 rfl
      · push Not at hnone
        obtain ⟨name,rfl,hname⟩ := hnone
        exact .inr (.inr ⟨_,thinking_writes ht (by tauto)⟩)

theorem refused_unmoved (ht : Typed rt.overrides) (command : SettingCommand)
    (h : command.accepted host rt = false) : command.run host rt = rt := by
  obtain ⟨-,hsame,-⟩ | rfl | ⟨_,_,_,_,hw⟩ := @run_cases host rt ht command
  · exact hsame
  · rw [clearSettings_accepted.1] at h
    cases h
  · rw [hw.accepted] at h
    cases h

end SettingCommand

end PuCli
