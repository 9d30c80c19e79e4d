import Std.Data.ExtTreeMap
import Std.Data.ExtTreeMap.Lemmas
import PuCli.Config.Backend

namespace PuCli

open Json

abbrev Overrides := Std.ExtTreeMap String Json compare

structure InForce where
  backend : Backend
  toolBudget : Int32

inductive SettingName where
  | thinking
  | temperature
  | maxTokens
  | toolBudget
  deriving DecidableEq

def SettingName.text : SettingName → String
  | .thinking => "thinking"
  | .temperature => "temperature"
  | .maxTokens => "max_tokens"
  | .toolBudget => "tool_budget"

def settingTable : List SettingName := [.thinking, .temperature, .maxTokens, .toolBudget]

def findSetting (name : String) : Option SettingName :=
  settingTable.find? (fun setting => setting.text = name)

def knownNames : String := String.intercalate ", " (settingTable.map SettingName.text)

def readThinking (raw : Json) : Except String Json :=
  let name := match raw with
    | .string s => s
    | _ => ""
  if name = "auto" ∨ name = "default" then .ok .null
  else if name ≠ "none" ∧ parseThinkingLevel name = .serverDefault then
    .error ("Unknown thinking level: " ++ name ++ " (none, low, medium, high, auto)")
  else .ok (.string name)

def readTemperature (raw : Json) : Except String Json :=
  let check := fun (value : Double) =>
    if value < 0 ∨ 2 < value then .error "temperature must be between 0 and 2"
    else .ok (.double value)
  match raw with
  | .double value => check value
  | .int64 value => check (.finite value)
  | _ => .error "temperature must be a number"

def readWhole (name : String) (high : Int) (bounds : String) (raw : Json) : Except String Json :=
  match raw with
  | .int64 value =>
      if value < 1 ∨ high < value then .error (name ++ " must be between 1 and " ++ bounds)
      else .ok (.int64 value)
  | _ => .error (name ++ " must be a whole number")

def readMaxTokens : Json → Except String Json := readWhole "max_tokens" 1000000 "1000000"

def readToolBudget : Json → Except String Json := readWhole "tool_budget" 100000 "100000"

def SettingName.read : SettingName → Json → Except String Json
  | .thinking => readThinking
  | .temperature => readTemperature
  | .maxTokens => readMaxTokens
  | .toolBudget => readToolBudget

def parseSetting (name : String) (raw : Json) : Except String Json :=
  match findSetting name with
  | none => .error ("Unknown setting '" ++ name ++ "': " ++ knownNames)
  | some setting => if raw.isNull then .ok .null else setting.read raw

def SettingName.apply (text : JsonText) (toFloat : Double → Double) (setting : SettingName)
    (inForce : InForce) (value : Json) : Except String InForce :=
  match setting, value with
  | .thinking, .string name =>
      .ok { inForce with backend := { inForce.backend with thinking := parseThinkingLevel name } }
  | .temperature, .double x =>
      .ok { inForce with backend := { inForce.backend with temperature := toFloat x } }
  | .temperature, .int64 i =>
      .ok { inForce with backend := { inForce.backend with temperature := toFloat (.finite i) } }
  | .maxTokens, .int64 i =>
      .ok { inForce with backend := { inForce.backend with maxTokens := some (Int32.ofInt i) } }
  | .toolBudget, .int64 i => .ok { inForce with toolBudget := Int32.ofInt i }
  | _, other => .error (text.kindError other)

def SettingName.applyIn (text : JsonText) (toFloat : Double → Double) (overrides : Overrides)
    (inForce : InForce) (setting : SettingName) : Except String InForce :=
  match overrides[setting.text]? with
  | none => .ok inForce
  | some value => if value.isNull then .ok inForce else setting.apply text toFloat inForce value

def InForce.resolve (text : JsonText) (toFloat : Double → Double) (backend : Backend)
    (toolBudget : Int32) (overrides : Overrides) : Except String InForce :=
  settingTable.foldlM (SettingName.applyIn text toFloat overrides) ⟨backend, toolBudget⟩

theorem findSetting_eq_some {name : String} {setting : SettingName}
    (h : findSetting name = some setting) : setting.text = name := by
  simpa using List.find?_some h

theorem text_ne_empty (setting : SettingName) : setting.text ≠ "" := by
  cases setting <;> decide

end PuCli
