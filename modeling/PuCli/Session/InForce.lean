import PuCli.Session.Settings

namespace PuCli

open Json

def kSourceSession : String := "session"

def kSourceAgent : String := "agent"

structure SettingView where
  name : String
  type : String
  value : Json
  source : String
  agentValue : Json

def thinkingName (level : ThinkingLevel) : String :=
  if level = .serverDefault then "auto" else thinkingLevelName level

def SettingName.type : SettingName → String
  | .thinking => "enum"
  | .temperature => "float"
  | .maxTokens => "int"
  | .toolBudget => "int"

def SettingName.agentValue (backend : Backend) (toolBudget : Int32) : SettingName → Json
  | .thinking => .string (thinkingName backend.thinking)
  | .temperature => .double backend.temperature
  | .maxTokens =>
      match backend.maxTokens with
      | some tokens => .int64 tokens.toInt
      | none => .null
  | .toolBudget => .int64 toolBudget.toInt

-- The override a reader of the map takes into account: one that is there and not null.
def chosen (overrides : Overrides) (setting : SettingName) : Option Json :=
  overrides[setting.text]?.filter (fun value => !value.isNull)

def viewSetting (backend : Backend) (toolBudget : Int32) (overrides : Overrides)
    (setting : SettingName) : SettingView :=
  let own := setting.agentValue backend toolBudget
  match chosen overrides setting with
  | some value => ⟨setting.text, setting.type, value, kSourceSession, own⟩
  | none => ⟨setting.text, setting.type, own, kSourceAgent, own⟩

def viewSettings (backend : Backend) (toolBudget : Int32) (overrides : Overrides) :
    List SettingView := settingTable.map (viewSetting backend toolBudget overrides)

-- The kinds of value an applier reads without a check of its own.
def SettingName.takes : SettingName → Json → Bool
  | .thinking, .string _ => true
  | .temperature, .double _ => true
  | .temperature, .int64 _ => true
  | .maxTokens, .int64 _ => true
  | .toolBudget, .int64 _ => true
  | _, _ => false

def Typed (overrides : Overrides) : Prop :=
  ∀ setting value, chosen overrides setting = some value → setting.takes value = true

def levelIn : Json → ThinkingLevel
  | .string name => parseThinkingLevel name
  | _ => .serverDefault

def numberIn (j : Json) : Double := j.toNumber.getD 0

def wholeIn : Json → Int
  | .int64 i => i
  | _ => 0

namespace InForce

variable {text : JsonText} {toFloat : Double → Double} {backend : Backend} {toolBudget : Int32}
variable {overrides : Overrides} {own f : InForce} {setting : SettingName} {value : Json}

def set (toFloat : Double → Double) (own : InForce) (value : Json) : SettingName → InForce
  | .thinking => { own with backend := { own.backend with thinking := levelIn value } }
  | .temperature =>
      { own with backend := { own.backend with temperature := toFloat (numberIn value) } }
  | .maxTokens =>
      { own with backend := { own.backend with maxTokens := some (Int32.ofInt (wholeIn value)) } }
  | .toolBudget => { own with toolBudget := Int32.ofInt (wholeIn value) }

def overlay (toFloat : Double → Double) (own : InForce) (overrides : Overrides) : InForce :=
  settingTable.foldl (fun f setting =>
    match chosen overrides setting with
    | none => f
    | some value => f.set toFloat value setting) own

theorem apply_eq (h : setting.takes value = true) :
    setting.apply text toFloat own value = .ok (own.set toFloat value setting) := by
  cases setting <;> cases value <;> first | rfl | cases h

theorem takes_of_apply (h : setting.apply text toFloat own value = .ok f) :
    setting.takes value = true := by
  cases setting <;> cases value <;> first | rfl | cases h

theorem applyIn_chosen (own : InForce) (setting : SettingName) :
    setting.applyIn text toFloat overrides own =
      match chosen overrides setting with
      | none => .ok own
      | some value => setting.apply text toFloat own value := by
  unfold SettingName.applyIn chosen
  cases overrides[setting.text]? with
  | none => rfl
  | some value => cases hv : value.isNull <;> simp [hv,Option.filter]

theorem mem_settingTable (setting : SettingName) : setting ∈ settingTable := by
  cases setting <;> decide

theorem foldlM_applyIn {settings : List SettingName}
    (h : ∀ setting ∈ settings, ∀ value, chosen overrides setting = some value →
      setting.takes value = true) (own : InForce) :
    settings.foldlM (SettingName.applyIn text toFloat overrides) own =
      .ok (settings.foldl (fun f setting =>
        match chosen overrides setting with
        | none => f
        | some value => f.set toFloat value setting) own) := by
  induction settings generalizing own with
  | nil => rfl
  | cons setting settings ih =>
      have hrest := ih (fun s hs => h s (List.mem_cons_of_mem _ hs))
      rw [List.foldlM_cons,List.foldl_cons,applyIn_chosen]
      cases hc : chosen overrides setting with
      | none => exact hrest own
      | some value =>
          simp only [apply_eq (h setting (by simp) value hc)]
          exact hrest _

theorem takes_of_foldlM {settings : List SettingName} {own f : InForce}
    (h : settings.foldlM (SettingName.applyIn text toFloat overrides) own = .ok f) :
    ∀ setting ∈ settings, ∀ value, chosen overrides setting = some value →
      setting.takes value = true := by
  induction settings generalizing own with
  | nil => simp
  | cons first settings ih =>
      rw [List.foldlM_cons] at h
      obtain ⟨next,hnext,hrest⟩ := bind_eq_ok h
      intro setting hs value hc
      rcases List.mem_cons.mp hs with rfl | hs
      · rw [applyIn_chosen,hc] at hnext
        exact takes_of_apply hnext
      · exact ih hrest setting hs value hc

theorem resolve_eq_ok_iff :
    InForce.resolve text toFloat backend toolBudget overrides = .ok f ↔
      Typed overrides ∧ f = overlay toFloat ⟨backend, toolBudget⟩ overrides := by
  constructor
  · intro h
    have ht : Typed overrides :=
      fun setting => takes_of_foldlM h setting (mem_settingTable setting)
    refine ⟨ht,?_⟩
    rw [resolve,foldlM_applyIn (fun setting _ => ht setting)] at h
    exact (Except.ok.inj h).symm
  · rintro ⟨ht,rfl⟩
    exact foldlM_applyIn (fun setting _ => ht setting) _

theorem resolve_of_typed (h : Typed overrides) :
    InForce.resolve text toFloat backend toolBudget overrides =
      .ok (overlay toFloat ⟨backend, toolBudget⟩ overrides) := resolve_eq_ok_iff.mpr ⟨h,rfl⟩

theorem overlay_eq : overlay toFloat own overrides =
    { backend := { own.backend with
        thinking := ((chosen overrides .thinking).map levelIn).getD own.backend.thinking
        temperature := ((chosen overrides .temperature).map (fun v => toFloat (numberIn v))).getD
          own.backend.temperature
        maxTokens := ((chosen overrides .maxTokens).map (fun v =>
          some (Int32.ofInt (wholeIn v)))).getD own.backend.maxTokens }
      toolBudget := ((chosen overrides .toolBudget).map (fun v => Int32.ofInt (wholeIn v))).getD
        own.toolBudget } := by
  unfold overlay settingTable
  simp only [List.foldl_cons,List.foldl_nil]
  cases chosen overrides .thinking <;> cases chosen overrides .temperature <;>
    cases chosen overrides .maxTokens <;> cases chosen overrides .toolBudget <;> rfl

end InForce

-- What ParseSetting lets through, and the value it stores for it.
inductive Parsed : SettingName → Json → Json → Prop
  | cleared (setting : SettingName) : Parsed setting .null .null
  | followed {name : String} : name = "auto" ∨ name = "default" →
      Parsed .thinking (.string name) .null
  | level {name : String} : name ∈ ["none", "low", "medium", "high"] →
      Parsed .thinking (.string name) (.string name)
  | number {raw : Json} {x : Double} : raw = .double x ∨ (∃ i : Int, raw = .int64 i ∧ x = .finite i) →
      ¬ x < 0 → ¬ 2 < x → Parsed .temperature raw (.double x)
  | tokens {i : Int} : 1 ≤ i → i ≤ 1000000 → Parsed .maxTokens (.int64 i) (.int64 i)
  | budget {i : Int} : 1 ≤ i → i ≤ 100000 → Parsed .toolBudget (.int64 i) (.int64 i)

theorem findSetting_text (setting : SettingName) : findSetting setting.text = some setting := by
  cases setting <;> rfl

theorem named_of_parse {name : String} {raw value : Json} (h : parseSetting name raw = .ok value) :
    ∃ setting : SettingName, setting.text = name := by
  unfold parseSetting at h
  split at h
  · cases h
  · next setting hs => exact ⟨setting,findSetting_eq_some hs⟩

theorem readThinking_ok {raw value : Json} (h : readThinking raw = .ok value) :
    Parsed .thinking raw value := by
  unfold readThinking at h
  cases raw with
  | string name =>
      simp only at h
      split at h
      · next hown =>
          obtain rfl := Except.ok.inj h
          exact .followed hown
      · split at h
        · cases h
        · next hlevel =>
            obtain rfl := Except.ok.inj h
            refine .level ?_
            unfold parseThinkingLevel at hlevel
            by_cases hn : name = "none"
            · simp [hn]
            · by_cases hl : name = "low"
              · simp [hl]
              · by_cases hm : name = "medium"
                · simp [hm]
                · by_cases hh : name = "high"
                  · simp [hh]
                  · simp [hn,hl,hm,hh] at hlevel
  | _ => simp [parseThinkingLevel] at h

theorem readTemperature_ok {raw value : Json} (h : readTemperature raw = .ok value) :
    Parsed .temperature raw value := by
  have hcheck : ∀ {x : Double}, (raw = .double x ∨ ∃ i : Int, raw = .int64 i ∧ x = .finite i) →
      (if x < 0 ∨ 2 < x then Except.error "temperature must be between 0 and 2"
        else Except.ok (Json.double x)) = Except.ok value → Parsed .temperature raw value := by
    intro x hraw hx
    split at hx
    · cases hx
    · next hrange =>
        obtain rfl := Except.ok.inj hx
        obtain ⟨hlow,hhigh⟩ := not_or.mp hrange
        exact .number hraw hlow hhigh
  cases raw with
  | double x => exact hcheck (.inl rfl) h
  | int64 i => exact hcheck (.inr ⟨i,rfl,rfl⟩) h
  | _ => cases h

theorem readWhole_ok {name bounds : String} {high : Int} {raw value : Json}
    (h : readWhole name high bounds raw = .ok value) :
    ∃ i, raw = .int64 i ∧ value = .int64 i ∧ 1 ≤ i ∧ i ≤ high := by
  unfold readWhole at h
  split at h
  · next i =>
      split at h
      · cases h
      · next hrange => exact ⟨i,rfl,(Except.ok.inj h).symm,by omega,by omega⟩
  · cases h

theorem parsed_of_parse {setting : SettingName} {raw value : Json}
    (h : parseSetting setting.text raw = .ok value) : Parsed setting raw value := by
  unfold parseSetting at h
  rw [findSetting_text] at h
  simp only at h
  split at h
  · next hn =>
      obtain rfl := isNull_iff.mp hn
      obtain rfl := Except.ok.inj h
      exact .cleared setting
  · cases setting with
    | thinking => exact readThinking_ok h
    | temperature => exact readTemperature_ok h
    | maxTokens =>
        obtain ⟨i,rfl,rfl,hlow,hhigh⟩ := readWhole_ok h
        exact .tokens hlow hhigh
    | toolBudget =>
        obtain ⟨i,rfl,rfl,hlow,hhigh⟩ := readWhole_ok h
        exact .budget hlow hhigh

theorem Parsed.takes {setting : SettingName} {raw value : Json} (h : Parsed setting raw value)
    (hv : value ≠ .null) : setting.takes value = true := by
  cases h with
  | cleared => exact absurd rfl hv
  | followed => exact absurd rfl hv
  | level | number | tokens | budget => rfl

@[simp] theorem chosen_empty (setting : SettingName) : chosen ∅ setting = none := by
  simp [chosen]

theorem text_injective : Function.Injective SettingName.text := by
  intro a b h
  have ha := findSetting_text a
  rw [h,findSetting_text b] at ha
  exact (Option.some.inj ha).symm

-- Writing a setting: null takes the override out, anything else puts it in.
def recorded (overrides : Overrides) (name : String) (value : Json) : Overrides :=
  if value.isNull then overrides.erase name else overrides.insert name value

theorem chosen_recorded_self (overrides : Overrides) (setting : SettingName) (value : Json) :
    chosen (recorded overrides setting.text value) setting =
      if value = .null then none else some value := by
  unfold chosen recorded
  by_cases hv : value = .null
  · simp [hv,isNull]
  · have hn : value.isNull = false := isNull_eq_false.mpr hv
    simp [hv,hn,Option.filter]

theorem chosen_recorded_ne {setting other : SettingName} (h : setting ≠ other)
    (overrides : Overrides) (value : Json) :
    chosen (recorded overrides setting.text value) other = chosen overrides other := by
  have hne : setting.text ≠ other.text := fun he => h (text_injective he)
  unfold chosen recorded
  cases hn : value.isNull <;> simp [Std.ExtTreeMap.getElem?_insert,Std.ExtTreeMap.getElem?_erase,hne]

theorem typed_recorded {overrides : Overrides} {name : String} {raw value : Json}
    (h : Typed overrides) (hp : parseSetting name raw = .ok value) :
    Typed (recorded overrides name value) := by
  obtain ⟨setting,rfl⟩ := named_of_parse hp
  intro other v hv
  by_cases hs : setting = other
  · subst hs
    rw [chosen_recorded_self] at hv
    split at hv
    · cases hv
    · next hnull =>
        obtain rfl := Option.some.inj hv
        exact (parsed_of_parse hp).takes hnull
  · rw [chosen_recorded_ne hs] at hv
    exact h other v hv

theorem typed_empty : Typed ∅ := by
  intro setting value h
  simp at h

theorem takes_of_parsed {setting : SettingName} {raw value : Json} (h : Parsed setting raw value)
    (hraw : raw ≠ .null) : setting.takes raw = true := by
  cases h with
  | cleared => exact absurd rfl hraw
  | followed | level | tokens | budget => rfl
  | number hnum => obtain rfl | ⟨i,rfl,rfl⟩ := hnum <;> rfl

theorem parsed_self {setting : SettingName} {raw value : Json} (h : Parsed setting raw value)
    (hv : value ≠ .null) : Parsed setting value value := by
  cases h with
  | cleared => exact absurd rfl hv
  | followed => exact absurd rfl hv
  | level hname => exact .level hname
  | number _ hlow hhigh => exact .number (.inl rfl) hlow hhigh
  | tokens hlow hhigh => exact .tokens hlow hhigh
  | budget hlow hhigh => exact .budget hlow hhigh

-- Every override a reader takes into account is a value ParseSetting accepts.
def Accepted (overrides : Overrides) : Prop :=
  ∀ setting value, chosen overrides setting = some value → ∃ stored, Parsed setting value stored

theorem ne_null_of_chosen {overrides : Overrides} {setting : SettingName} {value : Json}
    (h : chosen overrides setting = some value) : value ≠ .null := by
  obtain ⟨-,hn⟩ := Option.filter_eq_some_iff.mp h
  rintro rfl
  cases hn

theorem Accepted.typed {overrides : Overrides} (h : Accepted overrides) : Typed overrides := by
  intro setting value hc
  obtain ⟨stored,hp⟩ := h setting value hc
  exact takes_of_parsed hp (ne_null_of_chosen hc)

theorem accepted_recorded {overrides : Overrides} {setting : SettingName} {raw value : Json}
    (h : Accepted overrides) (hp : Parsed setting raw value) :
    Accepted (recorded overrides setting.text value) := by
  intro other v hv
  by_cases hs : setting = other
  · subst hs
    rw [chosen_recorded_self] at hv
    split at hv
    · cases hv
    · next hnull =>
        obtain rfl := Option.some.inj hv
        exact ⟨_,parsed_self hp hnull⟩
  · rw [chosen_recorded_ne hs] at hv
    exact h other v hv

end PuCli
