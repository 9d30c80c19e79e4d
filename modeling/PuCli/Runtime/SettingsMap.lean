import PuCli.Library.Run
import PuCli.Runtime.SettingCommand
import PuCli.Session.PageReceipts

namespace PuCli

open Json

inductive SettingStep where
  | command (command : SettingCommand)
  | reload

structure Adjusting where
  rt : Runtime
  history : List SettingWrite := []

namespace Adjusting

def asked (history : List SettingWrite) (setting : SettingName) : Option SettingValue :=
  (Write.last setting history).join

def reloaded (host : Host) (chars : ToChars) (rt : Runtime) : Runtime :=
  { rt with session := rt.session.bind (fun s =>
    Session.loadSession host.text (s.savedText host.text chars)) }

def step (host : Host) (chars : ToChars) (s : Adjusting) : SettingStep → Adjusting
  | .reload => { s with rt := reloaded host chars s.rt }
  | .command command =>
      { rt := command.run host s.rt
        history :=
          if command.accepted host s.rt then s.history ++ (command.asks host.toFloat).toList
          else s.history }

def Fits (host : Host) (chars : ToChars) (s : Adjusting) : SettingStep → Prop
  | .reload => ∀ session, s.rt.session = some session → host.text.ReadsPretty chars session.serialize
  | .command _ => True

structure Reports (toFloat : Double → Double) (f : InForce) (asked : Option SettingValue)
    (setting : SettingName) (view : SettingView) : Prop where
  name : view.name = setting.text
  value : (f.value setting).Shows toFloat view.value
  source : view.source = if asked.isSome then kSourceSession else kSourceAgent

structure Refines (host : Host) (backend : Backend) (toolBudget : Int32) (s : Adjusting) : Prop where
  resolved : ∃ f, InForce.resolve host.text host.toFloat backend toolBudget s.rt.overrides = .ok f ∧
    (∀ setting, f.value setting =
      (asked s.history setting).getD (InForce.value ⟨backend, toolBudget⟩ setting)) ∧
    List.Forall₂ (fun setting view => Reports host.toFloat f (asked s.history setting) setting view)
      settingTable (viewSettings backend toolBudget s.rt.overrides)
  refused : ∀ command : SettingCommand, command.accepted host s.rt = false →
    command.run host s.rt = s.rt

end Adjusting

theorem chosen_reread (d : Doubles) (overrides : Overrides) (setting : SettingName) :
    chosen (overrides.map (fun _ v => v.reread d)) setting =
      (chosen overrides setting).map (Json.reread d) := by
  unfold chosen
  rw [Std.ExtTreeMap.getElem?_map]
  cases overrides[setting.text]? with
  | none => rfl
  | some value =>
      by_cases hv : value = .null
      · subst hv
        rfl
      · have hn : value.isNull = false := isNull_eq_false.mpr hv
        have hr : (value.reread d).isNull = false :=
          isNull_eq_false.mpr (SessionSpec.reread_ne_null hv)
        simp [Option.filter,hn,hr]

theorem parsed_reread {d : Doubles} {setting : SettingName} {value stored : Json}
    (h : Parsed setting value stored) : ∃ stored', Parsed setting (value.reread d) stored' := by
  cases h with
  | cleared => exact ⟨_,.cleared setting⟩
  | followed hown => exact ⟨_,.followed hown⟩
  | level hname => exact ⟨_,.level hname⟩
  | tokens hlow hhigh => exact ⟨_,.tokens hlow hhigh⟩
  | budget hlow hhigh => exact ⟨_,.budget hlow hhigh⟩
  | @number raw x hnum hlow hhigh =>
      obtain rfl | ⟨i,rfl,rfl⟩ := hnum
      · refine ⟨.double x,.number ?_ hlow hhigh⟩
        rw [Json.reread]
        obtain ⟨q,hden,rfl,hq⟩ | hx := d.reread_cases x
        · exact .inr ⟨q.num,hq,congrArg Double.finite (Rat.coe_int_num_of_den_eq_one hden).symm⟩
        · exact .inl hx
      · exact ⟨_,.number (.inr ⟨i,rfl,rfl⟩) hlow hhigh⟩

theorem meaning_reread {d : Doubles} {toFloat : Double → Double} {setting : SettingName}
    {value : Json} (h : setting.takes value = true) :
    setting.meaning toFloat (value.reread d) = setting.meaning toFloat value := by
  cases setting with
  | temperature => simp only [SettingName.meaning,numberIn,toNumber_reread]
  | thinking => cases value <;> first | rfl | cases h
  | maxTokens => cases value <;> first | rfl | cases h
  | toolBudget => cases value <;> first | rfl | cases h

theorem accepted_reread {d : Doubles} {overrides : Overrides} (h : Accepted overrides) :
    Accepted (overrides.map (fun _ v => v.reread d)) := by
  intro setting value hc
  rw [chosen_reread] at hc
  obtain ⟨old,hold,rfl⟩ := Option.map_eq_some_iff.mp hc
  obtain ⟨stored,hp⟩ := h setting old hold
  exact parsed_reread hp

namespace Adjusting

variable {host : Host} {chars : ToChars} {backend : Backend} {toolBudget : Int32} {s : Adjusting}
variable {setting : SettingName} {want : Option SettingValue} {history : List SettingWrite}

-- What the map holds for each setting means what the last command asked for.
def Matches (toFloat : Double → Double) (overrides : Overrides) (history : List SettingWrite) : Prop :=
  ∀ setting, (chosen overrides setting).map (fun value => setting.meaning toFloat value) =
    asked history setting

theorem asked_put : asked (history ++ [.put setting want]) setting = want := by
  simp [asked]

theorem asked_put_ne {other : SettingName} (h : setting ≠ other) :
    asked (history ++ [.put setting want]) other = asked history other := by
  rw [asked,Write.last_concat_put_ne h,asked]

theorem asked_wipe : asked (history ++ [.wipe]) setting = none := by
  simp [asked]

theorem view_source (backend : Backend) (toolBudget : Int32) (overrides : Overrides)
    (setting : SettingName) : (viewSetting backend toolBudget overrides setting).source =
      if (chosen overrides setting).isSome then kSourceSession else kSourceAgent := by
  unfold viewSetting
  cases chosen overrides setting <;> rfl

theorem reports_of_matches {toFloat : Double → Double} {overrides : Overrides} (ha : Accepted overrides)
    (hm : Matches toFloat overrides history) (setting : SettingName) :
    Reports toFloat (InForce.overlay toFloat ⟨backend, toolBudget⟩ overrides) (asked history setting)
      setting (viewSetting backend toolBudget overrides setting) := by
  have hsome : (asked history setting).isSome = (chosen overrides setting).isSome := by
    rw [← hm setting,Option.isSome_map]
  refine ⟨?_,?_,?_⟩
  · unfold viewSetting
    cases chosen overrides setting <;> rfl
  · rw [InForce.value_overlay]
    unfold viewSetting
    cases hc : chosen overrides setting with
    | none => exact SettingName.shows_own setting backend toolBudget
    | some value =>
        obtain ⟨stored,hp⟩ := ha setting value hc
        exact SettingName.shows_meaning hp (ne_null_of_chosen hc)
  · rw [view_source,hsome]

theorem refines_iff (ha : Accepted s.rt.overrides) :
    s.Refines host backend toolBudget ↔ Matches host.toFloat s.rt.overrides s.history := by
  have hr := @InForce.resolve_of_typed host.text host.toFloat backend toolBudget s.rt.overrides
    ha.typed
  constructor
  · rintro ⟨⟨f,hf,hvalue,hview⟩,-⟩ setting
    rw [hr] at hf
    obtain rfl := Except.ok.inj hf
    have hv := hvalue setting
    rw [InForce.value_overlay] at hv
    rw [viewSettings,List.forall₂_map_right_iff,List.forall₂_same] at hview
    have hsource := (hview setting (InForce.mem_settingTable setting)).source
    rw [view_source] at hsource
    cases hc : chosen s.rt.overrides setting with
    | none =>
        cases hw : asked s.history setting with
        | none => rfl
        | some v =>
            rw [hc,hw] at hsource
            simp [kSourceSession,kSourceAgent] at hsource
    | some value =>
        cases hw : asked s.history setting with
        | none =>
            rw [hc,hw] at hsource
            simp [kSourceSession,kSourceAgent] at hsource
        | some v => simpa [hc,hw] using hv
  · intro hm
    refine ⟨⟨_,hr,?_,?_⟩,SettingCommand.refused_unmoved ha.typed⟩
    · intro setting
      rw [InForce.value_overlay,hm setting]
    · rw [viewSettings,List.forall₂_map_right_iff,List.forall₂_same]
      exact fun setting _ => reports_of_matches ha hm setting

theorem matches_recorded_iff {toFloat : Double → Double} {overrides : Overrides} {value : Json}
    (hm : Matches toFloat overrides history) :
    Matches toFloat (recorded overrides setting.text value) (history ++ [.put setting want]) ↔
      (if value = .null then none else some (setting.meaning toFloat value)) = want := by
  have hself : (chosen (recorded overrides setting.text value) setting).map
      (fun value => setting.meaning toFloat value) =
        if value = .null then none else some (setting.meaning toFloat value) := by
    rw [chosen_recorded_self]
    split <;> rfl
  constructor
  · intro h
    have hs := h setting
    rwa [hself,asked_put] at hs
  · intro h other
    by_cases hs : setting = other
    · subst hs
      rw [hself,h,asked_put]
    · rw [chosen_recorded_ne hs,asked_put_ne hs]
      exact hm other

theorem matches_empty (toFloat : Double → Double) : Matches toFloat ∅ (history ++ [.wipe]) := by
  intro setting
  rw [chosen_empty,asked_wipe]
  rfl

theorem matches_reread {toFloat : Double → Double} {overrides : Overrides} {d : Doubles}
    (ht : Typed overrides) (hm : Matches toFloat overrides history) :
    Matches toFloat (overrides.map (fun _ v => v.reread d)) history := by
  intro setting
  rw [← hm setting,chosen_reread]
  cases hc : chosen overrides setting with
  | none => rfl
  | some value => exact congrArg some (meaning_reread (ht setting value hc))

structure Sane (s : Adjusting) : Prop where
  session : s.rt.current.Sound
  accepted : Accepted s.rt.overrides

theorem sound_written {rt : Runtime} {name : String} {raw value : Json} (h : rt.current.Sound)
    (hp : parseSetting name raw = .ok value) : (rt.written name value).current.Sound :=
  @Session.step_sound ⟨fun _ => none, fun _ => "", id, fun _ => ""⟩ _ _ h (.setSetting hp)

theorem sound_emptied {rt : Runtime} (h : rt.current.Sound) : rt.emptied.current.Sound :=
  @Session.step_sound ⟨fun _ => none, fun _ => "", id, fun _ => ""⟩ _ _ h .clearSettings

theorem overrides_reloaded {rt : Runtime} (h : rt.current.Sound)
    (hr : ∀ session, rt.session = some session → host.text.ReadsPretty chars session.serialize) :
    (reloaded host chars rt).overrides = rt.overrides.map (fun _ v => v.reread chars.toDoubles) ∧
      (reloaded host chars rt).current.Sound := by
  unfold Runtime.current at h ⊢
  unfold reloaded Runtime.overrides
  cases hs : rt.session with
  | none =>
      rw [hs] at h
      refine ⟨?_,h⟩
      ext1 key
      simp
  | some session =>
      rw [hs] at h
      have hl := @Session.loadSession_saved host.text chars session h (hr session hs)
      simp only [Option.bind_some,hl]
      exact ⟨rfl,h.reread⟩

theorem sane_step (h : s.Sane) {o : SettingStep} (hf : s.Fits host chars o) :
    (s.step host chars o).Sane := by
  cases o with
  | reload =>
      obtain ⟨hover,hsound⟩ := overrides_reloaded h.session hf
      refine ⟨hsound,?_⟩
      change Accepted (reloaded host chars s.rt).overrides
      rw [hover]
      exact accepted_reread h.accepted
  | command command =>
      obtain ⟨-,hsame,-⟩ | rfl | ⟨setting,raw,value,want,hw⟩ :=
        @SettingCommand.run_cases host s.rt h.accepted.typed command
      · exact ⟨by rw [step,hsame]; exact h.session,by rw [step,hsame]; exact h.accepted⟩
      · simp only [step,SettingCommand.clearSettings_accepted]
        refine ⟨sound_emptied h.session,?_⟩
        intro setting value hc
        change chosen ∅ setting = some value at hc
        simp at hc
      · simp only [step,hw.run]
        refine ⟨sound_written h.session hw.parsed,?_⟩
        change Accepted (s.rt.written setting.text value).overrides
        rw [Runtime.overrides_written]
        exact accepted_recorded h.accepted (parsed_of_parse hw.parsed)

theorem refines_step (h : s.Sane) {o : SettingStep} (hf : s.Fits host chars o)
    (hr : s.Refines host backend toolBudget) :
    (s.step host chars o).Refines host backend toolBudget ↔
      o ≠ .command (.thinking ["default"]) := by
  have hm := (refines_iff h.accepted).mp hr
  have hnext := sane_step h hf
  rw [refines_iff hnext.accepted]
  cases o with
  | reload =>
      refine iff_of_true ?_ (by simp)
      change Matches _ (reloaded host chars s.rt).overrides _
      rw [(overrides_reloaded h.session hf).1]
      exact matches_reread h.accepted.typed hm
  | command command =>
      obtain ⟨hno,hsame,hne⟩ | rfl | ⟨setting,raw,value,want,hw⟩ :=
        @SettingCommand.run_cases host s.rt h.accepted.typed command
      · refine iff_of_true ?_ (by simpa using hne)
        simp only [step,hsame,hno]
        exact hm
      · refine iff_of_true ?_ (by simp)
        simp only [step,SettingCommand.clearSettings_accepted,if_true]
        exact matches_empty _
      · simp only [step,hw.run,hw.accepted,if_true,hw.asks,Option.toList_some]
        change Matches _ (s.rt.written setting.text value).overrides _ ↔ _
        rw [Runtime.overrides_written,matches_recorded_iff hm,hw.means]
        simp

def chatAlone : Runtime where
  agents := ⟨"chat", [Runtime.chat], []⟩
  toolbox := ⟨none, Runtime.builtinTools⟩

def budgeted : Runtime := chatAlone.written "tool_budget" (.int64 7)

def plainChars : ToChars := ⟨.plain, fun q => toString q.num⟩

-- A parser that has been given one session file to read.
def fileText (file : Json) : JsonText where
  parse text :=
    if text = file.prettyPrint bareSite.host.text plainChars then some (file.reread .plain) else none
  serialize := bareSite.host.text.serialize
  parseError := bareSite.host.text.parseError
  kindError := bareSite.host.text.kindError

def fileHost (file : Json) : Host := { bareSite.host with text := fileText file }

theorem readsPretty_fileHost (file : Json) : (fileHost file).text.ReadsPretty plainChars file := by
  have hprint := @Json.prettyPrint_congr (fileHost file).text bareSite.host.text rfl plainChars file
  rw [JsonText.ReadsPretty,hprint]
  simp only [fileHost,fileText,if_true]
  rfl

end Adjusting

end PuCli
