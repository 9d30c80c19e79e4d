import PuCli.Runtime.AgentSwitch
import PuCli.Runtime.CommandRouter
import PuCli.Library.Run

namespace PuCli

open CommandRouter

structure Wanted where
  gateway : GatewayId
  model : String
  host : String

def Wanted.backend (w : Wanted) : Backend := { gateway := w.gateway, model := w.model, host := w.host }

def Wanted.Served (w : Wanted) (backend : Backend) : Prop :=
  backend.gateway = w.gateway ∧ backend.model = w.model ∧ backend.host = w.host

def Wanted.InUse (host : Host) (w : Wanted) (rt : Runtime) : Prop :=
  ∃ backend, rt.currentBackend host = .ok backend ∧ w.Served backend

-- A command that names a type and a model asks for this backend.
def wanted : List String → Option Wanted
  | [name, model] => (parseGatewayId name).map (fun g => ⟨g, model, defaultHostFor g⟩)
  | [name, model, host] =>
      (parseGatewayId name).map (fun g => ⟨g, model, if host = "" then defaultHostFor g else host⟩)
  | _ => none

def reportsSwitch : Except String (Bool × String) → Bool
  | .ok (_, output) => "Switched".toList.isPrefixOf output.toList
  | .error _ => false

structure Asked where
  rt : Runtime
  want : Option Wanted := none

namespace Asked

def recalls (s : Asked) (args : List String) (switched : Bool) : Option Wanted :=
  match wanted args with
  | some w => if switched then some w else none
  | none => s.want.filter (fun w => !switched || args.head? = some (gatewayName w.gateway))

def run (site : Site) (s : Asked) (args : List String) : Asked :=
  let done := handleBackend site s.rt args
  ⟨done.2, s.recalls args (reportsSwitch done.1)⟩

def LastWins (host : Host) (s : Asked) : Prop := ∀ w, s.want = some w → w.InUse host s.rt

def Named (s : Asked) : Prop := ∀ w, s.want = some w → s.rt.agents.activeAgent = gatewayName w.gateway

end Asked

theorem gatewayName_id : ∀ gateway ∈ gateways, gateway.name = gatewayName gateway.id := by decide

theorem parseGatewayId_eq_some {name : String} {g : GatewayId} (h : parseGatewayId name = some g) :
    name = gatewayName g := by
  obtain ⟨gateway,hfind,rfl⟩ := Option.map_eq_some_iff.mp h
  have hname : gateway.name = name := by simpa using List.find?_some hfind
  rw [← hname]
  exact gatewayName_id gateway (List.mem_of_find?_eq_some hfind)

theorem wanted_head {args : List String} {w : Wanted} (h : wanted args = some w) :
    ∃ rest, args = gatewayName w.gateway :: rest := by
  unfold wanted at h
  split at h
  · obtain ⟨g,hg,rfl⟩ := Option.map_eq_some_iff.mp h
    exact ⟨_,by rw [parseGatewayId_eq_some hg]⟩
  · obtain ⟨g,hg,rfl⟩ := Option.map_eq_some_iff.mp h
    exact ⟨_,by rw [parseGatewayId_eq_some hg]⟩
  · cases h

namespace Runtime

variable {site : Site} {host : Host} {rt : Runtime} {agent : AgentEntry} {m : AgentManager}
variable {w : Wanted} {args rest : List String}

theorem inUse_iff : w.InUse host rt ↔ Typed rt.overrides ∧ w.Served rt.configuredBackend := by
  unfold Wanted.InUse currentBackend inForce overrides
  cases rt.session with
  | none =>
      have ht := typed_empty
      simp [ht]
  | some s =>
      simp only
      by_cases ht : Typed s.spec.overrides
      · rw [InForce.resolve_of_typed ht,InForce.overlay_eq]
        simp [ht,Except.map,Wanted.Served]
      · have hno : ∀ f, InForce.resolve host.text host.toFloat rt.configuredBackend
            rt.configuredToolBudget s.spec.overrides ≠ .ok f :=
          fun f hf => ht (InForce.resolve_eq_ok_iff.mp hf).1
        constructor
        · rintro ⟨b,hb,-⟩
          cases hr : InForce.resolve host.text host.toFloat rt.configuredBackend
              rt.configuredToolBudget s.spec.overrides with
          | error what => simp [hr,Except.map] at hb
          | ok f => exact absurd hr (hno f)
        · rintro ⟨h,-⟩
          exact absurd h ht

-- A session that may not be renamed goes on with the agent it names.
def HeldBy (m : AgentManager) (rt : Runtime) (held : AgentEntry) : Prop :=
  ∃ s, rt.session = some s ∧ s.hasPendingToolCalls = true ∧
    m.agentConfig s.spec.agentName = some held

theorem served_activated (hc : m.agentConfig agent.name = some agent) :
    w.Served ((rt.withAgents m).activated site agent).configuredBackend ↔
      (∀ held, HeldBy m rt held → w.Served held.backend) ∧
        ((∀ held, ¬ HeldBy m rt held) → w.Served agent.backend) := by
  have hnamed := named_activated site (rt.withAgents m) agent
  rw [configuredBackend_eq]
  change w.Served ((m.setActiveAgent agent.name).backendAt _) ↔ _
  obtain ⟨⟨s,hs,hp⟩,hold⟩ | ⟨hfree,hnew⟩ := hnamed
  · have hs : rt.session = some s := hs
    have hn : ((rt.withAgents m).activated site agent).named = some s.spec.agentName := by
      rw [hold]
      change rt.session.map (fun s => s.spec.agentName) = _
      rw [hs]
      rfl
    have hheld (held : AgentEntry) :
        HeldBy m rt held ↔ m.agentConfig s.spec.agentName = some held := by
      simp [HeldBy,hs,hp]
    simp only [hheld]
    rw [hn]
    change w.Served (((m.agentConfig s.spec.agentName).map AgentEntry.backend).getD
      (((m.agentConfig agent.name).map AgentEntry.backend).getD {})) ↔ _
    rw [hc]
    cases m.agentConfig s.spec.agentName <;> simp
  · have hheld (held : AgentEntry) : ¬ HeldBy m rt held :=
      fun ⟨s,hs,hp,_⟩ => hfree ⟨s,hs,hp⟩
    have hn : ((rt.withAgents m).activated site agent).named = rt.named.map (fun _ => agent.name) := hnew
    rw [hn,AgentManager.backendAt_active,hc]
    simp [hheld]

-- An adopted backend has the gateway's name to itself, so only a held session
-- can keep another one in use.
theorem served_adopted (hc : rt.agents.agentConfig (gatewayName w.gateway) = none) :
    w.Served ((rt.adopting w.backend).activated site (rt.adopted w.backend)).configuredBackend ↔
      ∀ held, HeldBy rt.agents rt held → w.Served held.backend := by
  have hown : (rt.adopting w.backend).agents.agentConfig (rt.adopted w.backend).name =
      some (rt.adopted w.backend) := by
    have hname : (rt.adopted w.backend).name = gatewayName w.gateway := rfl
    rw [AgentManager.agentConfig_eq,Option.or_eq_none_iff] at hc
    change (rt.agents.adopt (rt.adopted w.backend)).agentConfig (gatewayName w.gateway) = _
    rw [AgentManager.agentConfig_adopt,hc.1,if_pos hname]
    rfl
  have hserved : w.Served (rt.adopted w.backend).backend := ⟨rfl,rfl,rfl⟩
  refine (served_activated hown).trans ?_
  constructor
  · rintro ⟨h,-⟩ held ⟨s,hs,hp,hn⟩
    refine h held ⟨s,hs,hp,?_⟩
    have hne : (rt.adopted w.backend).name ≠ s.spec.agentName := by
      intro he
      rw [← he] at hn
      rw [show rt.agents.agentConfig (rt.adopted w.backend).name = none from hc] at hn
      cases hn
    exact (AgentManager.agentConfig_adopt_ne rt.agents hne).trans hn
  · intro h
    refine ⟨?_,fun _ => hserved⟩
    rintro held ⟨s,hs,hp,hn⟩
    by_cases he : (rt.adopted w.backend).name = s.spec.agentName
    · rw [← he,hown] at hn
      obtain rfl := Option.some.inj hn
      exact hserved
    · exact h held ⟨s,hs,hp,(AgentManager.agentConfig_adopt_ne rt.agents he).symm.trans hn⟩

theorem handleBackend_unmoved (hw : wanted args = none)
    (hc : ∀ name, args.head? = some name → rt.agents.agentConfig name = none) :
    (handleBackend site rt args).2 = rt := by
  unfold handleBackend
  split
  · split <;> rfl
  · next name rest =>
      rw [hc name rfl]
      simp only
      split
      · rfl
      · next model =>
          have hp : parseGatewayId name = none := by simpa [wanted] using hw
          simp only [adoptBackend,hp]
          rfl
      · next model host =>
          have hp : parseGatewayId name = none := by simpa [wanted] using hw
          simp only [adoptBackend,hp]
          rfl
      · rfl

theorem reportsSwitch_ok {rt' : Runtime} {output : String} (h : "Switched".toList <+: output.toList) :
    reportsSwitch (describeOutcome (.ok (), rt') output).1 = true :=
  List.isPrefixOf_iff_prefix.mpr h

theorem reportsSwitch_error {rt' : Runtime} {what output : String} :
    reportsSwitch (describeOutcome (.error what, rt') output).1 = false := by
  simp [describeOutcome,said,reportsSwitch,describeError,String.toList_append,List.isPrefixOf]

theorem switched_append {a b : String} (h : "Switched".toList <+: a.toList) :
    "Switched".toList <+: (a ++ b).toList := by
  rw [String.toList_append]
  exact h.trans (List.prefix_append _ _)

theorem handleBackend_named {name : String} (hc : rt.agents.agentConfig name = some agent) :
    let done := handleBackend site rt (name :: rest)
    (rt.agents.activeAgent = name ∧ reportsSwitch done.1 = true ∧ done.2 = rt) ∨
      (rt.agents.activeAgent ≠ name ∧ Typed rt.overrides ∧ reportsSwitch done.1 = true ∧
        done.2 = rt.activated site agent) ∨
      (rt.agents.activeAgent ≠ name ∧ ¬ Typed rt.overrides ∧ reportsSwitch done.1 = false ∧
        done.2 = rt.equipped site agent) := by
  have hname : agent.name = name := AgentManager.name_of_agentConfig hc
  have hsaid : "Switched".toList <+: ("Switched to agent: " ++ name ++ " (" ++
      gatewayName agent.backend.gateway ++ "/" ++ agent.backend.model ++ ")").toList :=
    switched_append (switched_append (switched_append (switched_append (switched_append
      (switched_append (by decide))))))
  simp only [handleBackend,hc,switchAgent,hname]
  by_cases ha : rt.agents.activeAgent = name
  · rw [if_pos ha]
    exact .inl ⟨ha,reportsSwitch_ok hsaid,rfl⟩
  · rw [if_neg ha]
    by_cases ht : Typed rt.overrides
    · rw [activate_of_typed ht]
      exact .inr (.inl ⟨ha,ht,reportsSwitch_ok hsaid,rfl⟩)
    · obtain ⟨what,hrun⟩ := @activate_of_not_typed site rt agent ht
      rw [hrun]
      exact .inr (.inr ⟨ha,ht,reportsSwitch_error,rfl⟩)

theorem handleBackend_adopts (hw : wanted args = some w)
    (hc : rt.agents.agentConfig (gatewayName w.gateway) = none) :
    let done := handleBackend site rt args
    (Typed rt.overrides ∧ reportsSwitch done.1 = true ∧
        done.2 = (rt.adopting w.backend).activated site (rt.adopted w.backend)) ∨
      (¬ Typed rt.overrides ∧ reportsSwitch done.1 = false) := by
  have hdone : handleBackend site rt args = describeOutcome (rt.switchBackend site w.backend)
      ("Switched backend to: " ++ gatewayName w.gateway ++ " (model: " ++ w.model ++ ", host: " ++
        w.host ++ ")") := by
    unfold wanted at hw
    split at hw
    all_goals
      first
      | cases hw
      | obtain ⟨g,hg,rfl⟩ := Option.map_eq_some_iff.mp hw
        obtain rfl := parseGatewayId_eq_some hg
        simp only at hc
        simp only [handleBackend,hc,adoptBackend,hg]
        rfl
  rw [hdone,switchBackend_eq]
  by_cases ht : Typed rt.overrides
  · rw [@activate_of_typed site (rt.adopting w.backend) _ ht]
    refine .inl ⟨ht,reportsSwitch_ok ?_,rfl⟩
    exact switched_append (switched_append (switched_append (switched_append (switched_append
      (switched_append (by decide))))))
  · obtain ⟨what,hrun⟩ := @activate_of_not_typed site (rt.adopting w.backend)
      (rt.adopted w.backend) ht
    rw [hrun]
    exact .inr ⟨ht,reportsSwitch_error⟩

end Runtime

namespace Asked

open PuCli.Runtime

variable {site : Site} {host : Host} {s : Asked} {w : Wanted} {args : List String}

def Keeps (s : Asked) (args : List String) : Prop :=
  ∀ w, wanted args = some w →
    match s.rt.agents.agentConfig (gatewayName w.gateway) with
    | none => Typed s.rt.overrides → ∀ held, HeldBy s.rt.agents s.rt held → w.Served held.backend
    | some agent =>
        if s.rt.agents.activeAgent = gatewayName w.gateway then
          Typed s.rt.overrides ∧ w.Served s.rt.configuredBackend
        else Typed s.rt.overrides →
          (∀ held, HeldBy s.rt.agents s.rt held → w.Served held.backend) ∧
            ((∀ held, ¬ HeldBy s.rt.agents s.rt held) → w.Served agent.backend)

theorem lastWins_some (h : s.want = some w) : s.LastWins host ↔ w.InUse host s.rt := by
  simp [LastWins,h]

theorem lastWins_none (h : s.want = none) : s.LastWins host := by
  simp [LastWins,h]

theorem want_run (hw : wanted args = some w) :
    (s.run site args).want =
      if reportsSwitch (handleBackend site s.rt args).1 then some w else none := by
  simp only [run,recalls,hw]

theorem lastWins_adopted (hw : wanted args = some w)
    (hc : s.rt.agents.agentConfig (gatewayName w.gateway) = none) :
    (s.run site args).LastWins site.host ↔ (Typed s.rt.overrides →
      ∀ held, HeldBy s.rt.agents s.rt held → w.Served held.backend) := by
  have hwant := @want_run site s w args hw
  obtain ⟨ht,hsaid,hrt⟩ | ⟨ht,hsaid⟩ := @handleBackend_adopts site s.rt w args hw hc
  · rw [hsaid,if_pos rfl] at hwant
    have hrt : (s.run site args).rt = _ := hrt
    have hover : ((s.rt.adopting w.backend).activated site (s.rt.adopted w.backend)).overrides =
        s.rt.overrides := overrides_activated _ _ _
    rw [lastWins_some hwant,hrt,inUse_iff,hover,served_adopted hc]
    exact (and_iff_right ht).trans ⟨fun h _ => h,fun h => h ht⟩
  · rw [hsaid] at hwant
    exact iff_of_true (lastWins_none hwant) (fun h => absurd h ht)

theorem lastWins_found {agent : AgentEntry} (hw : wanted args = some w)
    (hc : s.rt.agents.agentConfig (gatewayName w.gateway) = some agent) :
    (s.run site args).LastWins site.host ↔
      if s.rt.agents.activeAgent = gatewayName w.gateway then
        Typed s.rt.overrides ∧ w.Served s.rt.configuredBackend
      else Typed s.rt.overrides →
        (∀ held, HeldBy s.rt.agents s.rt held → w.Served held.backend) ∧
          ((∀ held, ¬ HeldBy s.rt.agents s.rt held) → w.Served agent.backend) := by
  have hname : agent.name = gatewayName w.gateway := AgentManager.name_of_agentConfig hc
  have hwant := @want_run site s w args hw
  obtain ⟨rest,rfl⟩ := wanted_head hw
  obtain ⟨ha,hsaid,hrt⟩ | ⟨ha,ht,hsaid,hrt⟩ | ⟨ha,ht,hsaid,-⟩ :=
    @handleBackend_named site s.rt agent rest _ hc
  · rw [hsaid,if_pos rfl] at hwant
    have hrt : (s.run site (gatewayName w.gateway :: rest)).rt = s.rt := hrt
    rw [lastWins_some hwant,hrt,inUse_iff,if_pos ha]
  · rw [hsaid,if_pos rfl] at hwant
    have hrt : (s.run site (gatewayName w.gateway :: rest)).rt = s.rt.activated site agent := hrt
    rw [lastWins_some hwant,hrt,inUse_iff,overrides_activated,if_neg ha]
    have hserved := @served_activated site s.rt agent s.rt.agents w (hname ▸ hc)
    exact (and_iff_right ht).trans (hserved.trans ⟨fun h _ => h,fun h => h ht⟩)
  · rw [hsaid] at hwant
    rw [if_neg ha]
    exact iff_of_true (lastWins_none hwant) (fun h => absurd h ht)

-- Any other command leaves the agent in use alone, or is a switch away from it.
theorem unmoved_of_kept (hw : wanted args = none) (hn : s.Named)
    (h : (s.run site args).want = some w) :
    s.want = some w ∧ ((s.run site args).rt = s.rt ∨
      (¬ Typed s.rt.overrides ∧
        (s.run site args).rt.agents.activeAgent = s.rt.agents.activeAgent)) := by
  simp only [run,recalls,hw,Option.filter_eq_some_iff,Bool.or_eq_true,Bool.not_eq_true',
    decide_eq_true_eq] at h
  obtain ⟨hwant,hstay⟩ := h
  refine ⟨hwant,?_⟩
  change (handleBackend site s.rt args).2 = s.rt ∨
    (_ ∧ (handleBackend site s.rt args).2.agents.activeAgent = _)
  by_cases hfree : ∀ name, args.head? = some name → s.rt.agents.agentConfig name = none
  · exact .inl (handleBackend_unmoved hw hfree)
  · push Not at hfree
    obtain ⟨name,hhead,hfound⟩ := hfree
    obtain ⟨rest,rfl⟩ : ∃ rest, args = name :: rest := by
      cases args with
      | nil => cases hhead
      | cons first rest => exact ⟨rest,by rw [Option.some.inj hhead]⟩
    obtain ⟨agent,hc⟩ := Option.ne_none_iff_exists'.mp hfound
    obtain ⟨-,-,hrt⟩ | ⟨ha,-,hsaid,-⟩ | ⟨-,ht,-,hrt⟩ := @handleBackend_named site s.rt agent rest name hc
    · exact .inl hrt
    · rw [hsaid] at hstay
      obtain hno | hsame := hstay
      · cases hno
      · exact absurd ((hn w hwant).trans (Option.some.inj hsame).symm) ha
    · exact .inr ⟨ht,by rw [hrt]; rfl⟩

theorem named_run (hn : s.Named) (args : List String) : (s.run site args).Named := by
  intro w hwant
  cases hw : wanted args with
  | none =>
      obtain ⟨hold,hrt | ⟨-,hactive⟩⟩ := unmoved_of_kept hw hn hwant
      · rw [hrt]
        exact hn w hold
      · rw [hactive]
        exact hn w hold
  | some v =>
      have hrun := @want_run site s v args hw
      rw [hwant] at hrun
      split at hrun
      · next hsaid =>
          obtain rfl := Option.some.inj hrun
          change (handleBackend site s.rt args).2.agents.activeAgent = _
          cases hc : s.rt.agents.agentConfig (gatewayName w.gateway) with
          | none =>
              obtain ⟨-,-,hrt⟩ | ⟨-,hno⟩ := @handleBackend_adopts site s.rt w args hw hc
              · rw [hrt]
                rfl
              · rw [hno] at hsaid
                cases hsaid
          | some agent =>
              have hname : agent.name = gatewayName w.gateway := AgentManager.name_of_agentConfig hc
              obtain ⟨rest,rfl⟩ := wanted_head hw
              obtain ⟨ha,-,hrt⟩ | ⟨-,-,-,hrt⟩ | ⟨-,-,hno,-⟩ :=
                @handleBackend_named site s.rt agent rest _ hc
              · rw [hrt]
                exact ha
              · rw [hrt]
                exact hname
              · rw [hno] at hsaid
                cases hsaid
      · cases hrun

theorem lastWins_run (hn : s.Named) (hg : s.LastWins site.host) (args : List String) :
    (s.run site args).LastWins site.host ↔ s.Keeps args := by
  cases hw : wanted args with
  | none =>
      refine iff_of_true ?_ (fun w h => by rw [hw] at h; cases h)
      intro w hwant
      obtain ⟨hold,hrt | ⟨hno,-⟩⟩ := unmoved_of_kept hw hn hwant
      · rw [hrt]
        exact hg w hold
      · exact absurd (inUse_iff.mp (hg w hold)).1 hno
  | some w =>
      have hkeeps : s.Keeps args ↔ match s.rt.agents.agentConfig (gatewayName w.gateway) with
          | none => Typed s.rt.overrides →
              ∀ held, HeldBy s.rt.agents s.rt held → w.Served held.backend
          | some agent =>
              if s.rt.agents.activeAgent = gatewayName w.gateway then
                Typed s.rt.overrides ∧ w.Served s.rt.configuredBackend
              else Typed s.rt.overrides →
                (∀ held, HeldBy s.rt.agents s.rt held → w.Served held.backend) ∧
                  ((∀ held, ¬ HeldBy s.rt.agents s.rt held) → w.Served agent.backend) := by
        unfold Keeps
        rw [hw]
        simp only [Option.some.injEq,forall_eq']
      rw [hkeeps]
      cases hc : s.rt.agents.agentConfig (gatewayName w.gateway) with
      | none => exact lastWins_adopted hw hc
      | some agent => exact lastWins_found hw hc

theorem last_backend_wins_iff (site : Site) (rt : Runtime) (commands : List (List String)) :
    (∀ s ∈ Run.visited (Asked.run site) { rt := rt } commands, s.LastWins site.host) ↔
      Run.Along (Asked.run site) Asked.Keeps { rt := rt } commands := by
  have hinv : ∀ (s : Asked) (args : List String), s.Named → True → (s.run site args).Named :=
    fun _ args hn _ => named_run hn args
  have hkeep : ∀ (s : Asked) (args : List String), s.Named → True → s.LastWins site.host →
      ((s.run site args).LastWins site.host ↔ s.Keeps args) :=
    fun _ args hn _ hg => lastWins_run hn hg args
  have hstart : ({ rt := rt } : Asked).Named := fun w h => by cases h
  exact Run.visited_good_iff hinv hkeep hstart (lastWins_none rfl) (Run.along_true _ _)

def onlyChat : Runtime where
  agents := ⟨"chat", [Runtime.chat], []⟩
  toolbox := ⟨none, Runtime.builtinTools⟩

theorem repeated_backend_keeps_model :
    let first := Asked.run bareSite { rt := onlyChat } ["ollama", "llama3"]
    let second := first.run bareSite ["ollama", "mistral"]
    second.want = some ⟨.ollama, "mistral", "http://localhost:11434"⟩ ∧
      (second.rt.currentBackend bareSite.host).map Backend.model = .ok "llama3" ∧
      ¬ second.LastWins bareSite.host ∧
      ¬ ∀ s ∈ Run.visited (Asked.run bareSite) { rt := onlyChat }
        [["ollama", "llama3"], ["ollama", "mistral"]], s.LastWins bareSite.host := by
  have hwant : ((Asked.run bareSite { rt := onlyChat } ["ollama", "llama3"]).run bareSite
      ["ollama", "mistral"]).want = some ⟨.ollama, "mistral", "http://localhost:11434"⟩ := by rfl
  have hmodel : (((Asked.run bareSite { rt := onlyChat } ["ollama", "llama3"]).run bareSite
      ["ollama", "mistral"]).rt.currentBackend bareSite.host).map Backend.model =
        .ok "llama3" := by rfl
  have hlost : ¬ ((Asked.run bareSite { rt := onlyChat } ["ollama", "llama3"]).run bareSite
      ["ollama", "mistral"]).LastWins bareSite.host := by
    intro h
    obtain ⟨backend,hb,-,hm,-⟩ := (lastWins_some hwant).mp h
    rw [hb] at hmodel
    have hsame : "mistral" = "llama3" := hm.symm.trans (Except.ok.inj hmodel)
    simp at hsame
  exact ⟨hwant,hmodel,hlost,fun h => hlost (h _ (by simp [Run.visited]))⟩

end Asked

end PuCli
