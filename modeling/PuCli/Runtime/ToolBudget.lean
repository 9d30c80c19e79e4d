import PuCli.Library.Run
import PuCli.Runtime.Initialize

namespace PuCli

open Json

inductive Tuning where
  | switchAgent (name : String)
  | switchBackend (backend : Backend)
  | setSetting (name : String) (raw : Json)
  | clearSettings

namespace Tuning

def ran (site : Site) (rt : Runtime) : Tuning → Except String Unit × Runtime
  | .switchAgent name => rt.handleApiAgentSwitch site name
  | .switchBackend backend => rt.switchBackend site backend
  | .setSetting name raw => rt.setSetting site.host name raw
  | .clearSettings => rt.clearSettings site.host

-- A call that throws leaves what it had written by then.
def step (site : Site) (rt : Runtime) (op : Tuning) : Runtime := (op.ran site rt).2

def Overrides (rt : Runtime) : Prop := chosen rt.overrides .toolBudget ≠ none

-- The agent a switch lands on has the budget of the one it leaves, or the session its own.
def KeepsBudget (rt : Runtime) : Tuning → Prop
  | .switchAgent name =>
      Overrides rt ∨ ∀ agent, rt.agents.agentConfig name = some agent →
        agent.budget = rt.configuredToolBudget
  | .switchBackend backend =>
      Overrides rt ∨ ∀ agent, rt.agents.agentConfigs.find?
        (fun entry => entry.name = gatewayName backend.gateway) = some agent →
          agent.budget = rt.configuredToolBudget
  | .setSetting _ _ => True
  | .clearSettings => True

end Tuning

namespace Startup

def resumed (start : Startup) (s : Session) : Option AgentEntry :=
  (start.config.agents.find? (fun entry => entry.name = start.remembered s)).filter
    (fun entry => entry.name ≠ start.activeAgent)

def budget (start : Startup) : Int32 :=
  (start.defaultEntry.bind AgentEntry.toolCallBudget).getD Runtime.kDefaultToolCallBudget

def KeepsBudget (text : JsonText) (start : Startup) : Prop :=
  ∀ s, start.stored text = some s →
    match start.resumed s with
    | some agent => chosen s.spec.overrides .toolBudget ≠ none ∨ agent.budget = start.budget
    | none => Typed s.spec.overrides ∧ budgetOver start.budget s.spec.overrides = start.budget

end Startup

namespace Runtime

variable {site : Site} {host : Host} {rt rt' : Runtime} {start : Startup}

def BudgetInForce (host : Host) (rt : Runtime) : Prop :=
  ∃ backend f, rt.currentBackend host = .ok backend ∧
    InForce.resolve host.text host.toFloat backend rt.configuredToolBudget rt.overrides = .ok f ∧
    rt.toolCallBudget = f.toolBudget

theorem currentBackend_of_typed (h : Typed rt.overrides) :
    ∃ backend, rt.currentBackend host = .ok backend := by
  unfold currentBackend
  split
  · exact ⟨_,rfl⟩
  · refine ⟨(InForce.overlay host.toFloat ⟨rt.configuredBackend, rt.configuredToolBudget⟩
      rt.overrides).backend,?_⟩
    unfold inForce
    rw [InForce.resolve_of_typed h]
    rfl

theorem budgetInForce_iff :
    BudgetInForce host rt ↔ Typed rt.overrides ∧ rt.toolCallBudget = rt.budgetInForce := by
  constructor
  · rintro ⟨backend,f,_,hf,hb⟩
    obtain ⟨ht,rfl⟩ := InForce.resolve_eq_ok_iff.mp hf
    exact ⟨ht,hb.trans (toolBudget_overlay _ _ _)⟩
  · rintro ⟨ht,hb⟩
    obtain ⟨backend,hback⟩ := @currentBackend_of_typed host rt ht
    have hover := toolBudget_overlay host.toFloat ⟨backend, rt.configuredToolBudget⟩ rt.overrides
    exact ⟨backend,_,hback,InForce.resolve_of_typed ht,hb.trans hover.symm⟩

theorem budgetOver_eq_iff {own old : Int32} {overrides : Overrides} :
    budgetOver old overrides = budgetOver own overrides ↔
      chosen overrides .toolBudget ≠ none ∨ own = old := by
  unfold budgetOver
  cases chosen overrides .toolBudget with
  | none => simp [eq_comm]
  | some value => simp

theorem budgetInForce_activated (h : Typed rt.overrides) (agent : AgentEntry) :
    BudgetInForce host (rt.activated site agent) ↔
      chosen rt.overrides .toolBudget ≠ none ∨
        rt.agents.budgetOf agent.name = rt.configuredToolBudget := by
  rw [budgetInForce_iff,overrides_activated,and_iff_right h]
  have hnew : (rt.activated site agent).budgetInForce =
      budgetOver (rt.agents.budgetOf agent.name) rt.overrides := by
    unfold budgetInForce
    rw [overrides_activated]
    rfl
  rw [hnew]
  exact budgetOver_eq_iff

theorem budgetOf_adopted (rt : Runtime) (backend : Backend) :
    (rt.adopting backend).agents.budgetOf (rt.adopted backend).name =
      match rt.agents.agentConfigs.find?
          (fun entry => entry.name = gatewayName backend.gateway) with
      | some agent => agent.budget
      | none => rt.configuredToolBudget := by
  unfold AgentManager.budgetOf adopting
  rw [AgentManager.agentConfig_adopt,if_pos rfl]
  change (((rt.agents.agentConfigs.find?
    (fun entry => entry.name = gatewayName backend.gateway)).or _).bind _).getD _ = _
  cases rt.agents.agentConfigs.find? (fun entry => entry.name = gatewayName backend.gateway) <;> rfl

-- The adopted entry carries the budget of the agent it stands in for.
theorem configuredToolBudget_adopting (rt : Runtime) (backend : Backend) :
    (rt.adopting backend).configuredToolBudget = rt.configuredToolBudget := by
  by_cases h : (rt.adopted backend).name = rt.agents.activeAgent
  · have hb := budgetOf_adopted rt backend
    rw [h] at hb
    rw [configuredToolBudget_eq]
    refine hb.trans ?_
    change gatewayName backend.gateway = rt.agents.activeAgent at h
    rw [h,configuredToolBudget_eq,AgentManager.budgetOf,AgentManager.agentConfig_eq]
    cases hc : rt.agents.agentConfigs.find? (fun entry => entry.name = rt.agents.activeAgent) with
    | none => simp only [Option.none_or]
    | some agent => rfl
  · exact congrArg (fun agent : Option AgentEntry =>
      (agent.bind AgentEntry.toolCallBudget).getD kDefaultToolCallBudget)
      (AgentManager.agentConfig_adopt_ne rt.agents h)

theorem budgetInForce_step (site : Site) (rt : Runtime) (op : Tuning)
    (h : BudgetInForce site.host rt) :
    BudgetInForce site.host (op.step site rt) ↔ op.KeepsBudget rt := by
  have hin := budgetInForce_iff.mp h
  cases op with
  | switchAgent name =>
      change BudgetInForce site.host (rt.handleApiAgentSwitch site name).2 ↔
        chosen rt.overrides .toolBudget ≠ none ∨ ∀ agent, rt.agents.agentConfig name = some agent →
          agent.budget = rt.configuredToolBudget
      cases hc : rt.agents.agentConfig name with
      | none => simp [handleApiAgentSwitch,hc,h]
      | some agent =>
          have hname := AgentManager.name_of_agentConfig hc
          have hbudget := AgentManager.budgetOf_eq hc
          simp only [handleApiAgentSwitch,hc,Option.some.injEq,forall_eq',switchAgent]
          split
          · next hsame =>
              have heq : agent.budget = rt.configuredToolBudget := by
                rw [configuredToolBudget_eq,hsame,hname,hbudget]
              simp [h,heq]
          · rw [activate_of_typed hin.1,budgetInForce_activated hin.1,hname,hbudget]
  | switchBackend backend =>
      have ht : Typed (rt.adopting backend).overrides := hin.1
      change BudgetInForce site.host (rt.switchBackend site backend).2 ↔
        chosen rt.overrides .toolBudget ≠ none ∨ ∀ agent, rt.agents.agentConfigs.find?
          (fun entry => entry.name = gatewayName backend.gateway) = some agent →
            agent.budget = rt.configuredToolBudget
      rw [switchBackend_eq,activate_of_typed ht,budgetInForce_activated ht,
        configuredToolBudget_adopting,budgetOf_adopted]
      refine or_congr Iff.rfl ?_
      cases rt.agents.agentConfigs.find?
        (fun entry => entry.name = gatewayName backend.gateway) <;> simp
  | setSetting name raw =>
      change BudgetInForce site.host (rt.setSetting site.host name raw).2 ↔ True
      cases hp : parseSetting name raw with
      | error what => simpa [setSetting_refused hp] using h
      | ok value =>
          rw [setSetting_taken hin.1 hp]
          exact iff_of_true (budgetInForce_iff.mpr ⟨typed_written hin.1 hp,rfl⟩) trivial
  | clearSettings =>
      change BudgetInForce site.host (rt.clearSettings site.host).2 ↔ True
      rw [clearSettings_eq]
      exact iff_of_true (budgetInForce_iff.mpr ⟨typed_empty,rfl⟩) trivial

theorem configuredToolBudget_fresh (start : Startup) :
    (fresh start).configuredToolBudget = start.budget := by
  unfold configuredToolBudget activeAgent AgentManager.agentConfig fresh Startup.budget
  rw [List.append_nil]
  rfl

-- What a start has in place before it looks for a session.
def equippedFor (site : Site) (start : Startup) (entry : AgentEntry) : Runtime :=
  (fresh start).rebuilt site entry

section Started

variable {entry : AgentEntry} {s : Session}

theorem agents_equippedFor (h : start.defaultEntry = some entry) :
    (equippedFor site start entry).agents = (fresh start).agents := by
  have hname : entry.name = start.activeAgent := by simpa using List.find?_some h
  unfold equippedFor rebuilt equipped AgentManager.setActiveAgent
  rw [hname]
  rfl

theorem toolCallBudget_equippedFor (site : Site) (start : Startup) (entry : AgentEntry) :
    (equippedFor site start entry).toolCallBudget = start.budget := by
  change budgetOver (fresh start).configuredToolBudget ∅ = start.budget
  rw [configuredToolBudget_fresh]
  simp [budgetOver]

theorem configuredToolBudget_equippedFor (h : start.defaultEntry = some entry) :
    (equippedFor site start entry).configuredToolBudget = start.budget := by
  rw [configuredToolBudget_eq,agents_equippedFor h]
  exact configuredToolBudget_fresh start

theorem budgetInForce_kept (h : start.defaultEntry = some entry) (name : String) :
    BudgetInForce host ((equippedFor site start entry).store (s.nameAgent name)) ↔
      Typed s.spec.overrides ∧ budgetOver start.budget s.spec.overrides = start.budget := by
  rw [budgetInForce_iff]
  refine and_congr Iff.rfl ?_
  change (equippedFor site start entry).toolCallBudget =
    budgetOver (equippedFor site start entry).configuredToolBudget s.spec.overrides ↔ _
  rw [toolCallBudget_equippedFor,configuredToolBudget_equippedFor h,eq_comm]

theorem budgetInForce_rebuilt {agent : AgentEntry} (h : start.defaultEntry = some entry)
    (ht : Typed s.spec.overrides)
    (hc : (equippedFor site start entry).agents.agentConfig agent.name = some agent) :
    BudgetInForce host
        (((equippedFor site start entry).store (s.nameAgent agent.name)).rebuilt site agent) ↔
      chosen s.spec.overrides .toolBudget ≠ none ∨ agent.budget = start.budget := by
  rw [budgetInForce_iff]
  have hnew : (((equippedFor site start entry).store (s.nameAgent agent.name)).rebuilt
      site agent).configuredToolBudget = agent.budget := AgentManager.budgetOf_eq hc
  have hold : ((equippedFor site start entry).store
      (s.nameAgent agent.name)).configuredToolBudget = start.budget :=
    @configuredToolBudget_equippedFor site start entry h
  refine (and_iff_right ht).trans ?_
  change budgetOver (((equippedFor site start entry).store
    (s.nameAgent agent.name)).configuredToolBudget) s.spec.overrides =
      budgetOver (Runtime.configuredToolBudget _) s.spec.overrides ↔ _
  rw [hold,hnew]
  exact budgetOver_eq_iff

theorem agentConfig_equippedFor (h : start.defaultEntry = some entry) (name : String) :
    (equippedFor site start entry).agents.agentConfig name =
      start.config.agents.find? (fun entry => entry.name = name) := by
  rw [agents_equippedFor h]
  unfold fresh AgentManager.agentConfig
  rw [List.append_nil]

theorem budgetInForce_resumed (h : start.defaultEntry = some entry)
    (hr : (equippedFor site start entry).resume site start s = .ok rt) :
    BudgetInForce site.host rt ↔
      match start.resumed s with
      | some agent => chosen s.spec.overrides .toolBudget ≠ none ∨ agent.budget = start.budget
      | none => Typed s.spec.overrides ∧ budgetOver start.budget s.spec.overrides = start.budget := by
  unfold resume at hr
  unfold Startup.resumed
  rw [agentConfig_equippedFor h] at hr
  cases hc : start.config.agents.find? (fun entry => entry.name = start.remembered s) with
  | none =>
      simp only [hc] at hr
      obtain rfl := Except.ok.inj hr
      exact budgetInForce_kept h _
  | some agent =>
      have hname : agent.name = start.remembered s := by simpa using List.find?_some hc
      simp only [hc] at hr
      by_cases hsame : agent.name = start.activeAgent
      · simp only [hsame,if_true] at hr
        obtain rfl := Except.ok.inj hr
        have hfilter : (some agent).filter (fun entry => entry.name ≠ start.activeAgent) = none := by
          simp [Option.filter,hsame]
        rw [hfilter]
        exact budgetInForce_kept h _
      · simp only [hsame,if_false] at hr
        have hfilter : (some agent).filter (fun entry => entry.name ≠ start.activeAgent) =
            some agent := by simp [Option.filter,hsame]
        rw [hfilter]
        have hfound : (equippedFor site start entry).agents.agentConfig agent.name = some agent := by
          rw [agentConfig_equippedFor h,hname,hc]
        by_cases ht : Typed s.spec.overrides
        · have hrebuilt := @rebuildToolbox_of_typed site
            ((equippedFor site start entry).store (s.nameAgent agent.name)) agent ht
          rw [hrebuilt] at hr
          obtain rfl := Except.ok.inj hr
          exact budgetInForce_rebuilt h ht hfound
        · obtain ⟨what,hrebuilt⟩ := @rebuildToolbox_of_not_typed site
            ((equippedFor site start entry).store (s.nameAgent agent.name)) agent ht
          rw [hrebuilt] at hr
          cases hr

theorem initializeFrom_unsaved (h : start.defaultEntry = some entry)
    (hs : start.stored site.host.text = none) :
    initializeFrom site start = .ok (equippedFor site start entry) := by
  simp only [initializeFrom,h,@rebuildToolbox_of_typed site (fresh start) entry typed_empty,hs]
  rfl

theorem initializeFrom_saved (h : start.defaultEntry = some entry)
    (hs : start.stored site.host.text = some s) :
    initializeFrom site start = (equippedFor site start entry).resume site start s := by
  simp only [initializeFrom,h,@rebuildToolbox_of_typed site (fresh start) entry typed_empty,hs]
  rfl

theorem budgetInForce_started (h : initializeFrom site start = .ok rt) :
    BudgetInForce site.host rt ↔ start.KeepsBudget site.host.text := by
  cases hentry : start.defaultEntry with
  | none =>
      simp only [initializeFrom,hentry] at h
      cases h
  | some entry =>
      unfold Startup.KeepsBudget
      cases hs : start.stored site.host.text with
      | none =>
          rw [initializeFrom_unsaved hentry hs] at h
          obtain rfl := Except.ok.inj h
          simp only [reduceCtorEq,false_implies,implies_true,iff_true]
          refine budgetInForce_iff.mpr ⟨typed_empty,?_⟩
          rw [toolCallBudget_equippedFor]
          change start.budget = budgetOver (equippedFor site start entry).configuredToolBudget ∅
          rw [configuredToolBudget_equippedFor hentry]
          simp [budgetOver]
      | some s =>
          rw [initializeFrom_saved hentry hs] at h
          simp only [Option.some.injEq,forall_eq']
          exact budgetInForce_resumed hentry h

end Started

theorem budget_in_force_iff (h : initializeFrom site start = .ok rt) (ops : List Tuning) :
    (∀ rt' ∈ Run.visited (Tuning.step site) rt ops, BudgetInForce site.host rt') ↔
      start.KeepsBudget site.host.text ∧
        Run.Along (Tuning.step site) (fun rt op => op.KeepsBudget rt) rt ops := by
  have hkeep : ∀ (rt : Runtime) (op : Tuning), True → True → BudgetInForce site.host rt →
      (BudgetInForce site.host (op.step site rt) ↔ op.KeepsBudget rt) :=
    fun rt op _ _ hg => budgetInForce_step site rt op hg
  have hrun := fun hg : BudgetInForce site.host rt =>
    Run.visited_good_iff (fun _ _ _ _ => trivial) hkeep trivial hg (Run.along_true rt ops)
  rw [← budgetInForce_started h]
  constructor
  · intro hall
    have hgood := hall rt (Run.start_mem_visited _ rt ops)
    exact ⟨hgood,(hrun hgood).mp hall⟩
  · rintro ⟨hgood,hops⟩
    exact (hrun hgood).mpr hops

def chatFirst : Startup := { config := ⟨"chat", [chat, coder]⟩ }

theorem budget_in_force_overridden :
    initializeFrom bareSite chatFirst = .ok (equippedFor bareSite chatFirst chat) ∧
      ∀ rt' ∈ Run.visited (Tuning.step bareSite) (equippedFor bareSite chatFirst chat)
        [.setSetting "tool_budget" (.int64 7), .switchAgent "coder"],
        BudgetInForce bareSite.host rt' := by
  have hstart := @initializeFrom_unsaved bareSite chatFirst chat rfl rfl
  refine ⟨hstart,(budget_in_force_iff hstart _).mpr ⟨?_,?_⟩⟩
  · intro s hs
    cases hs
  · refine ⟨trivial,.inl ?_,trivial⟩
    have hset := @setSetting_taken bareSite.host (equippedFor bareSite chatFirst chat) "tool_budget"
      (.int64 7) (.int64 7) typed_empty rfl
    change chosen ((equippedFor bareSite chatFirst chat).setSetting bareSite.host "tool_budget"
      (.int64 7)).2.overrides .toolBudget ≠ none
    rw [hset]
    change chosen ((equippedFor bareSite chatFirst chat).written "tool_budget" (.int64 7)).overrides
      .toolBudget ≠ none
    have hself := chosen_recorded_self (equippedFor bareSite chatFirst chat).overrides .toolBudget
      (.int64 7)
    rw [overrides_written,SettingName.text] at *
    rw [hself]
    simp

theorem switched_agent_keeps_old_budget :
    initializeFrom bareSite chatFirst = .ok (equippedFor bareSite chatFirst chat) ∧
      ¬ BudgetInForce bareSite.host
        ((Tuning.switchAgent "coder").step bareSite (equippedFor bareSite chatFirst chat)) := by
  have hstart := @initializeFrom_unsaved bareSite chatFirst chat rfl rfl
  refine ⟨hstart,?_⟩
  rw [budgetInForce_step _ _ _ ((budgetInForce_started hstart).mpr (fun s hs => by cases hs))]
  rintro (h | h)
  · exact h (chosen_empty _)
  · have := h coder rfl
    revert this
    decide

end Runtime

end PuCli
