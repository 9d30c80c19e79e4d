import PuCli.Runtime.Runtime
import PuCli.Session.InForce

namespace PuCli

open Json

def AgentEntry.budget (agent : AgentEntry) : Int32 :=
  agent.toolCallBudget.getD Runtime.kDefaultToolCallBudget

def budgetOver (own : Int32) (overrides : Overrides) : Int32 :=
  ((chosen overrides .toolBudget).map (fun value => Int32.ofInt (wholeIn value))).getD own

def Session.nameAgent (s : Session) (name : String) : Session :=
  { s with spec := { s.spec with agentName := name } }

def Session.offered (name : String) (s : Session) : Session :=
  if s.hasPendingToolCalls then s else s.nameAgent name

namespace AgentManager

variable {m : AgentManager} {name : String} {agent entry : AgentEntry}

def budgetOf (m : AgentManager) (name : String) : Int32 :=
  ((m.agentConfig name).bind AgentEntry.toolCallBudget).getD Runtime.kDefaultToolCallBudget

theorem name_of_agentConfig (h : m.agentConfig name = some agent) : agent.name = name := by
  simpa using List.find?_some h

theorem budgetOf_eq (h : m.agentConfig name = some agent) : m.budgetOf name = agent.budget := by
  simp [budgetOf,h,AgentEntry.budget]

theorem find?_adoptAmong (entries : List AgentEntry) (name : String) :
    (adoptAmong entry entries).find? (fun e => e.name = name) =
      if entry.name = name then some entry else entries.find? (fun e => e.name = name) := by
  induction entries with
  | nil => by_cases h : entry.name = name <;> simp [adoptAmong,h]
  | cons existing rest ih =>
      by_cases h : entry.name = name
      · by_cases hx : existing.name = entry.name
        · simp [adoptAmong,hx,h]
        · have hn : existing.name ≠ name := fun he => hx (he.trans h.symm)
          simpa [adoptAmong,hx,hn,h] using ih
      · by_cases hx : existing.name = entry.name
        · have hn : existing.name ≠ name := fun he => h (hx.symm.trans he)
          simp [adoptAmong,hx,h]
        · by_cases hn : existing.name = name
          · have hne : name ≠ entry.name := fun he => h he.symm
            simp [adoptAmong,h,hn,hne]
          · simpa [adoptAmong,hx,h,hn] using ih

theorem agentConfig_adopt (m : AgentManager) (entry : AgentEntry) (name : String) :
    (m.adopt entry).agentConfig name =
      (m.agentConfigs.find? (fun e => e.name = name)).or
        (if entry.name = name then some entry
          else m.transientAgents.find? (fun e => e.name = name)) := by
  simp [agentConfig,adopt,List.find?_append,find?_adoptAmong]

theorem agentConfig_eq (m : AgentManager) (name : String) :
    m.agentConfig name = (m.agentConfigs.find? (fun e => e.name = name)).or
      (m.transientAgents.find? (fun e => e.name = name)) := by
  simp [agentConfig,List.find?_append]

theorem agentConfig_adopt_ne (m : AgentManager) (h : entry.name ≠ name) :
    (m.adopt entry).agentConfig name = m.agentConfig name := by
  rw [agentConfig_adopt,if_neg h,agentConfig_eq]

end AgentManager

namespace Runtime

variable {site : Site} {host : Host} {rt : Runtime} {agent : AgentEntry} {backend : Backend}

def budgetInForce (rt : Runtime) : Int32 := budgetOver rt.configuredToolBudget rt.overrides

theorem configuredToolBudget_eq (rt : Runtime) :
    rt.configuredToolBudget = rt.agents.budgetOf rt.agents.activeAgent := rfl

theorem toolBudget_overlay (toFloat : Double → Double) (own : InForce) (overrides : Overrides) :
    (InForce.overlay toFloat own overrides).toolBudget = budgetOver own.toolBudget overrides := by
  rw [InForce.overlay_eq]
  rfl

theorem applyToolBudget_of_typed (h : Typed rt.overrides) :
    rt.applyToolBudget host = .ok { rt with toolCallBudget := rt.budgetInForce } := by
  unfold applyToolBudget inForce
  rw [InForce.resolve_of_typed h]
  simp only [Except.map,toolBudget_overlay]
  rfl

theorem applyToolBudget_of_not_typed (h : ¬ Typed rt.overrides) :
    ∃ what, rt.applyToolBudget host = .error what := by
  unfold applyToolBudget inForce
  cases hr : InForce.resolve host.text host.toFloat rt.configuredBackend rt.configuredToolBudget
      rt.overrides with
  | error what => exact ⟨what,rfl⟩
  | ok f => exact absurd (InForce.resolve_eq_ok_iff.mp hr).1 h

def equipped (site : Site) (rt : Runtime) (agent : AgentEntry) : Runtime :=
  { rt with
    toolbox := rt.registerTools site agent
    securityPolicy := some (rootedPolicy site agent)
    systemPrompt := agent.backend.systemPrompt.getD "" }

-- What the budget is read against here is the agent that was active before.
def rebuilt (site : Site) (rt : Runtime) (agent : AgentEntry) : Runtime :=
  { rt.equipped site agent with
    toolCallBudget := rt.budgetInForce
    agents := rt.agents.setActiveAgent agent.name }

theorem rebuildToolbox_of_typed (h : Typed rt.overrides) :
    rt.rebuildToolbox site agent = (.ok (), rt.rebuilt site agent) := by
  have ha : (rt.equipped site agent).applyToolBudget site.host =
      .ok { rt.equipped site agent with toolCallBudget := rt.budgetInForce } :=
    applyToolBudget_of_typed h
  unfold equipped at ha
  simp only [rebuildToolbox,ha]
  rfl

theorem rebuildToolbox_of_not_typed (h : ¬ Typed rt.overrides) :
    ∃ what, rt.rebuildToolbox site agent = (.error what, rt.equipped site agent) := by
  obtain ⟨what,ha⟩ := @applyToolBudget_of_not_typed site.host (rt.equipped site agent) h
  unfold equipped at ha
  simp only [rebuildToolbox,ha]
  exact ⟨what,rfl⟩

def activated (site : Site) (rt : Runtime) (agent : AgentEntry) : Runtime :=
  { rt.rebuilt site agent with session := rt.session.map (Session.offered agent.name) }

theorem activate_of_typed (h : Typed rt.overrides) :
    rt.activate site agent = (.ok (), rt.activated site agent) := by
  rw [activate,rebuildToolbox_of_typed h]
  obtain ⟨agents,session,toolbox,peers,policy,prompt,budget,note,origin,next,drawn⟩ := rt
  cases session with
  | none => rfl
  | some s =>
      simp only [rebuilt,equipped,activated,Session.setAgent,Option.map_some,Session.offered]
      cases s.hasPendingToolCalls <;> rfl

theorem activate_of_not_typed (h : ¬ Typed rt.overrides) :
    ∃ what, rt.activate site agent = (.error what, rt.equipped site agent) := by
  obtain ⟨what,hr⟩ := @rebuildToolbox_of_not_typed site rt agent h
  exact ⟨what,by simp only [activate,hr]⟩

def adopted (rt : Runtime) (backend : Backend) : AgentEntry where
  name := gatewayName backend.gateway
  backend := backend
  security := (rt.activeAgent.map AgentEntry.security).getD {}
  mcpServers := (rt.activeAgent.map AgentEntry.mcpServers).getD []
  toolCallBudget := rt.activeAgent.bind AgentEntry.toolCallBudget

def adopting (rt : Runtime) (backend : Backend) : Runtime :=
  { rt with agents := rt.agents.adopt (rt.adopted backend) }

theorem switchBackend_eq (site : Site) (rt : Runtime) (backend : Backend) :
    rt.switchBackend site backend =
      (rt.adopting backend).activate site (rt.adopted backend) := rfl

theorem overrides_offered (rt : Runtime) (name : String) :
    ({ rt with session := rt.session.map (Session.offered name) } : Runtime).overrides =
      rt.overrides := by
  unfold overrides
  cases rt.session with
  | none => rfl
  | some s =>
      simp only [Option.map_some,Session.offered]
      split <;> rfl

def written (rt : Runtime) (name : String) (value : Json) : Runtime :=
  rt.store (rt.current.storeSetting name value)

def emptied (rt : Runtime) : Runtime := rt.store rt.current.clearOverrides

theorem overrides_current (rt : Runtime) : rt.current.spec.overrides = rt.overrides := by
  unfold current overrides
  cases rt.session <;> rfl

@[simp] theorem overrides_written (rt : Runtime) (name : String) (value : Json) :
    (rt.written name value).overrides = recorded rt.overrides name value := by
  rw [← overrides_current rt]
  rfl

@[simp] theorem overrides_emptied (rt : Runtime) : rt.emptied.overrides = ∅ := rfl

theorem typed_written {name : String} {raw value : Json} (h : Typed rt.overrides)
    (hp : parseSetting name raw = .ok value) : Typed (rt.written name value).overrides := by
  rw [overrides_written]
  exact typed_recorded h hp

theorem setSetting_refused {name what : String} {raw : Json}
    (h : parseSetting name raw = .error what) : rt.setSetting host name raw = (.error what, rt) := by
  simp only [setSetting,h]

theorem setSetting_taken {name : String} {raw value : Json} (ht : Typed rt.overrides)
    (h : parseSetting name raw = .ok value) :
    rt.setSetting host name raw =
      (.ok (), { rt.written name value with
        toolCallBudget := (rt.written name value).budgetInForce }) := by
  have ha := @applyToolBudget_of_typed host (rt.written name value) (typed_written ht h)
  unfold written at ha
  simp only [setSetting,h,ha]
  rfl

theorem clearSettings_eq :
    rt.clearSettings host =
      (.ok (), { rt.emptied with toolCallBudget := rt.emptied.budgetInForce }) := by
  have ha := @applyToolBudget_of_typed host rt.emptied typed_empty
  unfold emptied at ha
  simp only [clearSettings,ha]
  rfl

@[simp] theorem overrides_activated (site : Site) (rt : Runtime) (agent : AgentEntry) :
    (rt.activated site agent).overrides = rt.overrides := overrides_offered _ _

end Runtime

-- A host nothing is asked of: no text to read, no model to list, no tool server.
def bareSite : Site where
  host :=
    { text := ⟨fun _ => none, fun _ => "", id, fun _ => ""⟩, newId := fun _ => ""
      timestamp := fun _ => "", clock := fun _ => "", environment := "", toFloat := id }
  listModels _ := .ok []
  mcpTools _ := []

namespace Runtime

def chat : AgentEntry := { name := "chat", backend := { host := "http://localhost:11434" } }

def coder : AgentEntry := { chat with name := "coder", toolCallBudget := some 5 }

end Runtime

end PuCli
