import PuCli.Config.SecurityPolicy
import PuCli.Runtime.Executor
import PuCli.Session.Session

namespace PuCli

open Json

structure AgentEntry where
  name : String
  description : String := ""
  backend : Backend
  security : Tools.SecurityPolicy := {}
  mcpServers : List String := []
  toolCallBudget : Option Int32 := none
  deriving DecidableEq

structure ModelEntry where
  id : String
  credits : String := ""

structure AgentManager where
  activeAgent : String
  agentConfigs : List AgentEntry
  transientAgents : List AgentEntry := []

namespace AgentManager

def agentConfig (m : AgentManager) (name : String) : Option AgentEntry :=
  (m.agentConfigs ++ m.transientAgents).find? (fun entry => entry.name = name)

def adoptAmong (entry : AgentEntry) : List AgentEntry → List AgentEntry
  | [] => [entry]
  | existing :: rest =>
      if existing.name = entry.name then entry :: rest else existing :: adoptAmong entry rest

def adopt (m : AgentManager) (entry : AgentEntry) : AgentManager :=
  { m with transientAgents := adoptAmong entry m.transientAgents }

def agentNames (m : AgentManager) : List String :=
  (m.agentConfigs ++ m.transientAgents).map AgentEntry.name

def setActiveAgent (m : AgentManager) (name : String) : AgentManager := { m with activeAgent := name }

end AgentManager

structure Site where
  host : Host
  listModels : Backend → Except String (List ModelEntry)
  mcpTools : List String → List String
  workspaceRoot : String := ""

structure Runtime where
  agents : AgentManager
  session : Option Session := none
  toolbox : Toolbox
  peers : Option PeerConfig := none
  securityPolicy : Option Tools.SecurityPolicy := none
  systemPrompt : String := ""
  toolCallBudget : Int32 := 100
  userNote : String := ""
  peerOrigin : String := ""
  nextToolCallId : Nat := 0
  drawn : Nat := 0

def SessionSpec.thinkingOverride (spec : SessionSpec) : Option ThinkingLevel :=
  match spec.overrides["thinking"]? with
  | some (.string name) => some (parseThinkingLevel name)
  | _ => none

def missingHost (backend : Backend) : String :=
  "Missing host for gateway: " ++ gatewayName backend.gateway

def createProvider (backend : Backend) : Except String Unit :=
  if backend.host = "" then .error (missingHost backend) else .ok ()

namespace Runtime

def kDefaultToolCallBudget : Int32 := 100

def current (rt : Runtime) : Session :=
  rt.session.getD { spec := { agentName := rt.agents.activeAgent } }

def store (rt : Runtime) (s : Session) : Runtime := { rt with session := some s }

def defaultSession (rt : Runtime) : Runtime := rt.store rt.current

def activeAgent (rt : Runtime) : Option AgentEntry := rt.agents.agentConfig rt.agents.activeAgent

def activeBackend (rt : Runtime) : Backend := (rt.activeAgent.map AgentEntry.backend).getD {}

def configuredBackend (rt : Runtime) : Backend :=
  match rt.session with
  | none => rt.activeBackend
  | some s =>
      match rt.agents.agentConfig s.spec.agentName with
      | some configured => configured.backend
      | none => rt.activeBackend

def overrides (rt : Runtime) : Overrides :=
  match rt.session with
  | none => ∅
  | some s => s.spec.overrides

def configuredToolBudget (rt : Runtime) : Int32 :=
  (rt.activeAgent.bind AgentEntry.toolCallBudget).getD kDefaultToolCallBudget

def inForce (host : Host) (rt : Runtime) : Except String InForce :=
  InForce.resolve host.text host.toFloat rt.configuredBackend rt.configuredToolBudget rt.overrides

def currentBackend (host : Host) (rt : Runtime) : Except String Backend :=
  match rt.session with
  | none => .ok rt.configuredBackend
  | some _ => (rt.inForce host).map InForce.backend

def currentThinkingLevel (host : Host) (rt : Runtime) : Except String ThinkingLevel :=
  (rt.currentBackend host).map Backend.thinking

def thinkingOverride (rt : Runtime) : Option ThinkingLevel :=
  rt.session.bind (fun s => s.spec.thinkingOverride)

def applyToolBudget (host : Host) (rt : Runtime) : Except String Runtime :=
  (rt.inForce host).map (fun f => { rt with toolCallBudget := f.toolBudget })

def setSetting (host : Host) (rt : Runtime) (name : String) (raw : Json) :
    Except String Unit × Runtime :=
  match parseSetting name raw with
  | .error what => (.error what, rt)
  | .ok value =>
      let rt := rt.store (rt.current.storeSetting name value)
      match rt.applyToolBudget host with
      | .error what => (.error what, rt)
      | .ok rt => (.ok (), rt)

def clearSettings (host : Host) (rt : Runtime) : Except String Unit × Runtime :=
  let rt := rt.store rt.current.clearOverrides
  match rt.applyToolBudget host with
  | .error what => (.error what, rt)
  | .ok rt => (.ok (), rt)

def setThinkingLevel (host : Host) (rt : Runtime) (level : Option ThinkingLevel) :
    Except String Unit × Runtime :=
  rt.setSetting host "thinking" (match level with
    | some level => .string (thinkingLevelName level)
    | none => .null)

def builtinTools : List String := ["execute_bash", "write_file"]

def registerTools (site : Site) (rt : Runtime) (agent : AgentEntry) : Toolbox :=
  ⟨rt.peers.filter (fun cfg => !cfg.peers.isEmpty), builtinTools ++ site.mcpTools agent.mcpServers⟩

def rootedPolicy (site : Site) (agent : AgentEntry) : Tools.SecurityPolicy :=
  { agent.security with
    sandboxRoot := resolveWorkspacePath site.workspaceRoot agent.security.sandboxRoot }

def rebuildToolbox (site : Site) (rt : Runtime) (agent : AgentEntry) :
    Except String Unit × Runtime :=
  let rt := { rt with
    toolbox := rt.registerTools site agent
    securityPolicy := some (rootedPolicy site agent)
    systemPrompt := agent.backend.systemPrompt.getD "" }
  match rt.applyToolBudget site.host with
  | .error what => (.error what, rt)
  | .ok rt => (.ok (), { rt with agents := rt.agents.setActiveAgent agent.name })

def activate (site : Site) (rt : Runtime) (agent : AgentEntry) : Except String Unit × Runtime :=
  match rt.rebuildToolbox site agent with
  | (.error what, rt) => (.error what, rt)
  | (.ok (), rt) =>
      match rt.session with
      | none => (.ok (), rt)
      | some s =>
          match s.setAgent agent.name with
          | .error _ => (.ok (), rt)
          | .ok s => (.ok (), rt.store s)

def switchAgent (site : Site) (rt : Runtime) (agent : AgentEntry) : Except String Unit × Runtime :=
  if rt.agents.activeAgent = agent.name then (.ok (), rt) else rt.activate site agent

-- Whether a switch ends in a save: one that is refused by the session is warned of before it.
def switchSaves (rt : Runtime) (agent : AgentEntry) : Bool :=
  rt.agents.activeAgent ≠ agent.name && rt.session.any (fun s => (s.setAgent agent.name).isOk)

def switchBackend (site : Site) (rt : Runtime) (backend : Backend) :
    Except String Unit × Runtime :=
  let transient : AgentEntry :=
    { name := gatewayName backend.gateway
      backend := backend
      security := (rt.activeAgent.map AgentEntry.security).getD {}
      mcpServers := (rt.activeAgent.map AgentEntry.mcpServers).getD []
      toolCallBudget := rt.activeAgent.bind AgentEntry.toolCallBudget }
  activate site { rt with agents := rt.agents.adopt transient } transient

def handleApiAgentSwitch (site : Site) (rt : Runtime) (name : String) :
    Except String Unit × Runtime :=
  match rt.agents.agentConfig name with
  | none => (.error ("Agent not found: " ++ name), rt)
  | some agent => rt.switchAgent site agent

end Runtime

end PuCli
