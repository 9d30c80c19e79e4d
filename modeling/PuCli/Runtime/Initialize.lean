import PuCli.Runtime.Tuning
import PuCli.Session.Reload

namespace PuCli

structure AgentsConfig where
  defaultAgent : String
  agents : List AgentEntry

structure Startup where
  config : AgentsConfig
  defaultAgentOverride : String := ""
  peers : Option PeerConfig := none
  sessionFile : Option String := none

namespace Startup

def activeAgent (start : Startup) : String :=
  if start.defaultAgentOverride = "" then start.config.defaultAgent else start.defaultAgentOverride

def defaultEntry (start : Startup) : Option AgentEntry :=
  start.config.agents.find? (fun entry => entry.name = start.activeAgent)

def notConfigured (start : Startup) : String :=
  let known := String.join (start.config.agents.map (fun entry => " " ++ entry.name))
  "Requested agent is not configured: " ++ start.activeAgent ++
    (if known = "" then " (no agents are configured)" else "; configured:" ++ known)

def stored (text : JsonText) (start : Startup) : Option Session :=
  start.sessionFile.bind (Session.loadSession text)

def remembered (start : Startup) (s : Session) : String :=
  if start.defaultAgentOverride = "" then s.spec.agentName else start.activeAgent

end Startup

namespace Runtime

def fresh (start : Startup) : Runtime where
  agents := ⟨start.activeAgent, start.config.agents, []⟩
  toolbox := ⟨none, []⟩
  peers := start.peers

-- The toolbox is built again only for an agent the first one was not built for.
def resume (site : Site) (start : Startup) (rt : Runtime) (s : Session) : Except String Runtime :=
  match rt.agents.agentConfig (start.remembered s) with
  | none => .ok (rt.store (s.nameAgent start.activeAgent))
  | some stored =>
      let rt := rt.store (s.nameAgent stored.name)
      if stored.name = start.activeAgent then .ok rt
      else match rt.rebuildToolbox site stored with
        | (.error what, _) => .error what
        | (.ok (), rt) => .ok rt

def initializeFrom (site : Site) (start : Startup) : Except String Runtime :=
  match start.defaultEntry with
  | none => .error start.notConfigured
  | some entry =>
      match (fresh start).rebuildToolbox site entry with
      | (.error what, _) => .error what
      | (.ok (), rt) =>
          match start.stored site.host.text with
          | none => .ok rt
          | some s => rt.resume site start s

end Runtime

end PuCli
