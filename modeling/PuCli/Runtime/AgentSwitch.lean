import PuCli.Runtime.Tuning

namespace PuCli

namespace InForce

variable {text : JsonText} {toFloat : Double → Double} {overrides : Overrides}

def SameBackend (a b : Except String InForce) : Prop :=
  a.map InForce.backend = b.map InForce.backend

theorem sameBackend_apply {setting : SettingName} {f g : InForce} {value : Json}
    (h : f.backend = g.backend) :
    SameBackend (setting.apply text toFloat f value) (setting.apply text toFloat g value) := by
  cases setting <;> cases value <;> simp [SameBackend,SettingName.apply,Except.map,h]

theorem sameBackend_foldlM (settings : List SettingName) {f g : InForce}
    (h : f.backend = g.backend) :
    SameBackend (settings.foldlM (SettingName.applyIn text toFloat overrides) f)
      (settings.foldlM (SettingName.applyIn text toFloat overrides) g) := by
  induction settings generalizing f g with
  | nil => exact congrArg Except.ok h
  | cons setting settings ih =>
      rw [List.foldlM_cons,List.foldlM_cons,applyIn_chosen,applyIn_chosen]
      cases chosen overrides setting with
      | none => exact ih h
      | some value =>
          have hs := @sameBackend_apply text toFloat setting f g value h
          simp only
          cases hf : setting.apply text toFloat f value with
          | error what =>
              cases hg : setting.apply text toFloat g value with
              | error other => simpa [hf,hg,SameBackend,Except.map,bind,Except.bind] using hs
              | ok g' => simp [hf,hg,SameBackend,Except.map] at hs
          | ok f' =>
              cases hg : setting.apply text toFloat g value with
              | error other => simp [hf,hg,SameBackend,Except.map] at hs
              | ok g' =>
                  simp only [hf,hg,SameBackend,Except.map,Except.ok.injEq] at hs
                  exact ih hs

-- The backend in force does not depend on the agent's budget.
theorem resolve_backend (backend : Backend) (a b : Int32) :
    (InForce.resolve text toFloat backend a overrides).map InForce.backend =
      (InForce.resolve text toFloat backend b overrides).map InForce.backend :=
  sameBackend_foldlM settingTable rfl

end InForce

-- What a turn reads of the agent it runs with.
structure Facing where
  toolbox : Toolbox
  security : Option Tools.SecurityPolicy
  systemPrompt : String
  active : String
  named : Option String
  configured : Backend
  current : Except String Backend

inductive Switch where
  | agent (name : String)
  | backend (backend : Backend)

namespace Runtime

variable {site : Site} {host : Host} {rt : Runtime} {agent : AgentEntry} {backend : Backend}

def backendOver (host : Host) (rt : Runtime) (backend : Backend) : Except String Backend :=
  match rt.session with
  | none => .ok backend
  | some s => (InForce.resolve host.text host.toFloat backend 0 s.spec.overrides).map InForce.backend

theorem currentBackend_eq (host : Host) (rt : Runtime) :
    rt.currentBackend host = rt.backendOver host rt.configuredBackend := by
  unfold currentBackend backendOver inForce overrides
  cases rt.session with
  | none => rfl
  | some s => exact InForce.resolve_backend _ _ _

def named (rt : Runtime) : Option String := rt.session.map (fun s => s.spec.agentName)

def facing (host : Host) (rt : Runtime) : Facing where
  toolbox := rt.toolbox
  security := rt.securityPolicy
  systemPrompt := rt.systemPrompt
  active := rt.agents.activeAgent
  named := rt.named
  configured := rt.configuredBackend
  current := rt.currentBackend host

def facingOf (site : Site) (rt : Runtime) (agent : AgentEntry) : Facing where
  toolbox := rt.registerTools site agent
  security := some (rootedPolicy site agent)
  systemPrompt := agent.backend.systemPrompt.getD ""
  active := agent.name
  named := rt.named.map (fun _ => agent.name)
  configured := agent.backend
  current := rt.backendOver site.host agent.backend

def Refuses (rt : Runtime) : Prop := ∃ s, rt.session = some s ∧ s.hasPendingToolCalls = true

-- What building the toolbox for an agent writes is already there.
structure Equipped (site : Site) (rt : Runtime) (agent : AgentEntry) : Prop where
  toolbox : rt.toolbox = rt.registerTools site agent
  security : rt.securityPolicy = some (rootedPolicy site agent)
  systemPrompt : rt.systemPrompt = agent.backend.systemPrompt.getD ""

def Named (rt : Runtime) (name : String) : Prop := ∀ s, rt.session = some s → s.spec.agentName = name

end Runtime

namespace Switch

def target (rt : Runtime) : Switch → Option AgentEntry
  | .agent name => rt.agents.agentConfig name
  | .backend cfg => some (rt.adopted cfg)

def run (site : Site) (rt : Runtime) : Switch → Runtime
  | .agent name => (rt.handleApiAgentSwitch site name).2
  | .backend cfg => (rt.switchBackend site cfg).2

def AllOrNothing (site : Site) (rt : Runtime) (sw : Switch) : Prop :=
  match sw.target rt with
  | none => sw.run site rt = rt
  | some entry =>
      (sw.run site rt).facing site.host = rt.facingOf site entry ∨
        (rt.Refuses ∧ (sw.run site rt).facing site.host = rt.facing site.host)

end Switch

namespace AgentManager

variable {m : AgentManager} {name : String}

def backendAt (m : AgentManager) (named : Option String) : Backend :=
  let own := ((m.agentConfig m.activeAgent).map AgentEntry.backend).getD {}
  match named with
  | none => own
  | some name => ((m.agentConfig name).map AgentEntry.backend).getD own

theorem backendAt_active (m : AgentManager) (name : String) (named : Option String) :
    (m.setActiveAgent name).backendAt (named.map (fun _ => name)) =
      ((m.agentConfig name).map AgentEntry.backend).getD {} := by
  change ((m.setActiveAgent name).backendAt (named.map (fun _ => name))) = _
  cases named with
  | none => rfl
  | some old =>
      change (((m.agentConfig name).map AgentEntry.backend).getD
        (((m.agentConfig name).map AgentEntry.backend).getD {})) = _
      cases m.agentConfig name <;> rfl

end AgentManager

namespace Runtime

variable {site : Site} {host : Host} {rt a b : Runtime} {agent : AgentEntry} {m : AgentManager}

theorem configuredBackend_eq (rt : Runtime) : rt.configuredBackend = rt.agents.backendAt rt.named := by
  unfold configuredBackend named
  cases rt.session with
  | none => rfl
  | some s =>
      simp only [Option.map_some,AgentManager.backendAt]
      cases rt.agents.agentConfig s.spec.agentName <;> rfl

def kept (rt : Runtime) : Option Overrides := rt.session.map (fun s => s.spec.overrides)

theorem backendOver_congr (h : a.kept = b.kept) (backend : Backend) :
    a.backendOver host backend = b.backendOver host backend := by
  unfold kept at h
  unfold backendOver
  cases ha : a.session <;> cases hb : b.session <;> simp_all

theorem facing_eq_iff (h : a.kept = b.kept) :
    a.facing host = b.facing host ↔ a.toolbox = b.toolbox ∧ a.securityPolicy = b.securityPolicy ∧
      a.systemPrompt = b.systemPrompt ∧ a.agents.activeAgent = b.agents.activeAgent ∧
      a.named = b.named ∧ a.configuredBackend = b.configuredBackend := by
  simp only [facing,Facing.mk.injEq,currentBackend_eq,backendOver_congr h]
  grind

theorem facing_eq_facingOf_iff (h : a.kept = b.kept) :
    a.facing site.host = b.facingOf site agent ↔ a.toolbox = b.registerTools site agent ∧
      a.securityPolicy = some (rootedPolicy site agent) ∧
      a.systemPrompt = agent.backend.systemPrompt.getD "" ∧ a.agents.activeAgent = agent.name ∧
      a.named = b.named.map (fun _ => agent.name) ∧ a.configuredBackend = agent.backend := by
  simp only [facing,facingOf,Facing.mk.injEq,currentBackend_eq,backendOver_congr h]
  grind

def Found (m : AgentManager) (agent : AgentEntry) : Prop :=
  (m.agentConfig agent.name).map AgentEntry.backend = some agent.backend

theorem named_iff (rt : Runtime) (name : String) :
    rt.named = rt.named.map (fun _ => name) ↔ rt.Named name := by
  unfold named Named
  cases rt.session <;> simp

theorem kept_activated (site : Site) (rt : Runtime) (agent : AgentEntry) :
    (rt.activated site agent).kept = rt.kept := by
  unfold activated kept
  cases rt.session with
  | none => rfl
  | some s =>
      simp only [Option.map_some,Session.offered]
      split <;> rfl

theorem named_activated (site : Site) (rt : Runtime) (agent : AgentEntry) :
    (rt.Refuses ∧ (rt.activated site agent).named = rt.named) ∨
      (¬ rt.Refuses ∧ (rt.activated site agent).named = rt.named.map (fun _ => agent.name)) := by
  unfold activated named Refuses
  cases rt.session with
  | none => simp
  | some s =>
      simp only [Option.map_some,Session.offered,Option.some.injEq,exists_eq_left']
      split
      · next hp => simp [hp]
      · next hp => simp [hp,Session.nameAgent]

-- The switch reaches every piece: no other agent has the name, and what a
-- refusing session or an unreadable override stops short of is already there.
structure Lands (rt : Runtime) (m : AgentManager) (agent : AgentEntry) : Prop where
  found : Found m agent
  named : rt.Refuses ∨ ¬ Typed rt.overrides → rt.Named agent.name
  active : ¬ Typed rt.overrides → rt.agents.activeAgent = agent.name

structure Stays (site : Site) (rt : Runtime) (m : AgentManager) (agent : AgentEntry) : Prop where
  refuses : rt.Refuses
  equipped : Equipped site rt agent
  configured : m.backendAt rt.named = rt.agents.backendAt rt.named
  active : Typed rt.overrides → rt.agents.activeAgent = agent.name

def withAgents (rt : Runtime) (m : AgentManager) : Runtime := { rt with agents := m }

theorem backendAt_named (h : m.activeAgent = agent.name) (hc : (m.agentConfig agent.name).isSome)
    (hn : rt.Named agent.name) : m.backendAt rt.named = agent.backend ↔ Found m agent := by
  have hset : m.setActiveAgent agent.name = m := by rw [← h]; rfl
  have hat := AgentManager.backendAt_active m agent.name rt.named
  rw [hset,← (named_iff rt agent.name).mpr hn] at hat
  obtain ⟨entry,he⟩ := Option.isSome_iff_exists.mp hc
  rw [hat,Found,he]
  simp

theorem lands_of_typed (ht : Typed rt.overrides) (hc : (m.agentConfig agent.name).isSome) :
    ((rt.withAgents m).activated site agent).facing site.host = rt.facingOf site agent ↔
      Lands rt m agent := by
  have hk : ((rt.withAgents m).activated site agent).kept = rt.kept := kept_activated _ _ _
  rw [facing_eq_facingOf_iff hk,configuredBackend_eq]
  have hnamed := named_activated site (rt.withAgents m) agent
  change (rt.Refuses ∧ _ = rt.named) ∨ (¬ rt.Refuses ∧ _ = rt.named.map (fun _ => agent.name))
    at hnamed
  have hback (h : ((rt.withAgents m).activated site agent).named = rt.named.map (fun _ => agent.name)) :
      ((rt.withAgents m).activated site agent).agents.backendAt
        ((rt.withAgents m).activated site agent).named = agent.backend ↔ Found m agent := by
    obtain ⟨entry,he⟩ := Option.isSome_iff_exists.mp hc
    rw [h]
    change (m.setActiveAgent agent.name).backendAt _ = _ ↔ _
    rw [AgentManager.backendAt_active,Found,he]
    simp
  constructor
  · rintro ⟨-,-,-,-,hn,hb⟩
    refine ⟨(hback hn).mp hb,?_,fun h => absurd ht h⟩
    rintro (hr | hu)
    · obtain ⟨-,hold⟩ | ⟨hnr,-⟩ := hnamed
      · exact (named_iff rt agent.name).mp (hold.symm.trans hn)
      · exact absurd hr hnr
    · exact absurd ht hu
  · intro h
    have hn : ((rt.withAgents m).activated site agent).named = rt.named.map (fun _ => agent.name) := by
      obtain ⟨hr,hold⟩ | ⟨-,hnew⟩ := hnamed
      · exact hold.trans ((named_iff rt agent.name).mpr (h.named (.inl hr)))
      · exact hnew
    exact ⟨rfl,rfl,rfl,rfl,hn,(hback hn).mpr h.found⟩

theorem stays_of_typed (ht : Typed rt.overrides) (hm : m.activeAgent = rt.agents.activeAgent) :
    (rt.Refuses ∧ ((rt.withAgents m).activated site agent).facing site.host = rt.facing site.host) ↔
      Stays site rt m agent := by
  have hk : ((rt.withAgents m).activated site agent).kept = rt.kept := kept_activated _ _ _
  rw [facing_eq_iff hk,configuredBackend_eq,configuredBackend_eq]
  have hnamed := named_activated site (rt.withAgents m) agent
  change (rt.Refuses ∧ _ = rt.named) ∨ (¬ rt.Refuses ∧ _ = rt.named.map (fun _ => agent.name))
    at hnamed
  have hset (h : agent.name = rt.agents.activeAgent) : m.setActiveAgent agent.name = m := by
    rw [h,← hm]
    rfl
  constructor
  · rintro ⟨hr,hbox,hsec,hprompt,hactive,hn,hb⟩
    have hactive : agent.name = rt.agents.activeAgent := hactive
    rw [hn] at hb
    change (m.setActiveAgent agent.name).backendAt rt.named = _ at hb
    rw [hset hactive] at hb
    exact ⟨hr,⟨hbox.symm,hsec.symm,hprompt.symm⟩,hb,fun _ => hactive.symm⟩
  · intro h
    have hactive := (h.active ht).symm
    obtain ⟨-,hold⟩ | ⟨hnr,-⟩ := hnamed
    · refine ⟨h.refuses,h.equipped.toolbox.symm,h.equipped.security.symm,
        h.equipped.systemPrompt.symm,hactive,hold,?_⟩
      rw [hold]
      change (m.setActiveAgent agent.name).backendAt rt.named = _
      rw [hset hactive]
      exact h.configured
    · exact absurd h.refuses hnr

theorem lands_of_not_typed (ht : ¬ Typed rt.overrides)
    (hm : m.activeAgent = rt.agents.activeAgent) (hc : (m.agentConfig agent.name).isSome) :
    ((rt.withAgents m).equipped site agent).facing site.host = rt.facingOf site agent ↔
      Lands rt m agent := by
  have hk : ((rt.withAgents m).equipped site agent).kept = rt.kept := rfl
  rw [facing_eq_facingOf_iff hk,configuredBackend_eq]
  have hback (ha : rt.agents.activeAgent = agent.name) (hn : rt.Named agent.name) :
      m.backendAt rt.named = agent.backend ↔ Found m agent := backendAt_named (hm.trans ha) hc hn
  constructor
  · rintro ⟨-,-,-,ha,hn,hb⟩
    have ha : rt.agents.activeAgent = agent.name := hm.symm.trans ha
    have hn := (named_iff rt agent.name).mp hn
    exact ⟨(hback ha hn).mp hb,fun _ => hn,fun _ => ha⟩
  · intro h
    have hn := h.named (.inr ht)
    exact ⟨rfl,rfl,rfl,hm.trans (h.active ht),(named_iff rt agent.name).mpr hn,
      (hback (h.active ht) hn).mpr h.found⟩

theorem stays_of_not_typed (ht : ¬ Typed rt.overrides)
    (hm : m.activeAgent = rt.agents.activeAgent) :
    (rt.Refuses ∧ ((rt.withAgents m).equipped site agent).facing site.host = rt.facing site.host) ↔
      Stays site rt m agent := by
  have hk : ((rt.withAgents m).equipped site agent).kept = rt.kept := rfl
  rw [facing_eq_iff hk,configuredBackend_eq,configuredBackend_eq]
  constructor
  · rintro ⟨hr,hbox,hsec,hprompt,-,-,hb⟩
    exact ⟨hr,⟨hbox.symm,hsec.symm,hprompt.symm⟩,hb,fun h => absurd h ht⟩
  · intro h
    exact ⟨h.refuses,h.equipped.toolbox.symm,h.equipped.security.symm,
      h.equipped.systemPrompt.symm,hm,rfl,h.configured⟩

theorem activate_whole_iff (hm : m.activeAgent = rt.agents.activeAgent)
    (hc : (m.agentConfig agent.name).isSome) :
    (((rt.withAgents m).activate site agent).2.facing site.host = rt.facingOf site agent ∨
        (rt.Refuses ∧ ((rt.withAgents m).activate site agent).2.facing site.host =
          rt.facing site.host)) ↔
      Lands rt m agent ∨ Stays site rt m agent := by
  by_cases ht : Typed rt.overrides
  · rw [@activate_of_typed site (rt.withAgents m) agent ht]
    exact or_congr (lands_of_typed ht hc) (stays_of_typed ht hm)
  · obtain ⟨what,ha⟩ := @activate_of_not_typed site (rt.withAgents m) agent ht
    rw [ha]
    exact or_congr (lands_of_not_typed ht hm hc) (stays_of_not_typed ht hm)

theorem unmoved_whole_iff (h : rt.agents.agentConfig agent.name = some agent)
    (ha : rt.agents.activeAgent = agent.name) :
    (rt.facing site.host = rt.facingOf site agent ∨
        (rt.Refuses ∧ rt.facing site.host = rt.facing site.host)) ↔
      (Equipped site rt agent ∧ rt.Named agent.name) ∨ rt.Refuses := by
  have hfound : Found rt.agents agent := by rw [Found,h]; rfl
  refine or_congr ?_ (and_iff_left rfl)
  rw [facing_eq_facingOf_iff rfl,configuredBackend_eq,named_iff]
  constructor
  · rintro ⟨hbox,hsec,hprompt,-,hn,-⟩
    exact ⟨⟨hbox,hsec,hprompt⟩,hn⟩
  · rintro ⟨he,hn⟩
    exact ⟨he.toolbox,he.security,he.systemPrompt,ha,hn,
      (backendAt_named ha (by rw [h]; rfl) hn).mpr hfound⟩

end Runtime

namespace Switch

variable {site : Site} {rt : Runtime} {sw : Switch}

def Whole (site : Site) (rt : Runtime) : Switch → Prop
  | .agent name => ∀ agent, rt.agents.agentConfig name = some agent →
      if rt.agents.activeAgent = agent.name then
        (rt.Equipped site agent ∧ rt.Named agent.name) ∨ rt.Refuses
      else rt.Lands rt.agents agent ∨ rt.Stays site rt.agents agent
  | .backend cfg =>
      rt.Lands (rt.adopting cfg).agents (rt.adopted cfg) ∨
        rt.Stays site (rt.adopting cfg).agents (rt.adopted cfg)

theorem agentConfig_adopting (rt : Runtime) (cfg : Backend) :
    ((rt.adopting cfg).agents.agentConfig (rt.adopted cfg).name).isSome := by
  change ((rt.agents.adopt (rt.adopted cfg)).agentConfig (rt.adopted cfg).name).isSome
  rw [AgentManager.agentConfig_adopt,if_pos rfl]
  simp

theorem all_or_nothing_iff : sw.AllOrNothing site rt ↔ sw.Whole site rt := by
  unfold AllOrNothing Whole target run
  cases sw with
  | backend cfg =>
      exact Runtime.activate_whole_iff rfl (agentConfig_adopting rt cfg)
  | agent name =>
      simp only [Runtime.handleApiAgentSwitch]
      cases hc : rt.agents.agentConfig name with
      | none => simp
      | some agent =>
          have hname := AgentManager.name_of_agentConfig hc
          simp only [Option.some.injEq,forall_eq',Runtime.switchAgent]
          by_cases ha : rt.agents.activeAgent = agent.name
          · rw [if_pos ha,if_pos ha]
            exact Runtime.unmoved_whole_iff (hname ▸ hc) ha
          · rw [if_neg ha,if_neg ha]
            exact Runtime.activate_whole_iff rfl (by rw [hname,hc]; rfl)

def askedOnce : ChatMessage :=
  { role := .assistant
    toolCalls := .array [toolCallToJson ⟨"a", "execute_bash", .object [], .pending⟩] }

def midCall : Session where
  conversation := Conversation.new.append bareSite.host.text "n1" askedOnce
  spec := { agentName := "chat" }

def chatMidCall : Runtime where
  agents := ⟨"chat", [Runtime.chat, Runtime.coder], []⟩
  session := some midCall
  toolbox := ⟨none, Runtime.builtinTools⟩

theorem refused_switch_moves_toolbox :
    (chatMidCall.handleApiAgentSwitch bareSite "coder").1 = .ok () ∧
      (chatMidCall.handleApiAgentSwitch bareSite "coder").2.agents.activeAgent = "coder" ∧
      (chatMidCall.handleApiAgentSwitch bareSite "coder").2.named = some "chat" ∧
      ¬ (Switch.agent "coder").AllOrNothing bareSite chatMidCall := by
  have ht : Typed chatMidCall.overrides := typed_empty
  have hrefuses : chatMidCall.Refuses := ⟨midCall,rfl,by decide⟩
  have hdone : chatMidCall.handleApiAgentSwitch bareSite "coder" =
      (.ok (), chatMidCall.activated bareSite Runtime.coder) := Runtime.activate_of_typed ht
  have hnamed : ¬ chatMidCall.Named "coder" := fun h => absurd (h midCall rfl) (by decide)
  rw [hdone]
  refine ⟨rfl,rfl,?_,?_⟩
  · obtain ⟨-,hold⟩ | ⟨hnr,-⟩ := Runtime.named_activated bareSite chatMidCall Runtime.coder
    · exact hold
    · exact absurd hrefuses hnr
  · change ¬ ((chatMidCall.handleApiAgentSwitch bareSite "coder").2.facing _ = _ ∨
      (_ ∧ (chatMidCall.handleApiAgentSwitch bareSite "coder").2.facing _ = _))
    have hiff := @Runtime.activate_whole_iff bareSite chatMidCall Runtime.coder chatMidCall.agents
      rfl rfl
    intro h
    obtain hl | hs := hiff.mp h
    · exact hnamed (hl.named (.inl hrefuses))
    · exact absurd (hs.active ht) (by decide)

end Switch

end PuCli
