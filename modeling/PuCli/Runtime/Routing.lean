import PuCli.Runtime.CommandRouter
import PuCli.Runtime.Tuning

namespace PuCli

namespace CommandRouter

variable {site : Site} {host : Host} {rt : Runtime} {R : Runtime → Runtime → Prop}

-- What holds between two runtimes across anything a command may do to one.
structure RouteLaw (site : Site) (R : Runtime → Runtime → Prop) : Prop where
  refl : ∀ rt, R rt rt
  agent : ∀ rt agent, R rt (rt.switchAgent site agent).2
  backend : ∀ rt backend, R rt (rt.switchBackend site backend).2
  level : ∀ rt level, R rt (rt.setThinkingLevel site.host level).2
  clear : ∀ rt, R rt (handleClear rt).2
  rewind : ∀ {rt turn moved c}, rt.current.conversation.rewindBefore turn = .ok (moved, c) →
    R rt (rt.store { rt.current with conversation := c })

theorem runtime_describeOutcome (ran : Except String Unit × Runtime) (output : String) :
    (describeOutcome ran output).2 = ran.2 := by
  obtain ⟨res,rt⟩ := ran
  cases res <;> rfl

theorem runtime_reportModels (cfg : Backend) : (reportModels site rt cfg).2 = rt := by
  unfold reportModels
  split <;> rfl

theorem runtime_handleModels (args : List String) : (handleModels site rt args).2 = rt := by
  cases args with
  | nil =>
      simp only [handleModels]
      split
      · rfl
      · exact runtime_reportModels _
  | cons name rest =>
      simp only [handleModels]
      split
      · rfl
      · exact runtime_reportModels _

theorem runtime_reportThinking (output : String → String) :
    (reportThinking host rt output).2 = rt := by
  unfold reportThinking
  split <;> rfl

theorem runtime_changeThinking (level : Option ThinkingLevel) (output : String → String) :
    (changeThinking host rt level output).2 = (rt.setThinkingLevel host level).2 := by
  unfold changeThinking
  split
  · next hr => rw [hr]
  · next hr => rw [hr,runtime_reportThinking]

namespace RouteLaw

theorem adoptBackend (h : RouteLaw site R) (rt : Runtime) (name model : String)
    (named : Option String) : R rt (adoptBackend site rt name model named).2 := by
  unfold CommandRouter.adoptBackend
  split
  · exact h.refl rt
  · rw [runtime_describeOutcome]
    exact h.backend rt _

theorem handleBackend (h : RouteLaw site R) (rt : Runtime) (args : List String) :
    R rt (handleBackend site rt args).2 := by
  unfold CommandRouter.handleBackend
  split
  · split <;> exact h.refl rt
  · split
    · rw [runtime_describeOutcome]
      exact h.agent rt _
    · split
      · exact h.refl rt
      · exact h.adoptBackend rt _ _ _
      · exact h.adoptBackend rt _ _ _
      · exact h.refl rt

theorem handleThinking (h : RouteLaw site R) (rt : Runtime) (args : List String) :
    R rt (handleThinking site.host rt args).2 := by
  have hchange : ∀ level output, R rt (changeThinking site.host rt level output).2 := by
    intro level output
    rw [runtime_changeThinking]
    exact h.level rt level
  unfold CommandRouter.handleThinking
  split
  · rw [runtime_reportThinking]
    exact h.refl rt
  · split
    · exact hchange _ _
    · split
      · exact h.refl rt
      · exact hchange _ _
  · exact h.refl rt

theorem handleRewind (h : RouteLaw site R) (rt : Runtime) (args : List String) :
    R rt (handleRewind rt args).2 := by
  unfold CommandRouter.handleRewind
  split
  · exact h.refl rt
  · split
    · exact h.refl rt
    · split
      · exact h.refl rt
      · next c hr => exact h.rewind hr
      · next c hr => exact h.rewind hr

theorem run (h : RouteLaw site R) (rt : Runtime) (args : List String) (command : Command) :
    R rt (run site rt args command).2 := by
  cases command with
  | help => exact h.refl rt
  | backend => exact h.handleBackend rt args
  | agents => exact h.refl rt
  | models =>
      rw [CommandRouter.run,runtime_handleModels]
      exact h.refl rt
  | clear => exact h.clear rt
  | rewind => exact h.handleRewind rt args
  | thinking => exact h.handleThinking rt args

theorem route (h : RouteLaw site R) (rt : Runtime) (input : String) :
    R rt (route site rt input).2 := by
  unfold CommandRouter.route
  dsimp only
  split
  · exact h.refl rt
  · split
    · exact h.run rt _ _
    · split <;> exact h.refl rt

end RouteLaw

end CommandRouter

namespace Runtime

variable {site : Site} {host : Host} {rt : Runtime}

def talk (rt : Runtime) : Conversation := rt.current.conversation

structure SameTalk (rt rt' : Runtime) : Prop where
  peers : rt'.peers = rt.peers
  talk : rt'.talk = rt.talk

theorem SameTalk.chain_le {rt' : Runtime} (h : SameTalk rt rt') :
    rt'.talk.chain.length ≤ rt.talk.chain.length := by
  rw [h.talk]

theorem talk_offered (rt : Runtime) (name : String) :
    ({ rt with session := rt.session.map (Session.offered name) } : Runtime).talk = rt.talk := by
  unfold talk current
  cases rt.session with
  | none => rfl
  | some s =>
      simp only [Option.map_some,Option.getD_some,Session.offered]
      split <;> rfl

theorem talk_of_session {rt rt' : Runtime} (h : rt'.session = rt.session) : rt'.talk = rt.talk := by
  unfold talk current
  rw [h]
  cases rt.session <;> rfl

theorem sameTalk_activate (agent : AgentEntry) : SameTalk rt (rt.activate site agent).2 := by
  by_cases ht : Typed rt.overrides
  · rw [activate_of_typed ht]
    exact ⟨rfl,(talk_offered (rt.rebuilt site agent) agent.name).trans (talk_of_session rfl)⟩
  · obtain ⟨what,ha⟩ := @activate_of_not_typed site rt agent ht
    rw [ha]
    exact ⟨rfl,talk_of_session rfl⟩

theorem sameTalk_switchAgent (agent : AgentEntry) : SameTalk rt (rt.switchAgent site agent).2 := by
  unfold switchAgent
  split
  · exact ⟨rfl,rfl⟩
  · exact sameTalk_activate agent

theorem sameTalk_switchBackend (backend : Backend) :
    SameTalk rt (rt.switchBackend site backend).2 := by
  rw [switchBackend_eq]
  obtain ⟨hpeers,htalk⟩ := @sameTalk_activate site (rt.adopting backend) (rt.adopted backend)
  exact ⟨hpeers,htalk.trans (talk_of_session rfl)⟩

theorem sameTalk_setSetting (name : String) (raw : Json) :
    SameTalk rt (rt.setSetting host name raw).2 := by
  cases hp : parseSetting name raw with
  | error what =>
      rw [setSetting_refused hp]
      exact ⟨rfl,rfl⟩
  | ok value =>
      unfold setSetting applyToolBudget
      rw [hp]
      dsimp only
      cases (rt.store (rt.current.storeSetting name value)).inForce host <;> exact ⟨rfl,rfl⟩

end Runtime

end PuCli
