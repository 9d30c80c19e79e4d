import PuCli.Runtime.CommandRouter
import PuCli.Runtime.ExecutorRound

namespace PuCli

open Json

def lastAssistant (chain : List MessageNode) : MessageId :=
  chain.foldl (fun last node =>
    match node.payload with
    | .assistant _ => node.id
    | _ => last) ""

def turnUsage (nodeId : MessageId) (result : ExecutionResult) (usage : TokenUsage)
    (backend : Backend) : TurnUsage :=
  { nodeId := nodeId
    rounds := Int32.ofNat result.rounds
    promptTokens := usage.promptTokens
    completionTokens := usage.completionTokens
    cachedTokens := usage.cachedTokens
    cost := usage.cost
    model := result.model
    gateway := gatewayName backend.gateway }

def recordTurnUsage (s : Session) (result : ExecutionResult) (backend : Backend) : Session :=
  match result.usage with
  | none => s
  | some usage =>
      let nodeId := lastAssistant s.conversation.chain
      if nodeId = "" then s
      else { s with usage := s.usage.record (turnUsage nodeId result usage backend) }

theorem lastAssistant_mem (chain : List MessageNode) :
    lastAssistant chain = "" ∨ lastAssistant chain ∈ chain.map MessageNode.id := by
  induction chain using List.reverseRecOn with
  | nil => exact .inl rfl
  | append_singleton chain node ih =>
      have hlast : lastAssistant (chain ++ [node]) = lastAssistant chain ∨
          lastAssistant (chain ++ [node]) = node.id := by
        unfold lastAssistant
        rw [List.foldl_concat]
        cases node.payload <;> simp
      rw [List.map_append]
      obtain hl | hl := hlast
      · rw [hl]
        exact ih.imp id (List.mem_append_left _)
      · rw [hl]
        exact .inr (by simp)

theorem recordTurnUsage_cases (s : Session) (result : ExecutionResult) (backend : Backend) :
    recordTurnUsage s result backend = s ∨
      ∃ usage, usage.nodeId ∈ s.live ∧
        recordTurnUsage s result backend = { s with usage := s.usage.record usage } := by
  unfold recordTurnUsage
  cases result.usage with
  | none => exact .inl rfl
  | some usage =>
      simp only
      split
      · exact .inl rfl
      · next hid => exact .inr ⟨_,(lastAssistant_mem s.conversation.chain).resolve_left hid,rfl⟩

def failedWith (what : String) : ExecutionResult := { hasError := true, errorMessage := what }

structure Processed (ρ : Type) where
  runtime : Runtime
  isCommand : Bool := false
  result : ExecutionResult
  ended : Bool := true
  talk : Option (Executing ρ) := none

namespace Runtime

variable {ρ : Type}

def turn (rt : Runtime) (token : Bool) (serve : Conversation → ρ → Conversation) : Turn ρ :=
  ⟨rt.toolbox, token, rt.systemPrompt, rt.toolCallBudget.toInt, serve⟩

def executing (rt : Runtime) : Executing ρ :=
  { conversation := rt.current.conversation
    drawn := rt.drawn
    userNote := rt.userNote
    peerOrigin := rt.peerOrigin
    nextToolCallId := rt.nextToolCallId }

def keep (rt : Runtime) (st : Executing ρ) : Runtime :=
  { rt with
    session := some { rt.current with conversation := st.conversation }
    drawn := st.drawn
    userNote := st.userNote
    peerOrigin := st.peerOrigin
    nextToolCallId := st.nextToolCallId }

def runCommand (site : Site) (rt : Runtime) (input : String) : Processed ρ :=
  match CommandRouter.route site rt input with
  | (.error what, rt) => { runtime := rt, isCommand := true, result := failedWith what }
  | (.ok (ok, output), rt) =>
      { runtime := rt, isCommand := true
        result := { content := output, hasError := !ok, errorMessage := if ok then "" else output } }

def runTurn (host : Host) (rt : Runtime) (backend : Backend) (turn : Turn ρ) (script : Script ρ)
    (input : String) : Processed ρ :=
  match Executing.execute host turn script input rt.executing with
  | (.returned, st) =>
      let rt := rt.keep st
      { runtime := rt.store (recordTurnUsage rt.current st.result backend)
        result := st.result
        talk := some st }
  | (.threw what, st) => { runtime := rt.keep st, result := failedWith what, talk := some st }
  | (.running, st) =>
      { runtime := rt.keep st, result := st.result, ended := false, talk := some st }

def isCommand (input : String) : Bool := input.toList.head? = some '/'

def readyBackend (host : Host) (rt : Runtime) : Except String Backend := do
  let backend ← rt.currentBackend host
  let _ ← createProvider backend
  .ok backend

def processInput (site : Site) (token : Bool) (serve : Conversation → ρ → Conversation)
    (script : Script ρ) (input origin : String) (rt : Runtime) : Processed ρ :=
  let rt := defaultSession { rt with peerOrigin := origin }
  if isCommand input then runCommand site rt input
  else match rt.readyBackend site.host with
    | .error what => { runtime := rt, result := failedWith what }
    | .ok backend => runTurn site.host rt backend (rt.turn token serve) script input

end Runtime

end PuCli
