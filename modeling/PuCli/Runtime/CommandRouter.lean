import PuCli.Runtime.Runtime

namespace PuCli

open Json

def isTrimmed (c : Char) : Bool := c = ' ' || c = '\t' || c = '\r' || c = '\n'

def trim (text : String) : List Char :=
  ((text.toList.dropWhile isTrimmed).reverse.dropWhile isTrimmed).reverse

def isSpace (c : Char) : Bool := isTrimmed c || c = '\x0b' || c = '\x0c'

def splitWords (word : List Char) : List Char → List String
  | [] => if word.isEmpty then [] else [String.ofList word]
  | c :: cs =>
      if isSpace c then
        if word.isEmpty then splitWords [] cs else String.ofList word :: splitWords [] cs
      else splitWords (word ++ [c]) cs

def digitsFrom (value : Nat) : List Char → Nat
  | [] => value
  | c :: cs => if c.isDigit then digitsFrom (10 * value + (c.toNat - 48)) cs else value

def stoul (text : String) : Option Nat :=
  let chars := text.toList.dropWhile isSpace
  let negative := chars.head? = some '-'
  let digits := if negative ∨ chars.head? = some '+' then chars.drop 1 else chars
  if ¬ (digits.head?.map Char.isDigit).getD false then none
  else
    let value := digitsFrom 0 digits
    if 2 ^ 64 ≤ value then none
    else if negative then some ((2 ^ 64 - value) % 2 ^ 64)
    else some value

structure AgentSummary where
  name : String
  description : String := ""
  gateway : String := ""
  model : String := ""
  active : Bool

def summarizeAgents (agents : AgentManager) (active : String) : List AgentSummary :=
  agents.agentNames.map (fun name =>
    match agents.agentConfig name with
    | none => { name := name, active := decide (name = active) }
    | some entry =>
        { name := name, description := entry.description,
          gateway := gatewayName entry.backend.gateway, model := entry.backend.model,
          active := decide (name = active) })

def blanks (width : Nat) : String := String.ofList (List.replicate width ' ')

def formatAgentRow (width : Nat) (agent : AgentSummary) : String :=
  "  " ++ agent.name ++ (if agent.active then " (active)" else "") ++ "\n" ++
    (if agent.description = "" then "" else
      "  " ++ blanks width ++ "   " ++ agent.description ++ "\n") ++
    (if agent.gateway = "" then "" else
      "  " ++ blanks width ++ "   " ++ agent.gateway ++
        (if agent.model = "" then "" else " / " ++ agent.model) ++ "\n")

def formatAgentTable (agents : List AgentSummary) : String :=
  if agents.isEmpty then "No agents are configured.\n"
  else
    let width := agents.foldl (fun width agent => max width agent.name.utf8ByteSize) 0
    toString agents.length ++ " agent(s) configured:\n" ++
      String.join (agents.map (formatAgentRow width))

def formatModelRow (activeModel : String) (model : ModelEntry) : String :=
  "  " ++ model.id ++ (if model.id = activeModel then " (active)" else "") ++
    (if model.credits = "" then "" else "  " ++ model.credits) ++ "\n"

def formatModelList (models : List ModelEntry) (gateway host activeModel : String) : String :=
  if models.isEmpty then "No models reported by " ++ gateway ++ " at " ++ host
  else
    toString models.length ++ " model(s) reported by " ++ gateway ++ " at " ++ host ++ ":\n" ++
      String.join (models.map (formatModelRow activeModel)) ++
      (if activeModel ≠ "" ∧ ¬ models.any (fun model => model.id = activeModel) then
        "  " ++ activeModel ++ " (active, not listed by this gateway)\n" else "")

namespace CommandRouter

inductive Command where
  | help
  | backend
  | agents
  | models
  | clear
  | rewind
  | thinking
  deriving DecidableEq

def commandOrder : List Command := [.help, .backend, .agents, .models, .clear, .rewind, .thinking]

def Command.name : Command → String
  | .help => "/help"
  | .backend => "/backend"
  | .agents => "/agents"
  | .models => "/models"
  | .clear => "/clear"
  | .rewind => "/rewind"
  | .thinking => "/thinking"

def Command.helpRow : Command → String
  | .help => "  /help                  Show this help message\n"
  | .backend =>
      "  /backend <agent_name>  Switch to a predefined agent\n" ++
      "  /backend <type> <model> [host]  Adopt a backend as an agent of its type\n"
  | .agents => "  /agents                List available agents\n"
  | .models =>
      "  /models                List the models the active agent's backend reports\n" ++
      "  /models <agent>        List the models a named agent's backend reports\n"
  | .clear => "  /clear                 Clear conversation history\n"
  | .rewind =>
      "  /rewind <turn>         Step back to before a turn; the next message replaces it\n"
  | .thinking =>
      "  /thinking              Show the thinking level this session asks for\n" ++
      "  /thinking <level>      none, low, medium, high, or default (the backend decides)\n" ++
      "  /thinking auto         Follow the agent's configuration again\n"

def help : String :=
  "Available commands:\n" ++ String.join (commandOrder.map Command.helpRow) ++
    "  /exit, /quit           Exit the chat\n"

def describeError (what : String) : String := "Error: " ++ what

def formatUsage (cmd usage : String) : String := "Usage: " ++ cmd ++ " " ++ usage

abbrev Handled := Except String (Bool × String) × Runtime

def said (rt : Runtime) (output : String) : Handled := (.ok (true, output), rt)

def describeOutcome (ran : Except String Unit × Runtime) (output : String) : Handled :=
  match ran with
  | (.ok (), rt) => said rt output
  | (.error what, rt) => said rt (describeError what)

def adoptBackend (site : Site) (rt : Runtime) (name model : String) (host : Option String) :
    Handled :=
  match parseGatewayId name with
  | none => said rt ("Unknown type: " ++ name ++ ". Use " ++ gatewayNames ++ ".")
  | some type =>
      let named := host.getD ""
      let backend : Backend :=
        { gateway := type, model := model
          host := if named = "" then defaultHostFor type else named }
      describeOutcome (rt.switchBackend site backend)
        ("Switched backend to: " ++ name ++ " (model: " ++ backend.model ++ ", host: " ++
          backend.host ++ ")")

def handleBackend (site : Site) (rt : Runtime) (args : List String) : Handled :=
  match args with
  | [] =>
      match rt.currentBackend site.host with
      | .error what => (.error what, rt)
      | .ok cfg =>
          said rt ("Current backend: " ++ gatewayName cfg.gateway ++ " (model: " ++ cfg.model ++
            ", host: " ++ cfg.host ++ ")")
  | name :: rest =>
      match rt.agents.agentConfig name with
      | some agent =>
          describeOutcome (rt.switchAgent site agent)
            ("Switched to agent: " ++ name ++ " (" ++ gatewayName agent.backend.gateway ++ "/" ++
              agent.backend.model ++ ")")
      | none =>
          match rest with
          | [] => said rt (formatUsage "/backend" "<type> <model> [host]")
          | [model] => adoptBackend site rt name model none
          | [model, host] => adoptBackend site rt name model (some host)
          | _ =>
              said rt
                "Usage: /backend <type> <model> [host]. A key is set in agents.json, not here."

def reportModels (site : Site) (rt : Runtime) (cfg : Backend) : Handled :=
  match createProvider cfg >>= fun _ => site.listModels cfg with
  | .error what => said rt (describeError what)
  | .ok models =>
      said rt (formatModelList models (gatewayName cfg.gateway) cfg.host cfg.model)

def handleModels (site : Site) (rt : Runtime) (args : List String) : Handled :=
  match args with
  | [] =>
      match rt.currentBackend site.host with
      | .error what => (.error what, rt)
      | .ok cfg => reportModels site rt cfg
  | name :: _ =>
      match rt.agents.agentConfig name with
      | none => said rt ("Unknown agent: " ++ name)
      | some agent => reportModels site rt agent.backend

def handleAgents (rt : Runtime) : Handled :=
  said rt (formatAgentTable (summarizeAgents rt.agents rt.current.spec.agentName))

def handleClear (rt : Runtime) : Handled :=
  said (rt.store { rt.current with conversation := rt.current.conversation.clearHistory })
    "Conversation history cleared."

def handleRewind (rt : Runtime) (args : List String) : Handled :=
  match args with
  | [] => said rt (formatUsage "/rewind" "<turn>")
  | word :: _ =>
      match stoul word with
      | none => said rt "Usage: /rewind <turn> (a positive number)"
      | some turn =>
          match rt.current.conversation.rewindBefore turn with
          | .error what => said rt (describeError what)
          | .ok (false, c) =>
              said (rt.store { rt.current with conversation := c })
                ("There is no turn " ++ word ++ " in this conversation.")
          | .ok (true, c) =>
              said (rt.store { rt.current with conversation := c })
                ("Stepped back to before turn " ++ word ++ ". The next message replaces it; " ++
                  "the turns after it stay in the file until one does.")

def reportThinking (host : Host) (rt : Runtime) (output : String → String) : Handled :=
  match rt.currentThinkingLevel host with
  | .error what => (.error what, rt)
  | .ok level => said rt (output (thinkingLevelName level))

def changeThinking (host : Host) (rt : Runtime) (level : Option ThinkingLevel)
    (output : String → String) : Handled :=
  match rt.setThinkingLevel host level with
  | (.error what, rt) => (.error what, rt)
  | (.ok (), rt) => reportThinking host rt output

def handleThinking (host : Host) (rt : Runtime) (args : List String) : Handled :=
  match args with
  | [] =>
      reportThinking host rt (fun level => "Thinking: " ++ level ++
        (if rt.thinkingOverride.isSome then " (set for this session)"
          else " (from the agent's configuration)"))
  | [level] =>
      if level = "auto" then
        changeThinking host rt none (fun level =>
          "Thinking follows the agent's configuration again (" ++ level ++ ").")
      else if level ≠ "default" ∧ parseThinkingLevel level = .serverDefault then
        said rt ("Unknown thinking level: " ++ level ++
          ". Use none, low, medium, high, default or auto.")
      else
        changeThinking host rt (some (parseThinkingLevel level)) (fun level =>
          "Thinking: " ++ level ++ " for this session.")
  | _ => said rt (formatUsage "/thinking" "[level|auto]")

def run (site : Site) (rt : Runtime) (args : List String) : Command → Handled
  | .help => said rt help
  | .backend => handleBackend site rt args
  | .agents => handleAgents rt
  | .models => handleModels site rt args
  | .clear => handleClear rt
  | .rewind => handleRewind rt args
  | .thinking => handleThinking site.host rt args

def route (site : Site) (rt : Runtime) (input : String) : Handled :=
  let trimmed := trim input
  if trimmed.head? ≠ some '/' then (.ok (false, ""), rt)
  else
    let cmd := String.ofList (trimmed.takeWhile (fun c => c ≠ ' '))
    let args := splitWords [] ((trimmed.dropWhile (fun c => c ≠ ' ')).drop 1)
    match commandOrder.find? (fun command => command.name = cmd) with
    | some command => run site rt args command
    | none =>
        if cmd = "/exit" ∨ cmd = "/quit" then (.ok (true, ""), rt) else (.ok (false, ""), rt)

end CommandRouter

end PuCli
