import PuCli.Core.Json

namespace PuCli

inductive ThinkingLevel where
  | serverDefault
  | none
  | low
  | medium
  | high
  deriving DecidableEq

def thinkingLevelName : ThinkingLevel → String
  | .none => "none"
  | .low => "low"
  | .medium => "medium"
  | .high => "high"
  | .serverDefault => "default"

def parseThinkingLevel (name : String) : ThinkingLevel :=
  if name = "none" then .none
  else if name = "low" then .low
  else if name = "medium" then .medium
  else if name = "high" then .high
  else .serverDefault

inductive GatewayId where
  | ollama
  | ollamaCloud
  | openAI
  | deepSeek
  | nim
  | codeBuddy
  deriving DecidableEq

structure Gateway where
  id : GatewayId
  name : String
  defaultHost : String

def gateways : List Gateway :=
  [⟨.ollama, "ollama", "http://localhost:11434"⟩,
    ⟨.ollamaCloud, "ollama-cloud", "https://ollama.com/v1"⟩,
    ⟨.openAI, "openai", "https://api.openai.com/v1"⟩,
    ⟨.deepSeek, "deepseek", "https://api.deepseek.com/v1"⟩,
    ⟨.nim, "nim", "https://integrate.api.nvidia.com/v1"⟩,
    ⟨.codeBuddy, "codebuddy", "https://copilot.tencent.com/v2"⟩]

def gatewayForId : GatewayId → Gateway
  | .ollama => ⟨.ollama, "ollama", "http://localhost:11434"⟩
  | .ollamaCloud => ⟨.ollamaCloud, "ollama-cloud", "https://ollama.com/v1"⟩
  | .openAI => ⟨.openAI, "openai", "https://api.openai.com/v1"⟩
  | .deepSeek => ⟨.deepSeek, "deepseek", "https://api.deepseek.com/v1"⟩
  | .nim => ⟨.nim, "nim", "https://integrate.api.nvidia.com/v1"⟩
  | .codeBuddy => ⟨.codeBuddy, "codebuddy", "https://copilot.tencent.com/v2"⟩

def gatewayName (id : GatewayId) : String := (gatewayForId id).name

def defaultHostFor (id : GatewayId) : String := (gatewayForId id).defaultHost

def parseGatewayId (name : String) : Option GatewayId :=
  (gateways.find? (fun gateway => gateway.name = name)).map Gateway.id

def gatewayNames : String := String.intercalate ", " (gateways.map Gateway.name)

structure Backend where
  gateway : GatewayId := .ollama
  host : String := ""
  model : String := ""
  apiKey : Option String := none
  temperature : Double := .finite (11744051 / 16777216)
  systemPrompt : Option String := none
  maxTokens : Option Int32 := none
  thinking : ThinkingLevel := .serverDefault
  contextWindow : Option Int32 := none
  deriving DecidableEq

end PuCli
