import PuCli.Library.Trail
import PuCli.Library.Run
import PuCli.Library.Tree
import PuCli.Session.Message
import PuCli.Session.Graph
import PuCli.Session.GraphAppend
import PuCli.Session.GraphSteps
import PuCli.Session.GraphSeal
import PuCli.Session.LinksResolve
import PuCli.Session.GraphCodec
import PuCli.Session.GraphRuns
import PuCli.Session.Request
import PuCli.Session.Conversation
import PuCli.Config.Backend
import PuCli.Session.Settings
import PuCli.Session.Usage
import PuCli.Session.Session
import PuCli.Session.SessionRuns
import PuCli.Session.PendingGuard
import PuCli.Session.RewindPairing
import PuCli.Llm.Provider
import PuCli.Tools.PeerTool
import PuCli.Runtime.Executor
import PuCli.Runtime.ExecutorSteps
import PuCli.Runtime.ExecutorRound
import PuCli.Runtime.ExecutorFollows
import PuCli.Runtime.Runtime
import PuCli.Runtime.CommandRouter
import PuCli.Runtime.ProcessInput
import PuCli.Runtime.PeerConfinement
import PuCli.App.SessionRunner
import PuCli.App.PeerMessage
import PuCli.Runtime.CancelSeals
import PuCli.App.RewindRace
import PuCli.Runtime.AnswerText
import PuCli.App.AnswerFrames
import PuCli.Web.Transcript
import PuCli.Web.Blocks
import PuCli.Web.Reading
import PuCli.Web.Replay
import PuCli.Web.LiveTurn
import PuCli.Web.ReplayedTurn
import PuCli.Session.GraphLoads
import PuCli.Session.Supersede
import PuCli.Core.Reread
import PuCli.Core.Utf8
import PuCli.Library.Lines
import PuCli.Exec.Run
import PuCli.Paging.Pager
import PuCli.Session.Reload
import PuCli.Tools.ToolResult
import PuCli.Session.PageReceipts
import PuCli.Runtime.Ranking
import PuCli.App.KeptText
import PuCli.Serve.Board
import PuCli.Runtime.TurnFrames
import PuCli.App.TurnEnd
import PuCli.Core.Depth
import PuCli.Session.Nesting
import PuCli.Runtime.Stored
import PuCli.App.ReadBack
import PuCli.Library.Settle
import PuCli.Serve.Verbs
import PuCli.Serve.Lifecycle
import PuCli.Serve.Question
import PuCli.Library.StableSort
import PuCli.Serve.Owed
import PuCli.App.Intake
import PuCli.Serve.Snapshot
import PuCli.App.HttpRoutes
import PuCli.App.HttpEffects
import PuCli.App.HttpRuns
import PuCli.App.PeerCalls
import PuCli.App.PeerNetwork
import PuCli.Tools.Bash
import PuCli.Runtime.Approval
import PuCli.Runtime.Notes
import PuCli.App.Wire
import PuCli.App.PageLeft
import PuCli.App.ApprovalWait
import PuCli.App.CancelAnswer
import PuCli.Runtime.Initialize
import PuCli.Runtime.Routing
import PuCli.Runtime.ToolBudget
import PuCli.Runtime.AgentSwitch
import PuCli.Runtime.BackendSwitch
import PuCli.Library.LastWrite
import PuCli.Runtime.SettingCommand
import PuCli.Runtime.SettingsMap
import PuCli.Runtime.UsageTotal
import PuCli.Session.OverridesFile
import PuCli.Session.PeerRewind
import PuCli.Config.RegistryRuns
import PuCli.Mcp.Client
import PuCli.Runtime.BudgetOutcome
import PuCli.Exec.Capture
import PuCli.Exec.Captured
import PuCli.Paging.Lines
import PuCli.Paging.Numbered
import PuCli.Paging.Walks
import PuCli.Library.Counts
import PuCli.Runtime.SessionCost
import PuCli.Runtime.Chats
import PuCli.Runtime.TurnCost
import PuCli.Runtime.LoopEnds
import PuCli.Runtime.SettledCalls
import PuCli.Runtime.OwnUsage
import PuCli.Core.Utf8Valid
import PuCli.Core.Utf8Cut
import PuCli.Exec.WholeCharacters
import PuCli.Config.PeerToken
import PuCli.Library.Window
import PuCli.Paging.Retention
import PuCli.Library.Framing
import PuCli.Core.Sse
import PuCli.Core.SseChunks
import PuCli.Core.SseLines
import PuCli.Library.Brackets
import PuCli.Library.JsonGrammar
import PuCli.Core.SsePayloads
import PuCli.Llm.OpenAIProtocol
import PuCli.Llm.CallAssembly
import PuCli.Llm.StreamingProvider
import PuCli.Llm.OpenAIProvider
import PuCli.Llm.ChatHistory
import PuCli.Llm.ChatFrames
import PuCli.Llm.OllamaProvider
import PuCli.Llm.Dialects
import PuCli.Llm.Projection
import PuCli.Llm.SentArguments
import PuCli.Tools.CommandPolicy
import PuCli.Library.LineFraming
import PuCli.Library.Decimal
import PuCli.Library.Fresh
import PuCli.Mcp.StdioReaders
import PuCli.Mcp.HttpTransport
import PuCli.Tools.Toolbox
import PuCli.Runtime.RegisteredTools
import PuCli.Mcp.CallVerdict
import PuCli.Web.Hold
import PuCli.Web.Connection
import PuCli.Web.Sockets
import PuCli.Web.ConnectionRuns
import PuCli.Web.Refusals
import PuCli.Library.Calendar
import PuCli.Serve.Stamp
import PuCli.Serve.Durations
import PuCli.Core.JsonReader
import PuCli.Core.PrettyRead
import PuCli.Library.Loops
import PuCli.Config.EnvExpansion
import PuCli.Config.WholeReferences
import PuCli.Library.FileTree
import PuCli.Library.PathWrites
import PuCli.Library.CanonicalPath
import PuCli.Tools.WriteFile
import PuCli.Serve.Digest
import PuCli.App.PeerBoards
