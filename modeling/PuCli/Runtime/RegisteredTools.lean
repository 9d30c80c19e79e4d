import PuCli.Runtime.Runtime
import PuCli.Tools.Toolbox

namespace PuCli

open Tools

-- The tools a runtime registers, before the toolbox has given them the names they go under.
inductive Registered where
  | bash
  | writeFile
  | peer (cfg : PeerConfig)
  | mcp (serverName toolName : String)

namespace Registered

def name : Registered → List UInt8
  | .bash => Utf8.bytesOf "execute_bash"
  | .writeFile => Utf8.bytesOf "write_file"
  | .peer _ => Utf8.bytesOf PeerTool.name
  | .mcp serverName toolName => Utf8.bytesOf ("mcp." ++ serverName ++ "." ++ toolName)

-- What the loop gets back of the tool a name leads to.
def execute (text : JsonText) (ctx : ToolContext) (answer : ToolAnswer) (args : Json)
    (called : String) : Option Registered → Except String String × List Post
  | none =>
      (.ok (PuCli.makeToolResultJson text false "" ("Tool not found: " ++ called) (-1) false), [])
  | some (.peer cfg) =>
      let run := PeerTool.execute text cfg ctx answer.wire args
      (.ok run.1, run.2)
  | some _ => (answer.result, [])

end Registered

def registerBuiltinTools (peers : Option PeerConfig) : List Registered :=
  .bash :: .writeFile ::
    ((peers.filter (fun cfg => !cfg.peers.isEmpty)).map Registered.peer).toList

def registerMcpTools (listed : List (String × String)) : List Registered :=
  listed.map (fun t => .mcp t.1 t.2)

variable {site : Site} {rt : Runtime} {agent : AgentEntry} {listed : List (String × String)}
  {box : Tools.Toolbox Registered} {given : List (Option (List UInt8))} {called : String}

-- The toolbox of an agent, and the names it gave the MCP tools the site speaks of.
structure Filled (site : Site) (rt : Runtime) (agent : AgentEntry) (listed : List (String × String))
    (box : Tools.Toolbox Registered) (given : List (Option (List UInt8))) : Prop where
  registered : Toolbox.registerAll Registered.name .clear
    ((registerBuiltinTools rt.peers ++ registerMcpTools listed).map some) = some (box,given)
  shown : (given.drop (registerBuiltinTools rt.peers).length).filterMap id =
    (site.mcpTools agent.mcpServers).map Utf8.bytesOf

theorem bytesOf_injective : Function.Injective Utf8.bytesOf :=
  Function.LeftInverse.injective Utf8.sanitizeUtf8_bytesOf

-- The built-in names are legal and distinct, so each of these tools goes under its own.
theorem registerAll_builtin (peers : Option PeerConfig) : ∃ mid,
    Toolbox.registerAll Registered.name .clear ((registerBuiltinTools peers).map some) =
      some (mid,(registerBuiltinTools peers).map (fun tool => some tool.name)) ∧
    mid.tools = (registerBuiltinTools peers).map (fun tool => (tool.name,tool)) := by
  unfold registerBuiltinTools
  cases peers.filter (fun cfg => !cfg.peers.isEmpty) with
  | none => exact ⟨_,rfl,rfl⟩
  | some cfg => exact ⟨_,rfl,rfl⟩

-- An agent without MCP servers has the built-in tools alone.
example (h : site.mcpTools agent.mcpServers = []) : ∃ box given, Filled site rt agent [] box given := by
  obtain ⟨mid,hmid,-⟩ := registerAll_builtin rt.peers
  refine ⟨mid,_,by simpa [registerMcpTools] using hmid,?_⟩
  rw [h,List.drop_eq_nil_of_le (List.length_map _).le]
  rfl

theorem Filled.tools (h : Filled site rt agent listed box given) : ∃ mcps,
    box.tools = (registerBuiltinTools rt.peers).map (fun tool => (tool.name,tool)) ++ mcps ∧
      mcps.map Prod.fst = (site.mcpTools agent.mcpServers).map Utf8.bytesOf ∧
      ∀ entry ∈ mcps, ∃ serverName toolName, entry.2 = .mcp serverName toolName := by
  have hall := h.registered
  rw [List.map_append] at hall
  obtain ⟨mid,before,since,hfront,hback,hgiven⟩ := Toolbox.registerAll_append hall
  obtain ⟨mid',hfront',hmid⟩ := registerAll_builtin rt.peers
  obtain ⟨rfl,rfl⟩ := Prod.mk.inj (Option.some.inj (hfront.symm.trans hfront'))
  obtain ⟨hanswers,htools⟩ := Toolbox.registerAll_spec hback
  have hshown := h.shown
  rw [hgiven,List.drop_left' (List.length_map _)] at hshown
  refine ⟨_,hmid ▸ htools,(Toolbox.names_entries hanswers).trans hshown,?_⟩
  rintro ⟨display,tool⟩ hentry
  obtain ⟨i,-,hcall⟩ := Toolbox.mem_entries.mp hentry
  have hmem := List.mem_of_getElem? hcall
  simp only [registerMcpTools,List.map_map,List.mem_map,Function.comp_apply,
    Option.some.injEq] at hmem
  obtain ⟨t,-,rfl⟩ := hmem
  exact ⟨t.1,t.2,rfl⟩

theorem Filled.find_peer (h : Filled site rt agent listed box given) {cfg : PeerConfig} :
    box.find (Utf8.bytesOf called) = some (.peer cfg) ↔
      (rt.registerTools site agent).peers = some cfg ∧ called = PeerTool.name := by
  obtain ⟨mcps,htools,-,hmcps⟩ := h.tools
  have hmcp : (Utf8.bytesOf called,Registered.peer cfg) ∉ mcps := by
    intro hmem
    obtain ⟨serverName,toolName,hmcp⟩ := hmcps _ hmem
    cases hmcp
  rw [Toolbox.find_eq_some_iff,htools,List.mem_append,or_iff_left hmcp]
  simp [registerBuiltinTools,Runtime.registerTools,Registered.name,bytesOf_injective.eq_iff]
  tauto

theorem Filled.mem_names (h : Filled site rt agent listed box given) :
    Utf8.bytesOf called ∈ box.names ↔
      ((rt.registerTools site agent).peers.isSome ∧ called = PeerTool.name) ∨
        called ∈ (rt.registerTools site agent).names := by
  obtain ⟨mcps,htools,hnames,-⟩ := h.tools
  have hmcps : Utf8.bytesOf called ∈ mcps.map Prod.fst ↔
      called ∈ site.mcpTools agent.mcpServers := by
    rw [hnames]
    exact List.mem_map_of_injective bytesOf_injective
  rw [Tools.Toolbox.names,htools,List.map_append,List.mem_append,hmcps]
  cases hpeers : rt.peers.filter (fun cfg => !cfg.peers.isEmpty) <;>
    simp [registerBuiltinTools,Runtime.registerTools,Runtime.builtinTools,Registered.name,hpeers,
      bytesOf_injective.eq_iff] <;> tauto

theorem Filled.named (h : Filled site rt agent listed box given) {tool : Registered}
    (hfind : box.find (Utf8.bytesOf called) = some tool) :
    (∃ cfg, tool = .peer cfg ∧ (rt.registerTools site agent).peers = some cfg ∧
        called = PeerTool.name) ∨
      (∀ cfg, tool ≠ .peer cfg) ∧ called ∈ (rt.registerTools site agent).names ∧
        ((rt.registerTools site agent).peers = none ∨ called ≠ PeerTool.name) := by
  by_cases hpeer : ∃ cfg, tool = .peer cfg
  · obtain ⟨cfg,rfl⟩ := hpeer
    exact .inl ⟨cfg,rfl,h.find_peer.mp hfind⟩
  · have hother : (rt.registerTools site agent).peers = none ∨ called ≠ PeerTool.name := by
      cases hpeers : (rt.registerTools site agent).peers with
      | none => exact .inl rfl
      | some cfg =>
          refine .inr (fun hname => hpeer ⟨cfg,?_⟩)
          exact Option.some.inj (hfind.symm.trans (h.find_peer.mpr ⟨hpeers,hname⟩))
    have hmem : Utf8.bytesOf called ∈ box.names :=
      List.mem_map_of_mem (f := Prod.fst) (Toolbox.find_eq_some_iff.mp hfind)
    refine .inr ⟨fun cfg htool => hpeer ⟨cfg,htool⟩,?_,hother⟩
    rcases h.mem_names.mp hmem with ⟨hpeers,hname⟩ | hmem
    · rcases hother with hnone | hne
      · rw [hnone] at hpeers
        cases hpeers
      · exact absurd hname hne
    · exact hmem

-- The loop's view of the toolbox reaches the tool that the toolbox finds.
theorem Filled.executeTool (h : Filled site rt agent listed box given) (text : JsonText)
    (ctx : ToolContext) (answer : ToolAnswer) (args : Json) :
    PuCli.Toolbox.executeTool text (rt.registerTools site agent) ctx answer called args =
      Registered.execute text ctx answer args called (box.find (Utf8.bytesOf called)) := by
  unfold PuCli.Toolbox.executeTool
  cases hfind : box.find (Utf8.bytesOf called) with
  | none =>
      have hout : Utf8.bytesOf called ∉ box.names := Toolbox.find_eq_none_iff.mp hfind
      rw [h.mem_names,not_or] at hout
      cases hpeers : (rt.registerTools site agent).peers with
      | none => exact if_neg hout.2
      | some cfg =>
          have hne : called ≠ PeerTool.name := fun hname => hout.1 ⟨by rw [hpeers]; rfl,hname⟩
          dsimp only
          rw [if_neg hne,if_neg hout.2]
          rfl
  | some tool =>
      rcases h.named hfind with ⟨cfg,rfl,hpeers,hname⟩ | ⟨hother,hmem,hne⟩
      · rw [hpeers]
        exact if_pos hname
      · have hanswer : Registered.execute text ctx answer args called (some tool) =
            (answer.result,[]) := by
          cases tool with
          | peer cfg => exact absurd rfl (hother cfg)
          | _ => rfl
        rw [hanswer]
        cases hpeers : (rt.registerTools site agent).peers with
        | none => exact if_pos hmem
        | some cfg =>
            rw [hpeers] at hne
            dsimp only
            rw [if_neg (hne.resolve_left nofun),if_pos hmem]

end PuCli
