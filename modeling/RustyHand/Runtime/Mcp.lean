import Mathlib.Data.List.Nodup
import Mathlib.Data.List.TakeWhile
import RustyHand.Types.Text

/-!
# MCP tool names

`rusty-hand-runtime/src/mcp.rs`: how the tools of MCP servers are named for agents; the branch of
`execute_tool` (`tool_runner.rs`) that calls them, whose names no other branch has; and the filter
by servers of `available_tools` (`kernel.rs`).  `str::to_lowercase` is a parameter.

* `formatMcpToolName`, `extractMcpServer`, `stripMcpPrefix`;
* `executeTool`, `availableTools`;
* `Plain`: names that come back as they went out;
* `routesBack_and_selects_iff`.
-/

namespace RustyHand
namespace Mcp

open Text (stripStart stripStart_append)

variable (toLowercase : String → String)

/-- `normalize_name`. -/
def normalizeName (name : String) : String :=
  String.ofList ((toLowercase name).toList.map fun c => if c = '-' then '_' else c)

/-- `format_mcp_tool_name`. -/
def formatMcpToolName (server tool : String) : String :=
  "mcp_" ++ normalizeName toLowercase server ++ "_" ++ normalizeName toLowercase tool

/-- `is_mcp_tool`. -/
def isMcpTool (name : String) : Bool := (stripStart "mcp_" name).isSome

/-- What stands before the first underscore. -/
def beforeUnderscore (s : String) : String := String.ofList (s.toList.takeWhile (· ≠ '_'))

/-- `extract_mcp_server`. -/
def extractMcpServer (toolName : String) : Option String :=
  match stripStart "mcp_" toolName with
  | none => none
  | some rest => if '_' ∈ rest.toList then some (beforeUnderscore rest) else none

/-- `strip_mcp_prefix`. -/
def stripMcpPrefix (server toolName : String) : Option String :=
  stripStart ("mcp_" ++ normalizeName toLowercase server ++ "_") toolName

/-- `McpConnection`: the server's name, and the names of its tools as it advertises them. -/
structure McpConnection where
  name : String
  advertised : List String
  deriving DecidableEq

/-- `tools`, by their names. -/
def McpConnection.tools (conn : McpConnection) : List String :=
  conn.advertised.map (formatMcpToolName toLowercase conn.name)

/-- What becomes of a tool call; `elsewhere` if it is not for an MCP tool. -/
inductive Outcome
  | called (conn : McpConnection) (tool : String)
  | error (text : String)
  | elsewhere
  deriving DecidableEq

/-- `call_tool`: the request that is sent to the server. -/
def McpConnection.callTool (conn : McpConnection) (name : String) : Outcome :=
  .called conn ((stripMcpPrefix toLowercase conn.name name).getD name)

/-- `execute_tool`, behind its gates and the built-in tools. -/
def executeTool (connections : Option (List McpConnection)) (toolName : String) : Outcome :=
  if isMcpTool toolName then
    match connections with
    | none => .error ("MCP not available for tool: " ++ toolName)
    | some conns =>
      match extractMcpServer toolName with
      | none => .error ("Invalid MCP tool name: " ++ toolName)
      | some serverName =>
        match conns.find? fun conn => conn.name = serverName with
        | none => .error ("MCP server '" ++ serverName ++ "' not connected")
        | some conn => conn.callTool toLowercase toolName
  else .elsewhere

/-- `mcp_tools`. -/
def mcpTools (conns : List McpConnection) : List String :=
  conns.flatMap (McpConnection.tools toLowercase)

/-- The MCP tools of `available_tools`. -/
def availableTools (allowlist : List String) (conns : List McpConnection) : List String :=
  if allowlist.isEmpty then mcpTools toLowercase conns
  else (mcpTools toLowercase conns).filter fun tool =>
    match extractMcpServer tool with
    | none => false
    | some server => (allowlist.map (normalizeName toLowercase)).contains server

/-! ### What is asked of names -/

/-- Executing a tool by the name it is shown under calls its server by its own name. -/
def RoutesBack (conns : List McpConnection) : Prop :=
  ∀ conn ∈ conns, ∀ tool ∈ conn.advertised,
    executeTool toLowercase (some conns) (formatMcpToolName toLowercase conn.name tool) =
      .called conn tool

/-- Is the server listed, normalized names being compared? -/
def listed (allowlist : List String) (conn : McpConnection) : Bool :=
  (allowlist.map (normalizeName toLowercase)).contains (normalizeName toLowercase conn.name)

/-- An allowlist of servers selects just the tools of the servers that it lists. -/
def Selects (conns : List McpConnection) : Prop :=
  ∀ allowlist ≠ [], availableTools toLowercase allowlist conns =
    (conns.filter (listed toLowercase allowlist)).flatMap (McpConnection.tools toLowercase)

/-- The server's name is in normal form and has no underscore, and the names of its tools are in
normal form. -/
def Plain (conn : McpConnection) : Prop :=
  normalizeName toLowercase conn.name = conn.name ∧ '_' ∉ conn.name.toList ∧
    ∀ tool ∈ conn.advertised, normalizeName toLowercase tool = tool

/-- Lower case brings in no underscore and no hyphen. -/
def KeepsSeparators : Prop :=
  ∀ s : String, '_' ∈ (toLowercase s).toList ∨ '-' ∈ (toLowercase s).toList →
    '_' ∈ s.toList ∨ '-' ∈ s.toList

/-! ### Reading names back -/

variable {toLowercase}

theorem takeWhile_append_underscore (a b : List Char) :
    (a ++ '_' :: b).takeWhile (· ≠ '_') = a.takeWhile (· ≠ '_') := by
  induction a with
  | nil => simp
  | cons c a ih =>
    rw [List.cons_append, List.takeWhile_cons, List.takeWhile_cons, ih]

theorem beforeUnderscore_eq_self {s : String} (h : '_' ∉ s.toList) : beforeUnderscore s = s := by
  rw [beforeUnderscore, List.takeWhile_eq_self_iff.2, String.ofList_toList]
  intro c hc
  have hne : c ≠ '_' := fun heq => h (heq ▸ hc)
  simpa using hne

theorem underscore_not_mem_beforeUnderscore (s : String) : '_' ∉ (beforeUnderscore s).toList := by
  intro hmem
  rw [beforeUnderscore, String.toList_ofList] at hmem
  simpa using List.mem_takeWhile_imp hmem

theorem stripStart_formatMcpToolName (server tool : String) :
    stripStart "mcp_" (formatMcpToolName toLowercase server tool) =
      some (normalizeName toLowercase server ++ "_" ++ normalizeName toLowercase tool) := by
  have hname : formatMcpToolName toLowercase server tool = "mcp_" ++
      (normalizeName toLowercase server ++ "_" ++ normalizeName toLowercase tool) := by
    simp [formatMcpToolName, String.append_assoc]
  rw [hname, stripStart_append]

theorem isMcpTool_formatMcpToolName (server tool : String) :
    isMcpTool (formatMcpToolName toLowercase server tool) = true := by
  rw [isMcpTool, stripStart_formatMcpToolName]
  rfl

/-- What is read back of the name of a tool is the server's, up to its first underscore. -/
theorem extractMcpServer_format (server tool : String) :
    extractMcpServer (formatMcpToolName toLowercase server tool) =
      some (beforeUnderscore (normalizeName toLowercase server)) := by
  rw [extractMcpServer, stripStart_formatMcpToolName]
  generalize normalizeName toLowercase server = s
  have hsplit : (s ++ "_" ++ normalizeName toLowercase tool).toList =
      s.toList ++ '_' :: (normalizeName toLowercase tool).toList := by simp
  have hmem : '_' ∈ (s ++ "_" ++ normalizeName toLowercase tool).toList := by simp
  dsimp only
  rw [if_pos hmem, beforeUnderscore, hsplit, takeWhile_append_underscore]
  rfl

theorem stripMcpPrefix_format (server tool : String) :
    stripMcpPrefix toLowercase server (formatMcpToolName toLowercase server tool) =
      some (normalizeName toLowercase tool) :=
  stripStart_append ..

theorem hyphen_not_mem_normalizeName (s : String) :
    '-' ∉ (normalizeName toLowercase s).toList := by
  intro hmem
  rw [normalizeName, String.toList_ofList] at hmem
  obtain ⟨c, -, hc⟩ := List.mem_map.1 hmem
  split_ifs at hc with hdash
  · cases hc
  · exact hdash hc

/-- The server's name is read back when it is in normal form and has no underscore. -/
theorem beforeUnderscore_normalizeName_iff (hlower : KeepsSeparators toLowercase)
    (server : String) :
    beforeUnderscore (normalizeName toLowercase server) = server ↔
      normalizeName toLowercase server = server ∧ '_' ∉ server.toList := by
  constructor
  · intro heq
    have hunderscore : '_' ∉ server.toList := by
      rw [← heq]
      exact underscore_not_mem_beforeUnderscore _
    have hhyphen : '-' ∉ server.toList := by
      intro hmem
      rw [← heq, beforeUnderscore, String.toList_ofList] at hmem
      exact hyphen_not_mem_normalizeName server ((List.takeWhile_subset _) hmem)
    -- so lower case has no separator, and the normal form no underscore to cut at
    have hnone : '_' ∉ (normalizeName toLowercase server).toList := by
      intro hmem
      rw [normalizeName, String.toList_ofList] at hmem
      obtain ⟨c, hc, hceq⟩ := List.mem_map.1 hmem
      split_ifs at hceq with hdash
      · rw [hdash] at hc
        exact (hlower server (.inr hc)).elim hunderscore hhyphen
      · rw [hceq] at hc
        exact (hlower server (.inl hc)).elim hunderscore hhyphen
    rw [beforeUnderscore_eq_self hnone] at heq
    exact ⟨heq, hunderscore⟩
  · rintro ⟨hnormal, hunderscore⟩
    rw [hnormal]
    exact beforeUnderscore_eq_self hunderscore

/-! ### Routing -/

theorem find?_of_nodup {conns : List McpConnection} (hnodup : (conns.map McpConnection.name).Nodup)
    {conn : McpConnection} (hconn : conn ∈ conns) :
    conns.find? (fun c => c.name = conn.name) = some conn := by
  induction conns with
  | nil => cases hconn
  | cons c conns ih =>
    rw [List.map_cons, List.nodup_cons] at hnodup
    rcases List.mem_cons.1 hconn with rfl | hconn
    · exact List.find?_cons_of_pos (by simp)
    · have hne : c.name ≠ conn.name := fun heq => hnodup.1 (heq ▸ List.mem_map_of_mem hconn)
      rw [List.find?_cons_of_neg (by simpa using hne)]
      exact ih hnodup.2 hconn

/-- A tool is routed back just if its server's name is read back and its own is in normal form. -/
theorem executeTool_format_iff {conns : List McpConnection}
    (hnodup : (conns.map McpConnection.name).Nodup) {conn : McpConnection} (hconn : conn ∈ conns)
    (tool : String) :
    executeTool toLowercase (some conns) (formatMcpToolName toLowercase conn.name tool) =
        .called conn tool ↔
      beforeUnderscore (normalizeName toLowercase conn.name) = conn.name ∧
        normalizeName toLowercase tool = tool := by
  rw [executeTool, if_pos (isMcpTool_formatMcpToolName ..), extractMcpServer_format]
  dsimp only
  constructor
  · intro hcall
    split at hcall
    · cases hcall
    · next found hfound =>
      rw [McpConnection.callTool, Outcome.called.injEq] at hcall
      obtain ⟨rfl, htool⟩ := hcall
      have hname := List.find?_some hfound
      rw [stripMcpPrefix_format, Option.getD_some] at htool
      exact ⟨(of_decide_eq_true hname).symm, htool⟩
  · rintro ⟨hname, htool⟩
    rw [hname, find?_of_nodup hnodup hconn]
    dsimp only
    rw [McpConnection.callTool, stripMcpPrefix_format, Option.getD_some, htool]

/-- The tools that an allowlist selects, server by server. -/
theorem availableTools_eq {allowlist : List String} (hne : allowlist ≠ [])
    (conns : List McpConnection) :
    availableTools toLowercase allowlist conns = conns.flatMap fun conn =>
      if (allowlist.map (normalizeName toLowercase)).contains
        (beforeUnderscore (normalizeName toLowercase conn.name)) then conn.tools toLowercase
      else [] := by
  have hnonempty : ¬ allowlist.isEmpty = true := by simpa using hne
  rw [availableTools, if_neg hnonempty, mcpTools, List.filter_flatMap]
  congr 1
  -- all tools of a server read back the same, so the filter keeps all of them or none
  funext conn
  rw [McpConnection.tools, List.filter_map]
  split_ifs with hlisted
  · rw [List.filter_eq_self.2]
    intro tool _
    simp only [Function.comp_apply, extractMcpServer_format]
    exact hlisted
  · rw [List.filter_eq_nil_iff.2, List.map_nil]
    intro tool _
    simp only [Function.comp_apply, extractMcpServer_format]
    exact hlisted

theorem selects_of_plain {conns : List McpConnection}
    (hplain : ∀ conn ∈ conns, conn.advertised ≠ [] → Plain toLowercase conn) :
    Selects toLowercase conns := by
  intro allowlist hne
  rw [availableTools_eq hne]
  induction conns with
  | nil => rfl
  | cons conn conns ih =>
    have hrest := ih fun c hc => hplain c (List.mem_cons_of_mem _ hc)
    rw [List.flatMap_cons, hrest, List.filter_cons]
    by_cases htools : conn.advertised = []
    · have hnone : conn.tools toLowercase = [] := by rw [McpConnection.tools, htools]; rfl
      split_ifs <;> simp [hnone]
    · obtain ⟨hnormal, hunderscore, -⟩ := hplain conn List.mem_cons_self htools
      rw [listed, hnormal, beforeUnderscore_eq_self hunderscore]
      split_ifs <;> simp

/-- **Routing and selection are right just for plain names.** -/
theorem routesBack_and_selects_iff (hlower : KeepsSeparators toLowercase)
    (conns : List McpConnection) (hnodup : (conns.map McpConnection.name).Nodup) :
    RoutesBack toLowercase conns ∧ Selects toLowercase conns ↔
      ∀ conn ∈ conns, conn.advertised ≠ [] → Plain toLowercase conn := by
  constructor
  · rintro ⟨hroutes, -⟩ conn hconn htools
    have hback := fun tool htool =>
      (executeTool_format_iff hnodup hconn tool).1 (hroutes conn hconn tool htool)
    obtain ⟨tool, htool⟩ := List.exists_mem_of_ne_nil _ htools
    obtain ⟨hnormal, hunderscore⟩ :=
      (beforeUnderscore_normalizeName_iff hlower conn.name).1 (hback tool htool).1
    exact ⟨hnormal, hunderscore, fun tool htool => (hback tool htool).2⟩
  · intro hplain
    refine ⟨?_, selects_of_plain hplain⟩
    intro conn hconn tool htool
    obtain ⟨hnormal, hunderscore, htools⟩ :=
      hplain conn hconn (List.ne_nil_of_mem htool)
    refine (executeTool_format_iff hnodup hconn tool).2 ⟨?_, htools tool htool⟩
    exact (beforeUnderscore_normalizeName_iff hlower conn.name).2 ⟨hnormal, hunderscore⟩

/-! ### ASCII -/

/-- The lower case of ASCII text. -/
def asciiLowercase (s : String) : String := String.ofList (s.toList.map Char.toLower)

theorem toLower_eq_separator {c : Char} (h : c.toLower = '_' ∨ c.toLower = '-') :
    c = '_' ∨ c = '-' := by
  unfold Char.toLower at h
  split at h
  · next hupper =>
    -- a capital letter becomes a letter
    exfalso
    have hval : c.val + 32 = 95 ∨ c.val + 32 = 45 := by
      rcases h with h | h
      · exact .inl (congrArg Char.val h)
      · exact .inr (congrArg Char.val h)
    have hlow := UInt32.le_iff_toNat_le.1 hupper.1
    have hhigh := UInt32.le_iff_toNat_le.1 hupper.2
    rcases hval with hval | hval <;>
    · have := congrArg UInt32.toNat hval
      rw [UInt32.toNat_add] at this
      simp at this hlow hhigh
      omega
  · exact h

theorem keepsSeparators_asciiLowercase : KeepsSeparators asciiLowercase := by
  intro s hs
  rw [asciiLowercase, String.toList_ofList, List.mem_map, List.mem_map] at hs
  rcases hs with ⟨c, hc, hlower⟩ | ⟨c, hc, hlower⟩
  · rcases toLower_eq_separator (.inl hlower) with rfl | rfl
    · exact .inl hc
    · exact .inr hc
  · rcases toLower_eq_separator (.inr hlower) with rfl | rfl
    · exact .inl hc
    · exact .inr hc

theorem routesBack_and_selects_github :
    RoutesBack asciiLowercase [⟨"github", ["create_issue"]⟩, ⟨"fs", ["read", "write"]⟩] ∧
      Selects asciiLowercase [⟨"github", ["create_issue"]⟩, ⟨"fs", ["read", "write"]⟩] :=
  (routesBack_and_selects_iff keepsSeparators_asciiLowercase _ (by decide)).2 (by
    intro conn hconn _
    rcases List.mem_pair.1 hconn with rfl | rfl
    · exact ⟨by decide, by decide, by decide⟩
    · exact ⟨by decide, by decide, by decide⟩)

/-- The tools of a server whose name has a hyphen cannot be called. -/
theorem not_routesBack_my_server :
    ([⟨"my-server", ["do_thing"]⟩].map McpConnection.name).Nodup ∧
      ¬ (RoutesBack asciiLowercase [⟨"my-server", ["do_thing"]⟩] ∧
        Selects asciiLowercase [⟨"my-server", ["do_thing"]⟩]) := by
  refine ⟨by decide, ?_⟩
  rintro ⟨hroutes, -⟩
  have hcall := hroutes _ List.mem_cons_self _ List.mem_cons_self
  exact absurd hcall (by decide)

end Mcp
end RustyHand
