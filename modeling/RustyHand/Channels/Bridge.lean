import RustyHand.Channels.Router
import RustyHand.Kernel.Auth

/-!
# The channel bridge

`dispatch_message`, `handle_command` and `resolve_fallback_agent` of
`rusty-hand-channels/src/bridge.rs`.  A dispatch is the list of what it does, in order: the calls of
the kernel's handle, what goes back to the chat, and what changes in the router.  The policies and
the user table are the kernel's own; its other answers are a parameter, and so are the adapter's.
The two strategies of a broadcast make the same calls.

* `KernelOp`, `Event`, `Handle`, `Adapter`, `RateLimiter`;
* `handleCommand`, `resolveFallbackAgent`;
* `dispatchMessage`.
-/

namespace RustyHand
namespace Bridge

open Text (splitSpace splitWhitespace)

/-! ### What a dispatch does -/

/-- The calls that only report: `uptime_info`, `list_models_text` and so on. -/
inductive Report
  | uptimeInfo
  | listModels
  | listProviders
  | listSkills
  | listWorkflows
  | listTriggers
  | listSchedules
  | listApprovals
  | budget
  | peers
  | a2aAgents
  deriving DecidableEq

/-- The calls on one agent. -/
inductive AgentOp
  | resetSession
  | compactSession
  | setModel (model : String)
  | stopRun
  | sessionUsage
  | setThinking (on : Bool)
  deriving DecidableEq

/-- The calls on workflows, triggers, schedules and approvals. -/
inductive Automation
  | runWorkflow (name input : String)
  | createTrigger (agent pattern prompt : String)
  | deleteTrigger (idPrefix : String)
  | manageSchedule (action : String) (args : List String)
  | resolveApproval (idPrefix : String) (approve : Bool)
  deriving DecidableEq

/-- A call of the handle (`ChannelBridgeHandle`). -/
inductive KernelOp
  | report (r : Report)
  | onAgent (agent : AgentId) (op : AgentOp)
  | automate (a : Automation)
  | listAgents
  | findAgentByName (name : String)
  | spawnAgentByName (name : String)
  | listApprovalDetails
  | transcribeAudio (path : String)
  | describeImage (path : String)
  | authorizeChannelUser (channel platformId action : String)
  | checkAutoReply (agent : AgentId) (message : String)
  | sendMessage (agent : AgentId) (message : String)
  | recordDelivery (agent : AgentId) (channel recipient : String) (error : Option String)
  deriving DecidableEq

/-- Does the call change an agent?  The model of the empty name only shows the model in use. -/
def AgentOp.hasEffect : AgentOp → Bool
  | resetSession => true
  | compactSession => true
  | setModel model => model ≠ ""
  | stopRun => true
  | sessionUsage => false
  | setThinking _ => true

/-- Does the call run an agent, or change what the kernel holds? -/
def KernelOp.hasEffect : KernelOp → Bool
  | report _ => false
  | onAgent _ op => op.hasEffect
  | automate _ => true
  | listAgents => false
  | findAgentByName _ => false
  | spawnAgentByName _ => true
  | listApprovalDetails => false
  | transcribeAudio _ => false
  | describeImage _ => false
  | authorizeChannelUser .. => false
  | checkAutoReply .. => true
  | sendMessage .. => true
  | recordDelivery .. => true

/-- One thing that a dispatch does. -/
inductive Event
  | call (op : KernelOp)
  | counted (key : String) (stamps : List ℕ)
  | sent (text : String) (format : OutputFormat) (thread replyTo : Option String)
  | sentButtons (text approveData rejectData : String)
  | answeredCallback (callbackId : String) (text : Option String)
  | downloaded (fileId extension : String)
  | typing
  | userDefault (key : String) (agent : AgentId)
  | defaultAgent (agent : AgentId)
  | trackedSender (agent : AgentId) (channel platformId : String)

/-- The calls among some events. -/
def calls (events : List Event) : List KernelOp :=
  events.filterMap fun
    | .call op => some op
    | _ => none

/-- What the handle answers during one dispatch. -/
structure Handle where
  overrides : String → Option ChannelOverrides
  auth : AuthManager
  report : Report → String
  onAgent : AgentId → AgentOp → Except String String
  automate : Automation → String
  listAgents : Except String (List (AgentId × String))
  findAgentByName : String → Except String (Option AgentId)
  spawnAgentByName : String → Except String AgentId
  listApprovalDetails : List (String × String × String × String)
  transcribeAudio : String → Except String String
  describeImage : String → Except String String
  checkAutoReply : AgentId → String → Option String
  sendMessage : AgentId → String → Except String String

/-- What the adapter answers (`ChannelAdapter`). -/
structure Adapter where
  name : String
  supportsStreaming : Bool
  downloadFile : String → String → Except String String
  sendStreaming : Except String Unit

/-- `ChannelRateLimiter`: the times of the last messages by sender, in milliseconds. -/
abbrev RateLimiter := List (String × List ℕ)

/-- `check`; the times that are kept are an event. -/
def RateLimiter.check (limiter : RateLimiter) (now : ℕ) (channelType platformId : String)
    (maxPerMinute : ℕ) : Except String Unit × List Event :=
  if maxPerMinute = 0 then (.ok (), [])
  else
    let key := channelType ++ ":" ++ platformId
    let recent := ((limiter.lookup key).getD []).filter fun ts => now - ts < 60000
    if maxPerMinute ≤ recent.length then
      (.error ("Rate limit exceeded (" ++ toString maxPerMinute ++
        " messages/minute). Please wait."), [.counted key recent])
    else (.ok (), [.counted key (recent ++ [now])])

/-! ### Commands -/

section Commands

variable (h : Handle) (router : AgentRouter) (sender : ChannelUser)

/-- The list of agents that `start` and `agents` show. -/
def agentLines (ifNone head : String) : String :=
  let agents := h.listAgents.toOption.getD []
  if agents.isEmpty then ifNone
  else head ++ String.join (agents.map fun a => "  - " ++ a.2 ++ "\n")

/-- A command on the agent that the user talks to. -/
def onCurrentAgent (op : AgentOp) : List Event × String :=
  -- whatever the channel of the message is, the bindings of the CLI are looked up
  match router.resolve .cli sender.platformId sender.rustyHandUser with
  | some aid =>
    ([.call (.onAgent aid op)],
      match h.onAgent aid op with
      | .ok text => text
      | .error e => "Error: " ++ e)
  | none => ([], "No agent selected. Use /agent <name> first.")

/-- A command that asks for a report. -/
def reportOf (r : Report) : List Event × String := ([.call (.report r)], h.report r)

/-- A command on workflows, triggers, schedules or approvals. -/
def automationOf (a : Automation) : List Event × String := ([.call (.automate a)], h.automate a)

/-- The branch `agent`: the agent of a name, spawned if there is none. -/
def selectAgent (agentName : String) : List Event × String :=
  match h.findAgentByName agentName with
  | .ok (some aid) =>
    ([.call (.findAgentByName agentName), .userDefault sender.platformId aid],
      "Now talking to agent: " ++ agentName)
  | .ok none =>
    match h.spawnAgentByName agentName with
    | .ok aid =>
      ([.call (.findAgentByName agentName), .call (.spawnAgentByName agentName),
        .userDefault sender.platformId aid], "Spawned and connected to agent: " ++ agentName)
    | .error e =>
      ([.call (.findAgentByName agentName), .call (.spawnAgentByName agentName)],
        "Agent '" ++ agentName ++ "' not found and could not spawn: " ++ e)
  | .error e => ([.call (.findAgentByName agentName)], "Error finding agent: " ++ e)

/-- The branch `agent`. -/
def agentCommand : List String → List Event × String
  | [] => ([], "Usage: /agent <name>")
  | agentName :: _ => selectAgent h sender agentName

/-- The branch `workflow`. -/
def workflowCommand (args : List String) : List Event × String :=
  if 2 ≤ args.length ∧ args[0]? = some "run" then
    automationOf h (.runWorkflow (args.getD 1 "") (" ".intercalate (args.drop 2)))
  else ([], "Usage: /workflow run <name> [input]")

/-- The usage of `trigger`. -/
def triggerUsage : String :=
  "Usage:\n  /trigger add <agent> <pattern> <prompt>\n  /trigger del <id-prefix>"

/-- The branch `trigger`. -/
def triggerCommand (args : List String) : List Event × String :=
  if 4 ≤ args.length ∧ args[0]? = some "add" then
    automationOf h (.createTrigger (args.getD 1 "") (args.getD 2 "")
      (" ".intercalate (args.drop 3)))
  else if 2 ≤ args.length ∧ args[0]? = some "del" then
    automationOf h (.deleteTrigger (args.getD 1 ""))
  else ([], triggerUsage)

/-- The usage of `schedule`. -/
def scheduleUsage : String :=
  "Usage:\n  /schedule add <agent> <cron-5-fields> <message>\n  /schedule del <id-prefix>\n" ++
  "  /schedule run <id-prefix>"

/-- The branch `schedule`. -/
def scheduleCommand : List String → List Event × String
  | [] => ([], scheduleUsage)
  | action :: rest =>
    if ["add", "del", "run"].contains action then automationOf h (.manageSchedule action rest)
    else ([], scheduleUsage)

/-- The branches `approve` and `reject`. -/
def approvalCommand (approve : Bool) (usage : String) : List String → List Event × String
  | [] => ([], usage)
  | idPrefix :: _ => automationOf h (.resolveApproval idPrefix approve)

/-- The text of `help`. -/
def helpText : String :=
  "RustyHand Bot Commands:\n\nSession:\n/agents - list running agents\n" ++
  "/agent <name> - select which agent to talk to\n/new - reset session (clear messages)\n" ++
  "/compact - trigger LLM session compaction\n/model [name] - show or switch agent model\n" ++
  "/stop - cancel current agent run\n/usage - show session token usage and cost\n" ++
  "/think [on|off] - toggle extended thinking\n\nInfo:\n/models - list available AI models\n" ++
  "/providers - show configured providers\n/skills - list installed skills\n" ++
  "/status - show system status\n\nAutomation:\n/workflows - list workflows\n" ++
  "/workflow run <name> [input] - run a workflow\n/triggers - list event triggers\n" ++
  "/trigger add <agent> <pattern> <prompt> - create trigger\n" ++
  "/trigger del <id> - remove trigger\n/schedules - list cron jobs\n" ++
  "/schedule add <agent> <cron-5-fields> <message> - create job\n" ++
  "/schedule del <id> - remove job\n/schedule run <id> - run job now\n" ++
  "/approvals - list pending approvals\n/approve <id> - approve a request\n" ++
  "/reject <id> - reject a request\n\nMonitoring:\n" ++
  "/budget - show spending limits and current costs\n/peers - show RHP peer network status\n" ++
  "/a2a - list discovered external A2A agents\n\n/start - show welcome message\n" ++
  "/help - show this help"

/-- `handle_command`: what it does, and the text it returns. -/
def handleCommand (name : String) (args : List String) : List Event × String :=
  match name with
  | "start" =>
    ([.call .listAgents],
      "Welcome to RustyHand! I connect you to AI agents.\n\nAvailable agents:\n" ++
      agentLines h "  (none running)\n" "" ++
      "\nCommands:\n/agents - list agents\n/agent <name> - select an agent\n/help - show this help")
  | "help" => ([], helpText)
  | "status" => reportOf h .uptimeInfo
  | "agents" => ([.call .listAgents], agentLines h "No agents running." "Running agents:\n")
  | "agent" => agentCommand h sender args
  | "new" => onCurrentAgent h router sender .resetSession
  | "compact" => onCurrentAgent h router sender .compactSession
  | "model" => onCurrentAgent h router sender (.setModel (args.head?.getD ""))
  | "stop" => onCurrentAgent h router sender .stopRun
  | "usage" => onCurrentAgent h router sender .sessionUsage
  | "think" => onCurrentAgent h router sender (.setThinking (args.head?.all (· = "on")))
  | "models" => reportOf h .listModels
  | "providers" => reportOf h .listProviders
  | "skills" => reportOf h .listSkills
  | "workflows" => reportOf h .listWorkflows
  | "workflow" => workflowCommand h args
  | "triggers" => reportOf h .listTriggers
  | "trigger" => triggerCommand h args
  | "schedules" => reportOf h .listSchedules
  | "schedule" => scheduleCommand h args
  | "approvals" => reportOf h .listApprovals
  | "approve" => approvalCommand h true "Usage: /approve <id-prefix>" args
  | "reject" => approvalCommand h false "Usage: /reject <id-prefix>" args
  | "budget" => reportOf h .budget
  | "peers" => reportOf h .peers
  | "a2a" => reportOf h .a2aAgents
  | _ => ([], "Unknown command: /" ++ name)

end Commands

/-- The names under which `dispatch_message` takes a text for a command. -/
def slashCommands : List String :=
  ["start", "help", "agents", "agent", "status", "models", "providers", "new", "compact", "model",
    "stop", "usage", "think", "skills", "workflows", "workflow", "triggers", "trigger", "schedules",
    "schedule", "approvals", "approve", "reject", "budget", "peers", "a2a"]

/-! ### Dispatch -/

/-- `FALLBACK_AGENT_NAMES`. -/
def fallbackAgentNames : List String := ["assistant", "coordinator", "coder"]

/-- The first of some bundled agents that can be spawned. -/
def spawnFallback (h : Handle) : List String → List Event × Except String AgentId
  | [] =>
    ([], .error ("No agents are running and no bundled fallback could be spawned. " ++
      "Set `default_agent` under your channel section in config.toml " ++
      "(e.g. `[channels.telegram] default_agent = \"assistant\"`) and restart the daemon."))
  | name :: names =>
    match h.spawnAgentByName name with
    | .ok id => ([.call (.spawnAgentByName name)], .ok id)
    | .error _ =>
      let next := spawnFallback h names
      (.call (.spawnAgentByName name) :: next.1, next.2)

/-- The running agent whose name comes first. -/
def firstByName (agents : List (AgentId × String)) : Option (AgentId × String) :=
  (agents.mergeSort fun a b => a.2 ≤ b.2).head?

/-- `resolve_fallback_agent`. -/
def resolveFallbackAgent (h : Handle) : List Event × Except String AgentId :=
  match h.listAgents.toOption.bind firstByName with
  | some agent => ([.call .listAgents], .ok agent.1)
  | none =>
    let spawned := spawnFallback h fallbackAgentNames
    (.call .listAgents :: spawned.1, spawned.2)

section Dispatch

variable (h : Handle) (router : AgentRouter) (adapter : Adapter) (m : ChannelMessage)

/-- The overrides of the message's channel. -/
def overridesOf : Option ChannelOverrides := h.overrides m.channel.str

/-- `send_response` to the sender, in the thread of the message if the channel has threads. -/
def respond (text : String) (replyTo : Option String := none) : Event :=
  let ov := overridesOf h m
  let threading := (ov.map ChannelOverrides.threading).getD false
  .sent text ((ov.bind ChannelOverrides.outputFormat).getD .markdown)
    (if threading then m.threadId else none) replyTo

/-- The authorization that the dispatch asks for. -/
def authorization : Except String Unit :=
  h.auth.authorizeChannelUser m.channel.str m.sender.platformId "chat"

/-- The call that asks for it. -/
def authorizationCall : Event :=
  .call (.authorizeChannelUser m.channel.str m.sender.platformId "chat")

/-- The press of a button. -/
def dispatchCallback (data callbackId : String) : List Event :=
  match Text.stripStart "approve:" data with
  | some idPrefix =>
    let a := Automation.resolveApproval idPrefix true
    [.call (.automate a), .answeredCallback callbackId (some "✅ Approved"),
      respond h m (h.automate a)]
  | none =>
    match Text.stripStart "reject:" data with
    | some idPrefix =>
      let a := Automation.resolveApproval idPrefix false
      [.call (.automate a), .answeredCallback callbackId (some "❌ Rejected"),
        respond h m (h.automate a)]
    | none =>
      -- no agent is told of it
      [.answeredCallback callbackId none, respond h m ("[callback: " ++ data ++ "]")]

/-- A command, and the answer to it. -/
def dispatchCommand (name : String) (args : List String) : List Event :=
  let result := handleCommand h router m.sender name args
  result.1 ++ [respond h m result.2]

/-- The text `/approvals`: the pending ones, each with its buttons. -/
def dispatchApprovals : List Event :=
  if h.listApprovalDetails.isEmpty then
    [.call .listApprovalDetails, respond h m "No approvals pending."]
  else
    .call .listApprovalDetails :: h.listApprovalDetails.map fun d =>
      .sentButtons (d.2.2.2 ++ " " ++ d.1) ("approve:" ++ d.2.1) ("reject:" ++ d.2.1)

/-- A turn of an agent, streamed where the adapter can. -/
def turnResult (agentId : AgentId) (text : String) : Except String String :=
  let response := h.sendMessage agentId text
  if adapter.supportsStreaming then
    -- an error of the turn goes before an error of the stream
    match adapter.sendStreaming, response with
    | .ok (), _ => response
    | .error e, .ok _ => .error ("Streaming send to " ++ adapter.name ++ " failed: " ++ e)
    | .error _, .error original => .error original
  else response

/-- The message goes to an agent: authorization, auto-reply, turn. -/
def dispatchToAgent (agentId : AgentId) (text : String) : List Event :=
  .trackedSender agentId m.channel.str m.sender.platformId :: authorizationCall m ::
    match authorization h m with
    | .error denied => [respond h m ("Access denied: " ++ denied)]
    | .ok () =>
      .call (.checkAutoReply agentId text) ::
        match h.checkAutoReply agentId text with
        | some reply =>
          [respond h m reply,
            .call (.recordDelivery agentId m.channel.str m.sender.platformId none)]
        | none =>
          .typing :: .call (.sendMessage agentId text) ::
            match turnResult h adapter agentId text with
            | .ok response =>
              (if adapter.supportsStreaming then []
                else [respond h m response (some m.platformMessageId)]) ++
              [.call (.recordDelivery agentId m.channel.str m.sender.platformId none)]
            | .error e =>
              [respond h m ("Agent error: " ++ e),
                .call (.recordDelivery agentId m.channel.str m.sender.platformId
                  (some ("Agent error: " ++ e)))]

/-- The agents of a broadcast that the router knows. -/
def broadcastTargets : List (String × AgentId) :=
  (router.resolveBroadcast m.sender.platformId).filterMap fun t => t.2.map (t.1, ·)

/-- The message goes to every agent of a broadcast. -/
def dispatchBroadcast (text : String) : List Event :=
  authorizationCall m ::
    match authorization h m with
    | .error denied => [respond h m ("Access denied: " ++ denied)]
    | .ok () =>
      let targets := broadcastTargets router m
      let responses := targets.map fun t =>
        match h.sendMessage t.2 text with
        | .ok r => "[" ++ t.1 ++ "]: " ++ r
        | .error e => "[" ++ t.1 ++ "]: Error: " ++ e
      .typing :: targets.map (fun t => .call (.sendMessage t.2 text)) ++
        [respond h m ("\n\n".intercalate responses)]

/-- Does the message go to a broadcast? -/
def isBroadcast : Bool :=
  router.hasBroadcast m.sender.platformId &&
    !(router.resolveBroadcast m.sender.platformId).isEmpty

/-- The agent that the router names for the message. -/
def routed : Option AgentId :=
  router.resolve m.channel m.sender.platformId m.sender.rustyHandUser

/-- A text that is no command: a broadcast, the agent of the router, or the fallback. -/
def dispatchRouted (text : String) : List Event :=
  if isBroadcast router m then dispatchBroadcast h router m text
  else
    match routed router m with
    | some agentId => dispatchToAgent h adapter m agentId text
    | none =>
      let fallback := resolveFallbackAgent h
      fallback.1 ++
        match fallback.2 with
        | .ok agentId => .defaultAgent agentId :: dispatchToAgent h adapter m agentId text
        | .error msg => [respond h m msg]

/-- The command in a text that begins with a slash, if its name is one of the known. -/
def slashCommand (text : String) : Option (String × List String) :=
  let parts := splitSpace text
  let cmd := String.ofList (parts.1.toList.drop 1)
  if startsWithSlash text && slashCommands.contains cmd then
    some (cmd, (parts.2.map splitWhitespace).getD [])
  else none

/-- A text, typed by the sender or made from media. -/
def dispatchText (text : String) : List Event :=
  if text = "/approvals" then dispatchApprovals h m
  else
    match slashCommand text with
    | some command => dispatchCommand h router m command.1 command.2
    | none => dispatchRouted h router adapter m text

/-- What the agent is told of a downloaded file, and the calls that find it out. -/
def describeMedia (mediaType localPath : String) : List Event × String :=
  let captionText := (m.metadataStr "caption").getD ""
  if mediaType = "voice" ∨ mediaType = "audio" then
    ([.call (.transcribeAudio localPath)],
      match h.transcribeAudio localPath with
      | .ok transcription =>
        "[Voice message transcription]: " ++ transcription ++
          if captionText = "" then "" else "\n\nCaption: " ++ captionText
      | .error _ =>
        "[Voice message received, but transcription failed. Please try again.]")
  else if mediaType = "photo" then
    let description :=
      (h.describeImage localPath).toOption.getD "Image received (description unavailable)"
    ([.call (.describeImage localPath)],
      if captionText = "" then "[Photo: " ++ description ++ "]"
      else "[Photo with caption \"" ++ captionText ++ "\": " ++ description ++ "]")
  else
    let filename :=
      match m.content with
      | .file _ filename => filename
      | _ => "file"
    ([], "[File received: " ++ filename ++ ". Saved to " ++ localPath ++ "]")

/-- The ending under which a file of a type is saved. -/
def extensionOf : String → String
  | "photo" => "jpg"
  | "voice" => "ogg"
  | "audio" => "mp3"
  | _ => "bin"

/-- A picture, a recording or a file. -/
def dispatchMedia : List Event :=
  let fileId := (m.metadataStr "file_id").getD ""
  let mediaType := (m.metadataStr "media_type").getD "file"
  if fileId = "" then [respond h m "Could not process media: missing file_id."]
  else
    .downloaded fileId (extensionOf mediaType) ::
      match adapter.downloadFile fileId (extensionOf mediaType) with
      | .error _ => [respond h m "Could not download media file. Please try again."]
      | .ok localPath =>
        let described := describeMedia h m mediaType localPath
        described.1 ++ dispatchText h router adapter m described.2

/-- Behind the policies and the rate limit. -/
def dispatchContent : List Event :=
  match m.content with
  | .callbackQuery data callbackId => dispatchCallback h m data callbackId
  | .text t => dispatchText h router adapter m t
  | .command name args => dispatchCommand h router m name args
  | .image .. => dispatchMedia h router adapter m
  | .voice .. => dispatchMedia h router adapter m
  | .file .. => dispatchMedia h router adapter m
  | .location lat lon =>
    dispatchText h router adapter m ("[Location shared: " ++ lat ++ ", " ++ lon ++
      "](https://maps.google.com/?q=" ++ lat ++ "," ++ lon ++ ")")

/-- The rate limit of the channel. -/
def rateLimit (limiter : RateLimiter) (now : ℕ) : Except String Unit × List Event :=
  match overridesOf h m with
  | none => (.ok (), [])
  | some ov =>
    if 0 < ov.rateLimitPerUser then
      limiter.check now m.channel.str m.sender.platformId ov.rateLimitPerUser
    else (.ok (), [])

/-- Do the policies of the channel let the message through, coming from a group or not?  A channel
without overrides has none. -/
def admits (group : Bool) : Bool := (overridesOf h m).all fun ov => ov.admits group m.content

/-- `dispatch_message`. -/
def dispatchMessage (limiter : RateLimiter) (now : ℕ) : List Event :=
  if admits h m m.isGroup then
    let limited := rateLimit h m limiter now
    limited.2 ++
      match limited.1 with
      | .error msg => [respond h m msg]
      | .ok () => dispatchContent h router adapter m
  else []

end Dispatch

end Bridge
end RustyHand
