import RustyHand.Channels.Adapters
import RustyHand.Channels.Bridge

/-!
# Who gets through to the kernel

A call with an effect should be made only where the policy for the chat that an update comes from
lets it through and the sender is authorized.  The dispatch asks for the authorization on the way to
an agent only.  The commands, the buttons and the spawning of a fallback agent are in front of it,
and the press of a button counts as a direct message wherever it comes from.

* `Mediated`: every call with an effect is behind both gates;
* `bypasses`: the message has an effect without the authorization being asked for;
* `mediated_iff`.
-/

namespace RustyHand
namespace Bridge

variable (h : Handle) (router : AgentRouter) (adapter : Adapter) (m : ChannelMessage)

/-- Does a dispatch do something with an effect? -/
def acts (events : List Event) : Bool := (calls events).any KernelOp.hasEffect

/-- The agent that the sender's commands are about. -/
def currentAgent : Option AgentId :=
  router.resolve .cli m.sender.platformId m.sender.rustyHandUser

/-- Is there no agent of the name, so that one is spawned? -/
def nameless (agentName : String) : Bool :=
  match h.findAgentByName agentName with
  | .ok none => true
  | _ => false

/-- Is it a command with an effect? -/
def commandActs (name : String) (args : List String) : Bool :=
  match name with
  | "agent" => args.head?.any (nameless h)
  | "new" => (currentAgent router m).isSome
  | "compact" => (currentAgent router m).isSome
  | "stop" => (currentAgent router m).isSome
  | "think" => (currentAgent router m).isSome
  | "model" => (currentAgent router m).isSome && args.head?.any (· ≠ "")
  | "workflow" => 2 ≤ args.length ∧ args[0]? = some "run"
  | "trigger" =>
    4 ≤ args.length ∧ args[0]? = some "add" ∨ 2 ≤ args.length ∧ args[0]? = some "del"
  | "schedule" => args.head?.any ["add", "del", "run"].contains
  | "approve" => !args.isEmpty
  | "reject" => !args.isEmpty
  | _ => false

/-- Is it the data of a button that decides on an approval? -/
def callbackActs (data : String) : Bool :=
  (Text.stripStart "approve:" data).isSome || (Text.stripStart "reject:" data).isSome

/-- Is an agent spawned for a message that the router knows none for? -/
def fallbackSpawns : Bool :=
  !isBroadcast router m && (routed router m).isNone && (h.listAgents.toOption.getD []).isEmpty

/-- Does a text have an effect without authorization? -/
def textBypasses (text : String) : Bool :=
  match slashCommand text with
  | some command => commandActs h router m command.1 command.2
  | none => fallbackSpawns h router m

/-- The text that a picture, a recording or a file becomes. -/
def mediaText : Option String :=
  let fileId := (m.metadataStr "file_id").getD ""
  let mediaType := (m.metadataStr "media_type").getD "file"
  if fileId = "" then none
  else
    (adapter.downloadFile fileId (extensionOf mediaType)).toOption.map fun localPath =>
      (describeMedia h m mediaType localPath).2

/-- Does the message have an effect without authorization? -/
def bypasses : Bool :=
  match m.content with
  | .callbackQuery data _ => callbackActs data
  | .command name args => commandActs h router m name args
  | .text t => textBypasses h router m t
  | .location lat lon => textBypasses h router m ("[Location shared: " ++ lat ++ ", " ++ lon ++
      "](https://maps.google.com/?q=" ++ lat ++ "," ++ lon ++ ")")
  | _ => (mediaText h adapter m).any (textBypasses h router m)

/-- Every call with an effect that the dispatch of an update makes is one that the policy for its
chat lets through, with the sender authorized. -/
def Mediated (coordinate : Json → String) (limiter : RateLimiter) (now : ℕ) (u : Update) : Prop :=
  ∀ m, u.message? coordinate = some m →
    ∀ op ∈ calls (dispatchMessage h router adapter m limiter now), op.hasEffect = true →
      admits h m u.fromGroup = true ∧ authorization h m = .ok ()

variable {h router adapter m}

/-! ### The calls of a dispatch -/

@[simp] theorem calls_nil : calls [] = [] := rfl

@[simp] theorem calls_append (a b : List Event) : calls (a ++ b) = calls a ++ calls b :=
  List.filterMap_append

@[simp] theorem calls_cons_call (op : KernelOp) (events : List Event) :
    calls (.call op :: events) = op :: calls events := rfl

@[simp] theorem acts_nil : acts [] = false := rfl

@[simp] theorem acts_append (a b : List Event) : acts (a ++ b) = (acts a || acts b) := by
  simp [acts]

@[simp] theorem acts_cons_call (op : KernelOp) (events : List Event) :
    acts (.call op :: events) = (op.hasEffect || acts events) := by simp [acts]

@[simp] theorem acts_cons_respond (text : String) (replyTo : Option String)
    (events : List Event) : acts (respond h m text replyTo :: events) = acts events := rfl

theorem acts_iff {events : List Event} :
    acts events = true ↔ ∃ op ∈ calls events, op.hasEffect = true := List.any_eq_true

theorem acts_onCurrentAgent (op : AgentOp) :
    acts (onCurrentAgent h router m.sender op).1 =
      ((currentAgent router m).isSome && op.hasEffect) := by
  unfold onCurrentAgent currentAgent
  cases router.resolve .cli m.sender.platformId m.sender.rustyHandUser with
  | none => rfl
  | some aid => simp [KernelOp.hasEffect]

theorem acts_automationOf (a : Automation) : acts (automationOf h a).1 = true := rfl

theorem acts_selectAgent (agentName : String) :
    acts (selectAgent h m.sender agentName).1 = nameless h agentName := by
  unfold selectAgent nameless
  cases h.findAgentByName agentName with
  | error e => rfl
  | ok found =>
    cases found with
    | some aid => rfl
    | none => cases h.spawnAgentByName agentName <;> rfl

theorem acts_agentCommand (args : List String) :
    acts (agentCommand h m.sender args).1 = args.head?.any (nameless h) := by
  cases args with
  | nil => rfl
  | cons agentName _ => exact acts_selectAgent agentName

theorem acts_workflowCommand (args : List String) :
    acts (workflowCommand h args).1 = decide (2 ≤ args.length ∧ args[0]? = some "run") := by
  unfold workflowCommand
  split
  · rename_i hrun
    rw [acts_automationOf, decide_eq_true hrun]
  · rename_i hrun
    rw [acts_nil, decide_eq_false hrun]

theorem acts_triggerCommand (args : List String) :
    acts (triggerCommand h args).1 = decide (4 ≤ args.length ∧ args[0]? = some "add" ∨
      2 ≤ args.length ∧ args[0]? = some "del") := by
  unfold triggerCommand
  split
  · rename_i hadd
    rw [acts_automationOf, decide_eq_true (Or.inl hadd)]
  · split
    · rename_i hdel
      rw [acts_automationOf, decide_eq_true (Or.inr hdel)]
    · rename_i hadd hdel
      rw [acts_nil, decide_eq_false (not_or.2 ⟨hadd, hdel⟩)]

theorem acts_scheduleCommand (args : List String) :
    acts (scheduleCommand h args).1 = args.head?.any ["add", "del", "run"].contains := by
  cases args with
  | nil => rfl
  | cons action rest =>
    rw [scheduleCommand, List.head?_cons, Option.any_some]
    split
    · rename_i haction
      rw [acts_automationOf, haction]
    · rename_i haction
      rw [acts_nil, Bool.eq_false_of_not_eq_true haction]

theorem acts_approvalCommand (approve : Bool) (usage : String) (args : List String) :
    acts (approvalCommand h approve usage args).1 = !args.isEmpty := by
  cases args with
  | nil => rfl
  | cons idPrefix _ => rfl

theorem hasEffect_setModel (args : List String) :
    (AgentOp.setModel (args.head?.getD "")).hasEffect = args.head?.any (· ≠ "") := by
  cases args with
  | nil => rfl
  | cons model _ => rfl

/-- A command has an effect just when `commandActs` says so. -/
theorem acts_handleCommand (name : String) (args : List String) :
    acts (handleCommand h router m.sender name args).1 = commandActs h router m name args := by
  unfold handleCommand commandActs
  split
  -- `agent`, `model`, `workflow`, `trigger`, `schedule`, `approve` and `reject` look at what is
  -- behind the name
  case h_5 => exact acts_agentCommand args
  case h_8 => exact (acts_onCurrentAgent _).trans (congrArg _ (hasEffect_setModel args))
  case h_16 => exact acts_workflowCommand args
  case h_18 => exact acts_triggerCommand args
  case h_20 => exact acts_scheduleCommand args
  case h_22 => exact acts_approvalCommand true _ args
  case h_23 => exact acts_approvalCommand false _ args
  all_goals first | rfl | simp [acts_onCurrentAgent, AgentOp.hasEffect]

/-! ### What is in front of the authorization -/

theorem acts_dispatchCallback (data callbackId : String) :
    acts (dispatchCallback h m data callbackId) = callbackActs data := by
  unfold dispatchCallback callbackActs
  cases Text.stripStart "approve:" data with
  | some idPrefix => rfl
  | none => cases Text.stripStart "reject:" data <;> rfl

theorem acts_dispatchCommand (name : String) (args : List String) :
    acts (dispatchCommand h router m name args) = commandActs h router m name args := by
  rw [dispatchCommand, acts_append, acts_handleCommand, acts_cons_respond, acts_nil, Bool.or_false]

theorem acts_dispatchApprovals : acts (dispatchApprovals h m) = false := by
  have hbuttons (ds : List (String × String × String × String)) :
      acts (ds.map fun d => Event.sentButtons (d.2.2.2 ++ " " ++ d.1) ("approve:" ++ d.2.1)
        ("reject:" ++ d.2.1)) = false := by
    induction ds with
    | nil => rfl
    | cons d ds ih => exact ih
  unfold dispatchApprovals
  split
  · rfl
  · exact hbuttons _

theorem acts_spawnFallback (names : List String) :
    acts (spawnFallback h names).1 = !names.isEmpty := by
  cases names with
  | nil => rfl
  | cons name names =>
    unfold spawnFallback
    cases h.spawnAgentByName name <;> rfl

theorem firstByName_eq_none_iff {agents : List (AgentId × String)} :
    firstByName agents = none ↔ agents = [] := by
  rw [firstByName, List.head?_eq_none_iff, ← List.length_eq_zero_iff, List.length_mergeSort,
    List.length_eq_zero_iff]

/-- The fallback is spawned just when no agent runs. -/
theorem acts_resolveFallbackAgent :
    acts (resolveFallbackAgent h).1 = (h.listAgents.toOption.getD []).isEmpty := by
  unfold resolveFallbackAgent
  cases hlist : h.listAgents.toOption with
  | none => simp [acts_spawnFallback, KernelOp.hasEffect, fallbackAgentNames]
  | some agents =>
    rw [Option.bind_some, Option.getD_some]
    cases hfirst : firstByName agents with
    | none =>
      rw [firstByName_eq_none_iff.1 hfirst]
      simp [acts_spawnFallback, KernelOp.hasEffect, fallbackAgentNames]
    | some agent =>
      have hne : agents ≠ [] := by
        intro hnil
        rw [firstByName_eq_none_iff.2 hnil] at hfirst
        cases hfirst
      simp [KernelOp.hasEffect, hne]

/-! ### What is behind it -/

/-- A message to an agent has an effect only for an authorized sender. -/
theorem authorized_of_dispatchToAgent {agentId : AgentId} {text : String}
    (hacts : acts (dispatchToAgent h adapter m agentId text) = true) :
    authorization h m = .ok () := by
  unfold dispatchToAgent at hacts
  cases hauth : authorization h m with
  | ok _ => rfl
  | error denied =>
    rw [hauth] at hacts
    cases hacts

theorem authorized_of_dispatchBroadcast {text : String}
    (hacts : acts (dispatchBroadcast h router m text) = true) : authorization h m = .ok () := by
  unfold dispatchBroadcast at hacts
  cases hauth : authorization h m with
  | ok _ => rfl
  | error denied =>
    rw [hauth] at hacts
    cases hacts

/-! ### A whole dispatch -/

theorem acts_dispatchRouted {text : String} (hspawns : fallbackSpawns h router m = true) :
    acts (dispatchRouted h router adapter m text) = true := by
  simp only [fallbackSpawns, Bool.and_eq_true, Bool.not_eq_true', Option.isNone_iff_eq_none]
    at hspawns
  obtain ⟨⟨hbroadcast, hrouted⟩, hlist⟩ := hspawns
  rw [dispatchRouted, if_neg (by rw [hbroadcast]; exact Bool.false_ne_true), hrouted]
  dsimp only
  rw [acts_append, acts_resolveFallbackAgent, hlist, Bool.true_or]

/-- A text that is no command has an effect when a fallback is spawned for it, or for an authorized
sender. -/
theorem of_acts_dispatchRouted {text : String}
    (hacts : acts (dispatchRouted h router adapter m text) = true) :
    fallbackSpawns h router m = true ∨ authorization h m = .ok () := by
  unfold dispatchRouted at hacts
  split at hacts
  · exact Or.inr (authorized_of_dispatchBroadcast hacts)
  · rename_i hbroadcast
    cases hrouted : routed router m with
    | some agentId =>
      rw [hrouted] at hacts
      exact Or.inr (authorized_of_dispatchToAgent hacts)
    | none =>
      rw [hrouted] at hacts
      dsimp only at hacts
      rw [acts_append, acts_resolveFallbackAgent, Bool.or_eq_true] at hacts
      -- no agent is routed: the effect is the spawning of the fallback, or what the fallback does
      rcases hacts with hlist | hacts
      · left
        simp [fallbackSpawns, hbroadcast, hrouted, hlist]
      · right
        cases hfallback : (resolveFallbackAgent h).2 with
        | ok agentId =>
          rw [hfallback] at hacts
          have hagent : acts (dispatchToAgent h adapter m agentId text) = true := hacts
          exact authorized_of_dispatchToAgent hagent
        | error msg =>
          rw [hfallback] at hacts
          cases hacts

theorem textBypasses_approvals : textBypasses h router m "/approvals" = false := by
  have hcommand : slashCommand "/approvals" = some ("approvals", []) := by decide
  rw [textBypasses, hcommand]
  rfl

theorem acts_dispatchText {text : String} (hbypasses : textBypasses h router m text = true) :
    acts (dispatchText h router adapter m text) = true := by
  unfold dispatchText
  split
  · rename_i htext
    rw [htext, textBypasses_approvals] at hbypasses
    cases hbypasses
  · unfold textBypasses at hbypasses
    cases hcommand : slashCommand text with
    | some command =>
      rw [hcommand] at hbypasses
      exact (acts_dispatchCommand _ _).trans hbypasses
    | none =>
      rw [hcommand] at hbypasses
      exact acts_dispatchRouted hbypasses

theorem of_acts_dispatchText {text : String}
    (hacts : acts (dispatchText h router adapter m text) = true) :
    textBypasses h router m text = true ∨ authorization h m = .ok () := by
  unfold dispatchText at hacts
  split at hacts
  · rw [acts_dispatchApprovals] at hacts
    cases hacts
  · unfold textBypasses
    cases hcommand : slashCommand text with
    | some command =>
      rw [hcommand] at hacts
      exact Or.inl ((acts_dispatchCommand _ _).symm.trans hacts)
    | none =>
      rw [hcommand] at hacts
      exact of_acts_dispatchRouted hacts

theorem acts_describeMedia (mediaType localPath : String) :
    acts (describeMedia h m mediaType localPath).1 = false := by
  unfold describeMedia
  dsimp only
  split
  · rfl
  · split <;> rfl

/-- A media message has the effects of the text that it becomes. -/
theorem acts_dispatchMedia : acts (dispatchMedia h router adapter m) =
    (mediaText h adapter m).any fun text => acts (dispatchText h router adapter m text) := by
  unfold dispatchMedia mediaText
  dsimp only
  split
  · rfl
  · cases adapter.downloadFile ((m.metadataStr "file_id").getD "")
      (extensionOf ((m.metadataStr "media_type").getD "file")) with
    | error e => rfl
    | ok localPath =>
      show acts (_ ++ _) = _
      rw [acts_append, acts_describeMedia, Bool.false_or]
      rfl

theorem acts_dispatchContent (hbypasses : bypasses h router adapter m = true) :
    acts (dispatchContent h router adapter m) = true := by
  have hmedia (hany : (mediaText h adapter m).any (textBypasses h router m) = true) :
      acts (dispatchMedia h router adapter m) = true := by
    obtain ⟨text, htext, hbypasses⟩ := (Option.any_eq_true _ _).1 hany
    rw [acts_dispatchMedia, htext]
    exact acts_dispatchText hbypasses
  unfold bypasses at hbypasses
  unfold dispatchContent
  cases hcontent : m.content <;> rw [hcontent] at hbypasses
  case text => exact acts_dispatchText hbypasses
  case image => exact hmedia hbypasses
  case file => exact hmedia hbypasses
  case voice => exact hmedia hbypasses
  case location => exact acts_dispatchText hbypasses
  case command => exact (acts_dispatchCommand _ _).trans hbypasses
  case callbackQuery => exact (acts_dispatchCallback _ _).trans hbypasses

/-- An effect that no authorization has been asked for is one of a message that bypasses it, and no
other message with an effect is the press of a button. -/
theorem of_acts_dispatchContent (hacts : acts (dispatchContent h router adapter m) = true) :
    bypasses h router adapter m = true ∨
      authorization h m = .ok () ∧ m.content.isCallback = false := by
  have hmedia (hacts : acts (dispatchMedia h router adapter m) = true) :
      (mediaText h adapter m).any (textBypasses h router m) = true ∨
        authorization h m = .ok () := by
    rw [acts_dispatchMedia] at hacts
    obtain ⟨text, htext, hacts⟩ := (Option.any_eq_true _ _).1 hacts
    rw [htext]
    exact of_acts_dispatchText hacts
  unfold dispatchContent at hacts
  unfold bypasses
  cases hcontent : m.content <;> rw [hcontent] at hacts
  case text => exact (of_acts_dispatchText hacts).imp_right fun hok => ⟨hok, rfl⟩
  case image => exact (hmedia hacts).imp_right fun hok => ⟨hok, rfl⟩
  case file => exact (hmedia hacts).imp_right fun hok => ⟨hok, rfl⟩
  case voice => exact (hmedia hacts).imp_right fun hok => ⟨hok, rfl⟩
  case location => exact (of_acts_dispatchText hacts).imp_right fun hok => ⟨hok, rfl⟩
  case command => exact Or.inl ((acts_dispatchCommand _ _).symm.trans hacts)
  case callbackQuery => exact Or.inl ((acts_dispatchCallback _ _).symm.trans hacts)

theorem acts_rateLimit (limiter : RateLimiter) (now : ℕ) :
    acts (rateLimit h m limiter now).2 = false := by
  unfold rateLimit RateLimiter.check
  cases overridesOf h m with
  | none => rfl
  | some ov =>
    dsimp only
    split_ifs <;> rfl

/-- A dispatch has an effect when the policy for the message's own kind of chat and the rate limit
let it through and its content has one. -/
theorem acts_dispatchMessage_iff {limiter : RateLimiter} {now : ℕ} :
    acts (dispatchMessage h router adapter m limiter now) = true ↔
      admits h m m.isGroup = true ∧ (rateLimit h m limiter now).1 = .ok () ∧
        acts (dispatchContent h router adapter m) = true := by
  unfold dispatchMessage
  split
  · rename_i hadmits
    rw [acts_append, acts_rateLimit, Bool.false_or]
    cases (rateLimit h m limiter now).1 with
    | ok _ => simp [hadmits]
    | error msg => simp
  · rename_i hadmits
    simp [hadmits]

variable {coordinate : Json → String} {limiter : RateLimiter} {now : ℕ}

/-- Every effect of an update is behind both gates just when this is so of the messages that bypass
the authorization: a button that decides on an approval, a command with an effect, or a message for
which a fallback agent is spawned.  They need a chat whose policy lets them through and a sender who
would be authorized. -/
theorem mediated_iff {u : Update} :
    Mediated h router adapter coordinate limiter now u ↔
      ∀ m, u.message? coordinate = some m → admits h m m.isGroup = true →
        (rateLimit h m limiter now).1 = .ok () → bypasses h router adapter m = true →
          admits h m u.fromGroup = true ∧ authorization h m = .ok () := by
  constructor
  · intro hmediated m hm hadmits hrate hbypasses
    have hacts : acts (dispatchMessage h router adapter m limiter now) = true :=
      acts_dispatchMessage_iff.2 ⟨hadmits, hrate, acts_dispatchContent hbypasses⟩
    obtain ⟨op, hop, heffect⟩ := acts_iff.1 hacts
    exact hmediated m hm op hop heffect
  · intro hcond m hm op hop heffect
    obtain ⟨hadmits, hrate, hacts⟩ := acts_dispatchMessage_iff.1 (acts_iff.2 ⟨op, hop, heffect⟩)
    rcases of_acts_dispatchContent hacts with hbypasses | ⟨hok, hcallback⟩
    · exact hcond m hm hadmits hrate hbypasses
    -- but for the press of a button, the message knows what chat it comes from
    · rw [← Update.isGroup_eq hm hcallback]
      exact ⟨hadmits, hok⟩

/-- A kernel with one user, known on Telegram, that ignores the groups there. -/
def guarded : Handle where
  overrides := fun
    | "telegram" => some { groupPolicy := .ignore }
    | _ => none
  auth := AuthManager.new id [{ name := "ada", channelBindings := [("telegram", "7")] }]
  report := fun _ => ""
  onAgent := fun _ _ => .ok ""
  automate := fun _ => "Approved."
  listAgents := .ok [(1, "assistant")]
  findAgentByName := fun _ => .ok (some 1)
  spawnAgentByName := fun _ => .error "Agent already exists"
  listApprovalDetails := []
  transcribeAudio := fun _ => .error "no provider"
  describeImage := fun _ => .error "no provider"
  checkAutoReply := fun _ _ => none
  sendMessage := fun _ _ => .ok ""

/-- A button pressed by a stranger in a group. -/
def pressed : Json :=
  .object [("callback_query", .object
    [("id", .string "c1"), ("from", .object [("id", .number "9")]),
      ("data", .string "approve:ab12"),
      ("message", .object [("message_id", .number "3"),
        ("chat", .object [("id", .number "-5"), ("type", .string "supergroup")])])])]

/-- The approval is decided. -/
theorem not_mediated_pressed : guarded.auth.isEnabled = true ∧
    ¬ Mediated guarded {} ⟨"telegram", true, fun _ _ => .error "", .ok ()⟩ (fun _ => "") [] 0
      (.telegram pressed []) := by
  refine ⟨by decide, fun hmediated => ?_⟩
  have hparse : (Update.telegram pressed []).message? (fun _ => "") = some
      { channel := .telegram, platformMessageId := "3",
        sender := { platformId := "-5", displayName := "Unknown" },
        content := .callbackQuery "approve:ab12" "c1", isGroup := false } := by rfl
  have := hmediated _ hparse (.automate (.resolveApproval "ab12" true)) (by decide) rfl
  exact absurd this.1 (by decide)

end Bridge
end RustyHand
