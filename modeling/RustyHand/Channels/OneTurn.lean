import RustyHand.Channels.Targets
import RustyHand.Lib.Runs

/-!
# Turns for a message

The adapters of Discord and Slack make a message of an event that creates a message of a user and of
one that updates it, alike (`discord.rs`, `slack.rs` of `rusty-hand-channels`).  The dispatch of a
message checks for an auto-reply first; `check_auto_reply` of `rusty-hand-api/src/channel_bridge.rs`
runs the agent, and when that fails the dispatch runs it once more.

* `AutoReply`, `Received`: what comes of an auto-reply, and an event with all that its dispatch
  reads;
* `turnsFor`: the turns that an event starts, each with the message that it is for;
* `dispatchTurns_eq`: a text starts a turn of every agent that it goes to, and two where an
  auto-reply fails;
* `StartsOne`: a text goes to one agent, once, and no auto-reply fails;
* `nodup_turns_iff`: no message has two turns in a run, if and only if its events start one each.
-/

namespace RustyHand
namespace Bridge

/-! ### Events -/

/-- What comes of an auto-reply: the engine lets the message pass, or it runs the agent. -/
inductive AutoReply
  | passed
  | replied (response : String)
  | failed (error : String)

/-- `check_auto_reply`. -/
def AutoReply.reply : AutoReply → Option String
  | passed => none
  | replied response => some response
  | failed _ => none

/-- Has the agent been run? -/
def AutoReply.fired : AutoReply → Bool
  | passed => false
  | replied _ => true
  | failed _ => true

/-- How often a text that goes to an agent makes it run. -/
def AutoReply.runs : AutoReply → ℕ
  | passed => 1
  | replied _ => 1
  | failed _ => 2

/-- An event of a platform, with all that its dispatch reads. -/
structure Received where
  update : Update
  /-- Does it create a message, or update one?  No adapter asks. -/
  created : Bool
  coordinate : Json → String
  h : Handle
  router : AgentRouter
  adapter : Adapter
  limiter : RateLimiter
  now : ℕ
  autoReply : AgentId → String → AutoReply

/-- A message of a user: its channel, its chat and its id there. -/
abbrev MessageKey := ChannelType × String × String

/-- The user's message that a message is, created or updated. -/
def messageKey (m : ChannelMessage) : MessageKey :=
  (m.channel, m.sender.platformId, m.platformMessageId)

namespace Received

variable (r : Received)

/-- The message that the adapter makes of the event. -/
def message? : Option ChannelMessage := r.update.message? r.coordinate

/-- The handle, with the auto-replies. -/
def handle : Handle :=
  { r.h with checkAutoReply := fun agentId text => (r.autoReply agentId text).reply }

/-- The turns that a call starts. -/
def opTurns : KernelOp → List AgentId
  | .sendMessage agentId _ => [agentId]
  | .checkAutoReply agentId text => if (r.autoReply agentId text).fired then [agentId] else []
  | _ => []

/-- The turns that some events start. -/
def turns (events : List Event) : List AgentId := (calls events).flatMap r.opTurns

/-- The turns that the dispatch of a message starts. -/
def dispatchTurns (m : ChannelMessage) : List AgentId :=
  r.turns (dispatchMessage r.handle r.router r.adapter m r.limiter r.now)

/-- The turns that the event starts, each with the message that it is for. -/
def turnsFor : List MessageKey :=
  match r.message? with
  | some m => (r.dispatchTurns m).map fun _ => messageKey m
  | none => []

end Received

/-- The turns that have been started, when an event has been dispatched. -/
def turnStep (started : List MessageKey) (r : Received) : List MessageKey := started ++ r.turnsFor

/-- Every message is created once, and updated any number of times with the content that it has. -/
def CreatedOnce (events : List Received) : Prop :=
  ∀ before r after, events = before ++ r :: after → ∀ m ∈ r.message?,
    if r.created then ∀ r' ∈ before, ∀ m' ∈ r'.message?, messageKey m' ≠ messageKey m
    else ∃ r' ∈ before, r'.created ∧ ∃ m' ∈ r'.message?,
      messageKey m' = messageKey m ∧ m'.content = m.content

namespace Received

variable (r : Received) (m : ChannelMessage)

/-- A text that is no command. -/
def plainText (text : String) : Option String :=
  if text = "/approvals" then none
  else
    match slashCommand text with
    | some _ => none
    | none => some text

/-- The text of a message that goes to agents, typed or made from media. -/
def contentText : Option String :=
  match m.content with
  | .callbackQuery .. => none
  | .text t => plainText t
  | .command .. => none
  | .image .. => (mediaText r.handle r.adapter m).bind plainText
  | .voice .. => (mediaText r.handle r.adapter m).bind plainText
  | .file .. => (mediaText r.handle r.adapter m).bind plainText
  | .location lat lon =>
    plainText ("[Location shared: " ++ lat ++ ", " ++ lon ++ "](https://maps.google.com/?q=" ++
      lat ++ "," ++ lon ++ ")")

/-- The text of a message that the policies, the rate limit and the authorization let through to
agents. -/
def agentText : Option String :=
  if admits r.handle m m.isGroup = true ∧ (rateLimit r.handle m r.limiter r.now).1.toOption.isSome ∧
      (authorization r.handle m).toOption.isSome then r.contentText m
  else none

/-- The text goes to one agent, the message has had no turn, and no auto-reply to it fails. -/
def StartsOne (started : List MessageKey) (r : Received) : Prop :=
  ∀ m ∈ r.message?, ∀ text ∈ r.agentText m, textTargets r.handle r.router m ≠ [] →
    messageKey m ∉ started ∧ (textTargets r.handle r.router m).length = 1 ∧
      (¬ isBroadcast r.router m → ∀ agentId ∈ textTargets r.handle r.router m,
        ∀ error, r.autoReply agentId text ≠ .failed error)

variable {r m} {agentId : AgentId} {text : String}

/-! ### The turns of a dispatch -/

@[simp] theorem turns_nil : r.turns [] = [] := rfl

@[simp] theorem turns_append (a b : List Event) : r.turns (a ++ b) = r.turns a ++ r.turns b := by
  simp [turns]

@[simp] theorem turns_cons_call (op : KernelOp) (events : List Event) :
    r.turns (.call op :: events) = r.opTurns op ++ r.turns events := rfl

@[simp] theorem turns_cons_respond (h : Handle) (text : String) (replyTo : Option String)
    (events : List Event) : r.turns (respond h m text replyTo :: events) = r.turns events := rfl

theorem turns_of_aside {events : List Event} (haside : Aside events) : r.turns events = [] := by
  have htargets := haside.targets
  rw [targets, List.filterMap_eq_nil_iff] at htargets
  rw [turns, List.flatMap_eq_nil_iff]
  intro op hop
  have := htargets op hop
  cases op <;> first | rfl | cases this

theorem turns_dispatchCommand (name : String) (args : List String) :
    r.turns (dispatchCommand r.handle r.router m name args) = [] := by
  unfold dispatchCommand
  rw [turns_append, turns_cons_respond, turns_nil, List.append_nil]
  by_cases hname : name = "agent"
  · rw [hname]
    cases args with
    | nil => rfl
    | cons agentName rest =>
      change r.turns (selectAgent r.handle m.sender agentName).1 = []
      unfold selectAgent
      repeat' split
      all_goals rfl
  · exact turns_of_aside (aside_handleCommand hname)

/-- An authorized text makes its agent run once, and twice where the auto-reply fails. -/
theorem turns_dispatchToAgent (hauth : authorization r.handle m = .ok ()) :
    r.turns (dispatchToAgent r.handle r.adapter m agentId text) =
      List.replicate (r.autoReply agentId text).runs agentId := by
  have hcheck : r.handle.checkAutoReply agentId text = (r.autoReply agentId text).reply := rfl
  unfold dispatchToAgent
  rw [hauth, hcheck]
  cases hreply : r.autoReply agentId text with
  | replied response =>
    simp [turns, calls, respond, authorizationCall, opTurns, hreply, AutoReply.fired,
      AutoReply.reply, AutoReply.runs]
  | passed =>
    cases turnResult r.handle r.adapter agentId text <;> cases r.adapter.supportsStreaming <;>
      simp [turns, calls, respond, authorizationCall, opTurns, hreply, AutoReply.fired,
        AutoReply.reply, AutoReply.runs]
  | failed error =>
    -- the auto-reply has run the agent, and the text goes to it again
    cases turnResult r.handle r.adapter agentId text <;> cases r.adapter.supportsStreaming <;>
      simp [turns, calls, respond, authorizationCall, opTurns, hreply, AutoReply.fired,
        AutoReply.reply, AutoReply.runs]

/-- A broadcast makes each of its agents run. -/
theorem turns_dispatchBroadcast (hauth : authorization r.handle m = .ok ()) :
    r.turns (dispatchBroadcast r.handle r.router m text) =
      (broadcastTargets r.router m).map Prod.snd := by
  have hcalls (known : List (String × AgentId)) :
      r.turns (known.map fun t => .call (.sendMessage t.2 text)) = known.map Prod.snd := by
    induction known with
    | nil => rfl
    | cons t known ih => simp [opTurns, ih]
  unfold dispatchBroadcast
  rw [hauth]
  change r.turns ((broadcastTargets r.router m).map _ ++ [respond r.handle m _]) = _
  rw [turns_append, hcalls, turns_cons_respond, turns_nil, List.append_nil]

/-- No turn is started for a sender who is not authorized. -/
theorem turns_dispatchToAgent_of_denied {denied : String}
    (hauth : authorization r.handle m = .error denied) :
    r.turns (dispatchToAgent r.handle r.adapter m agentId text) = [] := by
  unfold dispatchToAgent
  rw [hauth]
  rfl

/-- The turns of a text, where its sender is authorized. -/
def textTurns (r : Received) (m : ChannelMessage) (text : String) : List AgentId :=
  if isBroadcast r.router m then textTargets r.handle r.router m
  else (textTargets r.handle r.router m).flatMap fun agentId =>
    List.replicate (r.autoReply agentId text).runs agentId

theorem turns_dispatchRouted (hauth : authorization r.handle m = .ok ()) :
    r.turns (dispatchRouted r.handle r.router r.adapter m text) = r.textTurns m text := by
  unfold dispatchRouted textTurns textTargets
  by_cases hbroadcast : isBroadcast r.router m
  · rw [if_pos hbroadcast, if_pos hbroadcast, if_pos hbroadcast, turns_dispatchBroadcast hauth]
  · rw [if_neg hbroadcast, if_neg hbroadcast, if_neg hbroadcast]
    cases hrouted : routed r.router m with
    | some agentId =>
      dsimp only
      rw [turns_dispatchToAgent hauth, List.flatMap_singleton]
    | none =>
      dsimp only
      rw [turns_append, turns_of_aside aside_resolveFallbackAgent, List.nil_append]
      cases hfallback : (resolveFallbackAgent r.handle).2 with
      | error msg => rfl
      | ok agentId =>
        change r.turns (dispatchToAgent r.handle r.adapter m agentId text) = _
        rw [turns_dispatchToAgent hauth]
        exact (List.flatMap_singleton ..).symm

theorem turns_dispatchRouted_of_denied {denied : String}
    (hauth : authorization r.handle m = .error denied) :
    r.turns (dispatchRouted r.handle r.router r.adapter m text) = [] := by
  unfold dispatchRouted
  split
  · unfold dispatchBroadcast
    rw [hauth]
    rfl
  · cases hrouted : routed r.router m with
    | some agentId => exact turns_dispatchToAgent_of_denied hauth
    | none =>
      dsimp only
      rw [turns_append, turns_of_aside aside_resolveFallbackAgent, List.nil_append]
      cases hfallback : (resolveFallbackAgent r.handle).2 with
      | error msg => rfl
      | ok agentId =>
        change r.turns (dispatchToAgent r.handle r.adapter m agentId text) = _
        exact turns_dispatchToAgent_of_denied hauth

/-! ### A whole dispatch -/

/-- The turns of a message, given the text of it that goes to agents. -/
def turnsOf (r : Received) (m : ChannelMessage) (text? : Option String) : List AgentId :=
  match text? with
  | some text => if (authorization r.handle m).toOption.isSome then r.textTurns m text else []
  | none => []

theorem turns_dispatchText :
    r.turns (dispatchText r.handle r.router r.adapter m text) = r.turnsOf m (plainText text) := by
  unfold dispatchText plainText
  split
  · exact turns_of_aside aside_dispatchApprovals
  · cases slashCommand text with
    | some command => exact turns_dispatchCommand _ _
    | none =>
      cases hauth : authorization r.handle m with
      | ok _ => simp [turnsOf, hauth, Except.toOption, turns_dispatchRouted hauth]
      | error denied => simp [turnsOf, hauth, Except.toOption, turns_dispatchRouted_of_denied hauth]

theorem turns_dispatchMedia : r.turns (dispatchMedia r.handle r.router r.adapter m) =
    r.turnsOf m ((mediaText r.handle r.adapter m).bind plainText) := by
  unfold dispatchMedia mediaText
  dsimp only
  split
  · rfl
  · cases r.adapter.downloadFile ((m.metadataStr "file_id").getD "")
      (extensionOf ((m.metadataStr "media_type").getD "file")) with
    | error e => rfl
    | ok localPath =>
      change r.turns ((describeMedia r.handle m _ localPath).1 ++ _) = _
      rw [turns_append, turns_of_aside (aside_describeMedia _ _), List.nil_append]
      exact turns_dispatchText

theorem turns_dispatchContent : r.turns (dispatchContent r.handle r.router r.adapter m) =
    r.turnsOf m (r.contentText m) := by
  unfold dispatchContent contentText
  cases m.content with
  | text t => exact turns_dispatchText
  | image fileId caption => exact turns_dispatchMedia
  | file fileId filename => exact turns_dispatchMedia
  | voice fileId duration => exact turns_dispatchMedia
  | location lat lon => exact turns_dispatchText
  | command name args => exact turns_dispatchCommand _ _
  | callbackQuery data callbackId => exact turns_of_aside (aside_dispatchCallback _ _)

/-- A dispatch starts the turns of the text that gets through to agents. -/
theorem dispatchTurns_eq :
    r.dispatchTurns m = ((r.agentText m).map (r.textTurns m)).getD [] := by
  unfold dispatchTurns dispatchMessage agentText
  by_cases hadmits : admits r.handle m m.isGroup = true
  · rw [if_pos hadmits]
    dsimp only
    rw [turns_append, turns_of_aside (aside_rateLimit _ _), List.nil_append]
    cases hlimit : (rateLimit r.handle m r.limiter r.now).1 with
    | error msg => simp [Except.toOption]
    | ok _ =>
      dsimp only
      rw [turns_dispatchContent]
      cases hauth : authorization r.handle m with
      | error denied => cases r.contentText m <;> simp [turnsOf, hauth, Except.toOption]
      | ok _ => cases r.contentText m <;> simp [turnsOf, hadmits, hauth, Except.toOption]
  · simp [hadmits]

/-! ### One turn -/

theorem length_textTargets_le (hbroadcast : ¬ isBroadcast r.router m) :
    (textTargets r.handle r.router m).length ≤ 1 := by
  unfold textTargets
  rw [if_neg hbroadcast]
  cases routed r.router m with
  | some agentId => exact le_rfl
  | none => cases (resolveFallbackAgent r.handle).2 <;> simp [Except.toOption]

theorem runs_le_one_iff {reply : AutoReply} :
    reply.runs ≤ 1 ↔ ∀ error, reply ≠ .failed error := by
  cases reply <;> simp [AutoReply.runs]

theorem runs_pos (reply : AutoReply) : 0 < reply.runs := by
  cases reply <;> simp [AutoReply.runs]

/-- A text starts no turn just when it goes nowhere. -/
theorem textTurns_eq_nil_iff : r.textTurns m text = [] ↔ textTargets r.handle r.router m = [] := by
  unfold textTurns
  split
  · exact Iff.rfl
  · rw [List.flatMap_eq_nil_iff]
    constructor
    · intro hnone
      refine List.eq_nil_iff_forall_not_mem.2 fun agentId hagent => ?_
      have hruns := (List.replicate_eq_nil_iff _).1 (hnone agentId hagent)
      exact absurd hruns (runs_pos _).ne'
    · intro hnil agentId hagent
      rw [hnil] at hagent
      cases hagent

/-- A text that goes somewhere starts one turn if it goes to one agent, once. -/
theorem length_textTurns_le_iff (hsome : textTargets r.handle r.router m ≠ []) :
    (r.textTurns m text).length ≤ 1 ↔ (textTargets r.handle r.router m).length = 1 ∧
      (¬ isBroadcast r.router m → ∀ agentId ∈ textTargets r.handle r.router m,
        ∀ error, r.autoReply agentId text ≠ .failed error) := by
  have hpos : 0 < (textTargets r.handle r.router m).length := List.length_pos_iff.2 hsome
  unfold textTurns
  by_cases hbroadcast : isBroadcast r.router m
  · rw [if_pos hbroadcast]
    simp only [hbroadcast, not_true_eq_false, false_implies, and_true]
    omega
  · rw [if_neg hbroadcast]
    have hone : (textTargets r.handle r.router m).length = 1 :=
      le_antisymm (length_textTargets_le hbroadcast) hpos
    obtain ⟨agentId, hagent⟩ := List.length_eq_one_iff.1 hone
    rw [hagent, List.flatMap_singleton, List.length_replicate, runs_le_one_iff]
    simp [hbroadcast]

theorem turnsFor_eq {m : ChannelMessage} (hm : r.message? = some m) :
    r.turnsFor = List.replicate (r.dispatchTurns m).length (messageKey m) := by
  rw [turnsFor, hm]
  exact List.map_const' ..

/-- After an event no message has two turns, if and only if none had before and the event starts
one. -/
theorem nodup_turnStep_iff {started : List MessageKey} (hstarted : started.Nodup) :
    (turnStep started r).Nodup ↔ StartsOne started r := by
  unfold turnStep StartsOne
  cases hm : r.message? with
  | none => simp [turnsFor, hm, hstarted]
  | some m =>
    rw [turnsFor_eq hm, List.nodup_append, List.nodup_replicate, dispatchTurns_eq]
    cases htext : r.agentText m with
    | none => simp [hstarted, htext]
    | some text =>
      simp only [Option.mem_def, Option.some.injEq, forall_eq', htext, Option.map_some,
        Option.getD_some]
      by_cases hnil : textTargets r.handle r.router m = []
      · rw [textTurns_eq_nil_iff.2 hnil]
        simp [hnil, hstarted]
      · have hpos : (r.textTurns m text).length ≠ 0 := by
          rw [Ne, List.length_eq_zero_iff, textTurns_eq_nil_iff]
          exact hnil
        rw [length_textTurns_le_iff hnil]
        simp only [hstarted, true_and, List.mem_replicate, hpos, ne_eq, not_false_eq_true, hnil,
          forall_true_left]
        constructor
        · rintro ⟨hright, hdisjoint⟩
          exact ⟨fun hmem => hdisjoint _ hmem _ rfl rfl, hright⟩
        · rintro ⟨hnew, hright⟩
          refine ⟨hright, ?_⟩
          rintro key hkey _ rfl rfl
          exact hnew hkey

end Received

/-- In a run no message has two turns at any time, if and only if every event whose text gets
through to agents is the first of its message that does, its text goes to one agent, and no
auto-reply to it fails. -/
theorem nodup_turns_iff (events : List Received) :
    (∀ k, (Runs.run turnStep [] (events.take k)).Nodup) ↔
      Runs.Along turnStep Received.StartsOne [] events :=
  Runs.forall_take_iff_along (I := List.Nodup) List.nodup_nil (fun _ h => h)
    (fun _ _ hstarted => (Received.nodup_turnStep_iff hstarted).2)
    (fun _ _ hstarted => (Received.nodup_turnStep_iff hstarted).1)

/-! ### A message with an embed -/

/-- Discord reports a message, and again when the preview of its link has been made. -/
def linked (created : Bool) : Received where
  update := .discord
    (.object [("id", .string "42"), ("channel_id", .string "7"),
      ("author", .object [("id", .string "9"), ("username", .string "ada")]),
      ("content", .string "see https://a.b")]) none []
  created := created
  coordinate := fun _ => ""
  h := { guarded with auth := AuthManager.new id [] }
  router := { defaultAgent := some 1 }
  adapter := ⟨"discord", false, fun _ _ => .error "", .ok ()⟩
  limiter := []
  now := 0
  autoReply := fun _ _ => .passed

theorem createdOnce_linked : CreatedOnce [linked true, linked false] := by
  intro before r after hevents m hm
  cases before with
  | nil =>
    obtain rfl : linked true = r := (List.cons.inj hevents).1
    exact fun r' hr' => absurd hr' List.not_mem_nil
  | cons first before =>
    obtain ⟨rfl, hrest⟩ := List.cons.inj hevents
    cases before with
    | nil =>
      obtain rfl : linked false = r := (List.cons.inj hrest).1
      exact ⟨linked true, List.mem_singleton.2 rfl, rfl, m, hm, rfl, rfl⟩
    | cons second before => cases before <;> cases (List.cons.inj hrest).2

/-- The preview of a link starts a second turn of its message. -/
theorem linked_not_nodup : ¬ ∀ events : List Received, CreatedOnce events →
    ∀ k, (Runs.run turnStep [] (events.take k)).Nodup := by
  intro hall
  have htwice : Runs.run turnStep [] [linked true, linked false] =
      [(.discord, "7", "42"), (.discord, "7", "42")] := rfl
  have hnodup := hall _ createdOnce_linked 2
  exact absurd (htwice ▸ hnodup) (by decide)

end Bridge
end RustyHand
