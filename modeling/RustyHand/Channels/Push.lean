import RustyHand.Types.Json
import RustyHand.Types.Text

/-!
# Pushed messages

What an agent has to say without being asked goes to the chat that has last talked to it: its
approval requests (`start_approval_notifier` of `rusty-hand-channels/src/bridge.rs`) and its
autonomous responses (`rusty-hand-api/src/channel_bridge.rs`).  The router has recorded the channel
and the id of the chat; both paths look at the id alone, and try one adapter after another until one
reports success.  What the platforms reply is a parameter.

* `Post`, `Reply`, `Sent`: requests to the platforms, and what a call of an adapter makes of them;
* `send`, `sendWithButtons`: the calls of the three adapters;
* `push`: the adapters tried in turn;
* `PushedHome`: all posts are made by the adapter of the recorded channel, to the recorded id;
* `pushedHome_iff`.
-/

namespace RustyHand
namespace Push

open Text (byteLength takeBytes containsText)

/-! ### Posts -/

/-- The adapters that there are, in the order in which the bridge starts them. -/
inductive PushAdapter
  | telegram
  | discord
  | slack
  deriving DecidableEq

/-- The chat that a post goes to. -/
inductive Target
  | chatId (id : ℤ)
  | channelId (id : String)

/-- `InlineButton`. -/
structure InlineButton where
  text : String
  callbackData : String

/-- A request that posts a message. -/
structure Post where
  adapter : PushAdapter
  target : Target
  text : String
  markdown : Bool := false
  buttons : List (List InlineButton) := []

/-- What comes of a request: an answer has a body, which may be JSON. -/
inductive Reply
  | transportError
  | answered (success : Bool) (body : String) (json : Option Json)

/-- A call of an adapter: the posts that it makes, and whether it returns `Ok`. -/
structure Sent where
  posts : List Post
  ok : Bool

/-- The characters without a line break in front. -/
def stripNewline : List Char → List Char
  | '\r' :: '\n' :: rest => rest
  | '\n' :: rest => rest
  | rest => rest

/-- The characters before the last line break, or all. -/
def beforeLastNewline (chars : List Char) : List Char :=
  if '\n' ∈ chars then ((chars.reverse.dropWhile (· ≠ '\n')).drop 1).reverse else chars

/-- The loop of `split_message`.  Every round takes a character, as no limit is below four bytes. -/
def splitLoop (maxLen : ℕ) : ℕ → List Char → List String
  | 0, _ => []
  | fuel + 1, remaining =>
    if remaining = [] then []
    else if byteLength remaining ≤ maxLen then [String.ofList remaining]
    else
      let chunk := beforeLastNewline (takeBytes maxLen remaining)
      String.ofList chunk :: splitLoop maxLen fuel (stripNewline (remaining.drop chunk.length))

/-- `split_message`. -/
def splitMessage (text : String) (maxLen : ℕ) : List String :=
  if text.utf8ByteSize ≤ maxLen then [text]
  else splitLoop maxLen (text.toList.length + 1) text.toList

/-- `parse::<i64>()`. -/
def parseI64 (s : String) : Option ℤ :=
  match s.toList with
  | '-' :: digits => ((Json.decimal digits).filter (· ≤ 2 ^ 63)).map fun n => -(n : ℤ)
  | '+' :: digits => ((Json.decimal digits).filter (· < 2 ^ 63)).map Int.ofNat
  | digits => ((Json.decimal digits).filter (· < 2 ^ 63)).map Int.ofNat

/-- The chat that an adapter takes an id for. -/
def PushAdapter.targetOf : PushAdapter → String → Option Target
  | telegram, id => (parseI64 id).map .chatId
  | discord, id => some (.channelId id)
  | slack, id => some (.channelId id)

/-! ### The adapters -/

section Adapters

-- the reply to the `n`-th post of a push
variable (api : ℕ → Post → Reply)

/-- Does Telegram complain of the Markdown? -/
def cannotParse (description : String) : Bool := containsText description "can't parse entities"

/-- The loop of `api_send_message_reply` of Telegram.  Only a transport error of a first attempt is
an error; a refusal is logged. -/
def telegramChunks (target : Target) (n : ℕ) : List String → Sent
  | [] => ⟨[], true⟩
  | chunk :: chunks =>
    let post : Post := { adapter := .telegram, target, text := chunk, markdown := true }
    match api n post with
    | .transportError => ⟨[post], false⟩
    | .answered success body _ =>
      if !success && cannotParse body then
        -- once more as plain text, whatever comes of it
        let plain := { post with markdown := false }
        let rest := telegramChunks target (n + 2) chunks
        ⟨post :: plain :: rest.posts, rest.ok⟩
      else
        let rest := telegramChunks target (n + 1) chunks
        ⟨post :: rest.posts, rest.ok⟩

/-- The loops of `api_send_message` of Discord and Slack: a chunk that is not accepted is an
error. -/
def postChunks (adapter : PushAdapter) (accepts : Reply → Bool) (target : Target) (n : ℕ) :
    List String → Sent
  | [] => ⟨[], true⟩
  | chunk :: chunks =>
    let post : Post := { adapter, target, text := chunk }
    if accepts (api n post) then
      let rest := postChunks adapter accepts target (n + 1) chunks
      ⟨post :: rest.posts, rest.ok⟩
    else ⟨[post], false⟩

/-- A status of success. -/
def discordAccepts : Reply → Bool
  | .answered success _ _ => success
  | .transportError => false

/-- JSON with `ok` true, whatever the status. -/
def slackAccepts : Reply → Bool
  | .answered _ _ (some json) => (json.index "ok").asBool = some true
  | _ => false

/-- `send` of the three adapters, for a text. -/
def send (adapter : PushAdapter) (n : ℕ) (platformId text : String) : Sent :=
  match adapter.targetOf platformId with
  | none => ⟨[], false⟩
  | some target =>
    match adapter with
    | .telegram => telegramChunks api target n (splitMessage text 4096)
    | .discord => postChunks api .discord discordAccepts target n (splitMessage text 2000)
    | .slack => postChunks api .slack slackAccepts target n (splitMessage text 3000)

/-- Has Telegram taken the message? -/
def telegramTakes (success : Bool) (json : Json) : Bool :=
  success && (json.index "ok").asBool = some true

/-- The id of the message that Telegram has made. -/
def messageId (json : Json) : Option ℤ := ((json.index "result").index "message_id").asI64

/-- `api_send_message_with_keyboard` of Telegram. -/
def telegramKeyboard (target : Target) (n : ℕ) (text : String)
    (buttons : List (List InlineButton)) : Sent :=
  let post : Post := { adapter := .telegram, target, text, markdown := true, buttons }
  match api n post with
  | .transportError => ⟨[post], false⟩
  | .answered success body json =>
    let parsed := json.getD .null
    if telegramTakes success parsed then ⟨[post], (messageId parsed).isSome⟩
    else if cannotParse ((parsed.index "description").asStr.getD body) then
      let plain := { post with markdown := false }
      match api (n + 1) plain with
      | .transportError => ⟨[post, plain], false⟩
      | .answered success _ json =>
        let parsed := json.getD .null
        ⟨[post, plain], telegramTakes success parsed && (messageId parsed).isSome⟩
    else ⟨[post], false⟩

/-- `send_with_buttons`: Discord and Slack have no buttons, and send the text. -/
def sendWithButtons (adapter : PushAdapter) (n : ℕ) (platformId text : String)
    (buttons : List (List InlineButton)) : Sent :=
  match adapter with
  | .telegram =>
    match adapter.targetOf platformId with
    | none => ⟨[], false⟩
    | some target => telegramKeyboard api target n text buttons
  | adapter => send api adapter n platformId text

/-! ### The two paths -/

/-- `ApprovalNotification`. -/
structure ApprovalNotification where
  agentId : String
  idPrefix : String
  summary : String
  riskEmoji : String
  timeoutSecs : ℕ

/-- What is pushed. -/
inductive Pushed
  | approval (notif : ApprovalNotification)
  | autonomous (response : String)

/-- The text of an approval request. -/
def ApprovalNotification.text (notif : ApprovalNotification) : String :=
  notif.riskEmoji ++ " Agent **" ++ notif.agentId ++ "** wants to execute:\n`" ++ notif.summary ++
    "`\n⏱️ " ++ toString notif.timeoutSecs ++ "s timeout"

/-- The buttons of an approval request. -/
def ApprovalNotification.buttons (notif : ApprovalNotification) : List (List InlineButton) :=
  [[⟨"✅ Approve", "approve:" ++ notif.idPrefix⟩, ⟨"❌ Reject", "reject:" ++ notif.idPrefix⟩]]

/-- What is pushed through one adapter. -/
def deliver (pushed : Pushed) (platformId : String) (adapter : PushAdapter) (n : ℕ) : Sent :=
  match pushed with
  | .approval notif => sendWithButtons api adapter n platformId notif.text notif.buttons
  | .autonomous response => send api adapter n platformId response

/-- The adapters tried in turn, until one reports success: the posts made. -/
def pushTo (pushed : Pushed) (platformId : String) (n : ℕ) : List PushAdapter → List Post
  | [] => []
  | adapter :: adapters =>
    let sent := deliver api pushed platformId adapter n
    if sent.ok then sent.posts
    else sent.posts ++ pushTo pushed platformId (n + sent.posts.length) adapters

/-- The adapters that have been started, in the order of the start. -/
def startedAdapters (running : PushAdapter → Bool) : List PushAdapter :=
  [PushAdapter.telegram, .discord, .slack].filter running

/-- A push to the last sender of an agent, of whose channel it makes nothing. -/
def push (running : PushAdapter → Bool) (pushed : Pushed) (lastSender : PushAdapter × String) :
    List Post :=
  pushTo api pushed lastSender.2 0 (startedAdapters running)

end Adapters

/-! ### Where the posts go -/

/-- All posts are made by the adapter of the recorded channel to the recorded id, and there are
some. -/
def PushedHome (posts : List Post) (lastSender : PushAdapter × String) : Prop :=
  posts ≠ [] ∧ ∀ post ∈ posts, post.adapter = lastSender.1 ∧
    some post.target = lastSender.1.targetOf lastSender.2

/-- The adapter of the channel runs, and takes the id for a chat; no adapter that is tried before it
takes the id for a chat of its own; and it reports success, or none that is tried after it takes the
id for a chat. -/
def OnlyHome (api : ℕ → Post → Reply) (running : PushAdapter → Bool) (pushed : Pushed)
    (lastSender : PushAdapter × String) : Prop :=
  ∃ before after, startedAdapters running = before ++ lastSender.1 :: after ∧
    (lastSender.1.targetOf lastSender.2).isSome ∧
    (∀ adapter ∈ before, adapter.targetOf lastSender.2 = none) ∧
    ((deliver api pushed lastSender.2 lastSender.1 0).ok = true ∨
      ∀ adapter ∈ after, adapter.targetOf lastSender.2 = none)

/-- A call of an adapter that takes the id for a chat posts to that chat. -/
structure Sent.PostsTo (sent : Sent) (adapter : PushAdapter) (target : Target) : Prop where
  some : sent.posts ≠ []
  all : ∀ post ∈ sent.posts, post.adapter = adapter ∧ post.target = target

variable {api : ℕ → Post → Reply} {adapter : PushAdapter} {target : Target} {n : ℕ}
  {pushed : Pushed} {platformId text : String}

theorem splitMessage_ne_nil (maxLen : ℕ) : splitMessage text maxLen ≠ [] := by
  unfold splitMessage
  split
  · simp
  · rename_i hlong
    unfold splitLoop
    split
    · rename_i hempty
      have htext : text = "" := String.toList_eq_nil_iff.1 hempty
      exact absurd (htext ▸ Nat.zero_le maxLen) hlong
    · split <;> simp

theorem telegramChunks_all (chunks : List String) :
    ∀ post ∈ (telegramChunks api target n chunks).posts,
      post.adapter = .telegram ∧ post.target = target := by
  induction chunks generalizing n with
  | nil => simp [telegramChunks]
  | cons chunk chunks ih =>
    rw [telegramChunks]
    dsimp only
    split
    · simp
    · split
      · simpa using ih
      · simpa using ih

theorem postChunks_all {accepts : Reply → Bool} (chunks : List String) :
    ∀ post ∈ (postChunks api adapter accepts target n chunks).posts,
      post.adapter = adapter ∧ post.target = target := by
  induction chunks generalizing n with
  | nil => simp [postChunks]
  | cons chunk chunks ih =>
    rw [postChunks]
    dsimp only
    split
    · simpa using ih
    · simp

theorem telegramChunks_some {chunks : List String} (hchunks : chunks ≠ []) :
    (telegramChunks api target n chunks).posts ≠ [] := by
  cases chunks with
  | nil => exact absurd rfl hchunks
  | cons chunk chunks =>
    rw [telegramChunks]
    dsimp only
    split
    · simp
    · split <;> simp

theorem postChunks_some {accepts : Reply → Bool} {chunks : List String} (hchunks : chunks ≠ []) :
    (postChunks api adapter accepts target n chunks).posts ≠ [] := by
  cases chunks with
  | nil => exact absurd rfl hchunks
  | cons chunk chunks =>
    rw [postChunks]
    dsimp only
    split <;> simp

theorem postsTo_send (htarget : adapter.targetOf platformId = some target) :
    (send api adapter n platformId text).PostsTo adapter target := by
  unfold send
  rw [htarget]
  cases adapter with
  | telegram => exact ⟨telegramChunks_some (splitMessage_ne_nil _), telegramChunks_all _⟩
  | discord => exact ⟨postChunks_some (splitMessage_ne_nil _), postChunks_all _⟩
  | slack => exact ⟨postChunks_some (splitMessage_ne_nil _), postChunks_all _⟩

theorem postsTo_telegramKeyboard {buttons : List (List InlineButton)} :
    (telegramKeyboard api target n text buttons).PostsTo .telegram target := by
  unfold telegramKeyboard
  dsimp only
  repeat' split
  all_goals exact ⟨by simp, by simp⟩

/-- An adapter that takes the id for a chat posts there. -/
theorem postsTo_deliver (api : ℕ → Post → Reply) (pushed : Pushed) (n : ℕ)
    (htarget : adapter.targetOf platformId = some target) :
    (deliver api pushed platformId adapter n).PostsTo adapter target := by
  cases pushed with
  | autonomous response => exact postsTo_send htarget
  | approval notif =>
    cases adapter with
    | telegram =>
      rw [deliver, sendWithButtons, htarget]
      exact postsTo_telegramKeyboard
    | discord => exact postsTo_send htarget
    | slack => exact postsTo_send htarget

/-- One that does not, posts nothing and reports an error. -/
theorem deliver_of_none (htarget : adapter.targetOf platformId = none) :
    deliver api pushed platformId adapter n = ⟨[], false⟩ := by
  cases pushed with
  | autonomous response => rw [deliver, send, htarget]
  | approval notif =>
    cases adapter with
    | telegram =>
      rw [deliver, sendWithButtons, htarget]
    | discord => cases htarget
    | slack => cases htarget

/-! ### One adapter after another -/

theorem pushTo_cons (adapters : List PushAdapter) :
    pushTo api pushed platformId n (adapter :: adapters) =
      if (deliver api pushed platformId adapter n).ok then
        (deliver api pushed platformId adapter n).posts
      else (deliver api pushed platformId adapter n).posts ++ pushTo api pushed platformId
        (n + (deliver api pushed platformId adapter n).posts.length) adapters := rfl

theorem pushTo_cons_of_none {adapters : List PushAdapter}
    (htarget : adapter.targetOf platformId = none) :
    pushTo api pushed platformId n (adapter :: adapters) =
      pushTo api pushed platformId n adapters := by
  rw [pushTo_cons, deliver_of_none htarget]
  rfl

theorem pushTo_append_of_none {before after : List PushAdapter}
    (hbefore : ∀ adapter ∈ before, adapter.targetOf platformId = none) :
    pushTo api pushed platformId n (before ++ after) = pushTo api pushed platformId n after := by
  induction before with
  | nil => rfl
  | cons adapter before ih =>
    rw [List.cons_append, pushTo_cons_of_none (hbefore adapter List.mem_cons_self)]
    exact ih fun adapter hadapter => hbefore adapter (List.mem_cons_of_mem _ hadapter)

theorem mem_pushTo_cons {post : Post} {adapters : List PushAdapter}
    (hpost : post ∈ (deliver api pushed platformId adapter n).posts) :
    post ∈ pushTo api pushed platformId n (adapter :: adapters) := by
  rw [pushTo_cons]
  split
  · exact hpost
  · exact List.mem_append_left _ hpost

/-- Every post is made by an adapter that is tried. -/
theorem adapter_mem_of_mem_pushTo {post : Post} {adapters : List PushAdapter}
    (hpost : post ∈ pushTo api pushed platformId n adapters) : post.adapter ∈ adapters := by
  induction adapters generalizing n with
  | nil => cases hpost
  | cons adapter adapters ih =>
    cases htarget : adapter.targetOf platformId with
    | none =>
      rw [pushTo_cons_of_none htarget] at hpost
      exact List.mem_cons_of_mem _ (ih hpost)
    | some target =>
      have hposts := postsTo_deliver api pushed n htarget
      rw [pushTo_cons] at hpost
      split at hpost
      · rw [(hposts.all post hpost).1]
        exact List.mem_cons_self
      · rcases List.mem_append.1 hpost with hpost | hpost
        · rw [(hposts.all post hpost).1]
          exact List.mem_cons_self
        · exact List.mem_cons_of_mem _ (ih hpost)

/-- Where all posts are those of one adapter, no other that is tried takes the id for a chat. -/
theorem none_of_pushTo {home : PushAdapter} {before after : List PushAdapter}
    (hhome : home ∉ before)
    (hposts : ∀ post ∈ pushTo api pushed platformId n (before ++ after), post.adapter = home) :
    ∀ adapter ∈ before, adapter.targetOf platformId = none := by
  induction before with
  | nil => simp
  | cons adapter before ih =>
    rw [List.mem_cons, not_or] at hhome
    have hnone : adapter.targetOf platformId = none := by
      cases htarget : adapter.targetOf platformId with
      | none => rfl
      | some target =>
        have hsent := postsTo_deliver api pushed n htarget
        obtain ⟨post, hpost⟩ := List.exists_mem_of_ne_nil _ hsent.some
        have hmade := hposts post (mem_pushTo_cons hpost)
        rw [(hsent.all post hpost).1] at hmade
        exact absurd hmade.symm hhome.1
    intro other hother
    rcases List.mem_cons.1 hother with rfl | hother
    · exact hnone
    · rw [List.cons_append, pushTo_cons_of_none hnone] at hposts
      exact ih hhome.2 hposts other hother

theorem nodup_startedAdapters (running : PushAdapter → Bool) :
    (startedAdapters running).Nodup := List.Nodup.filter _ (by decide)

/-- A push goes home, if and only if only the adapter of the recorded channel posts it. -/
theorem pushedHome_iff {running : PushAdapter → Bool} {lastSender : PushAdapter × String} :
    PushedHome (push api running pushed lastSender) lastSender ↔
      OnlyHome api running pushed lastSender := by
  obtain ⟨home, platformId⟩ := lastSender
  unfold PushedHome OnlyHome push
  dsimp only
  have hnodup := nodup_startedAdapters running
  generalize startedAdapters running = adapters at hnodup
  constructor
  · rintro ⟨hsome, hall⟩
    obtain ⟨post, hpost⟩ := List.exists_mem_of_ne_nil _ hsome
    obtain ⟨hadapter, htarget⟩ := hall post hpost
    have hmem : home ∈ adapters := hadapter ▸ adapter_mem_of_mem_pushTo hpost
    obtain ⟨before, after, rfl⟩ := List.append_of_mem hmem
    have hbefore : home ∉ before := fun hhome =>
      (List.nodup_append.1 hnodup).2.2 home hhome home List.mem_cons_self rfl
    have hafter : home ∉ after := (List.nodup_cons.1 (List.nodup_append.1 hnodup).2.1).1
    have hfirst := none_of_pushTo hbefore fun post hpost => (hall post hpost).1
    rw [pushTo_append_of_none hfirst] at hall
    refine ⟨before, after, rfl, by rw [← htarget]; rfl, hfirst, ?_⟩
    by_cases hok : (deliver api pushed platformId home 0).ok = true
    · exact Or.inl hok
    · have hlater : ∀ post ∈ pushTo api pushed platformId
          (0 + (deliver api pushed platformId home 0).posts.length) (after ++ []),
          post.adapter = home := by
        intro post hpost
        rw [List.append_nil] at hpost
        refine (hall post ?_).1
        rw [pushTo_cons, if_neg hok]
        exact List.mem_append_right _ hpost
      exact Or.inr (none_of_pushTo hafter hlater)
  · rintro ⟨before, after, rfl, htarget, hbefore, hlast⟩
    obtain ⟨target, htarget⟩ := Option.isSome_iff_exists.1 htarget
    have hsent := postsTo_deliver api pushed 0 htarget
    have hpush : pushTo api pushed platformId 0 (before ++ home :: after) =
        (deliver api pushed platformId home 0).posts := by
      rw [pushTo_append_of_none hbefore, pushTo_cons]
      split
      · rfl
      · rename_i hok
        have hnone : pushTo api pushed platformId
            (0 + (deliver api pushed platformId home 0).posts.length) (after ++ []) = [] :=
          pushTo_append_of_none (hlast.resolve_left hok)
        rw [List.append_nil] at hnone
        rw [hnone, List.append_nil]
    rw [hpush, htarget]
    exact ⟨hsent.some, fun post hpost =>
      ⟨(hsent.all post hpost).1, congrArg some (hsent.all post hpost).2⟩⟩

/-- An autonomous response for a chat on Discord is posted on Telegram, to the chat with the number
of the Discord channel; Telegram refuses it, and it is posted nowhere else. -/
theorem snowflake_not_pushedHome :
    ¬ ∀ (api : ℕ → Post → Reply) (running : PushAdapter → Bool) (pushed : Pushed)
      (lastSender : PushAdapter × String),
      PushedHome (push api running pushed lastSender) lastSender := by
  intro hall
  have hhome := hall (fun _ _ => .answered false "Bad Request: chat not found" none) (fun _ => true)
    (.autonomous "done") (.discord, "1099511627776")
  have hfirst := hhome.2 _ (List.mem_cons_self (a := _) (l := _))
  exact absurd hfirst.1 (by decide)

end Push
end RustyHand
