import RustyHand.Channels.Types
import RustyHand.Types.Text

/-!
# What the platforms send

`parse_telegram_update` of `rusty-hand-channels/src/telegram.rs`, `parse_discord_message` of
`discord.rs` and `parse_slack_event` of `slack.rs`: how an update of a platform becomes a message of
a channel.  The time of a message is left out, and how a coordinate displays is a parameter.

* `parseTelegramUpdate`, `parseDiscordMessage`, `parseSlackEvent`;
* `Update`: an update with what its adapter knows, its `message?`, and whether the chat that it
  comes from is a group;
* `Update.isGroup_eq`: but for the press of a button, the message says so.
-/

namespace RustyHand

open Text (splitSpace splitWhitespace)

/-- A text with its slashes at the start taken off (`trim_start_matches('/')`). -/
def trimSlashes (s : String) : String := String.ofList (s.toList.dropWhile (· = '/'))

/-- What stands before the first `@` (`split('@').next()`). -/
def beforeAt (s : String) : String := String.ofList (s.toList.takeWhile (· ≠ '@'))

/-- The arguments behind the first space. -/
def argsOf (rest : Option String) : List String := (rest.map splitWhitespace).getD []

/-! ### Telegram -/

namespace Telegram

variable (coordinate : Json → String)

/-- Is the user let in by the list of allowed users? -/
def allowed (allowedUsers : List ℤ) (userId : ℤ) : Bool :=
  allowedUsers.isEmpty || allowedUsers.contains userId

/-- Does an entity mark a command at the start of the text? -/
def isBotCommand (e : Json) : Bool :=
  (e.index "type").asStr = some "bot_command" && (e.index "offset").asI64 = some 0

/-- The content of a text message. -/
def textContent (message : Json) (text : String) : ChannelContent :=
  if ((message.index "entities").asArray.getD []).any isBotCommand then
    let parts := splitSpace text
    .command (beforeAt (trimSlashes parts.1)) (argsOf parts.2)
  else .text text

/-- What a media message keeps for the download. -/
def mediaMetadata (fileId mediaType : String) : List (String × Json) :=
  [("file_id", .string fileId), ("media_type", .string mediaType)]

/-- The content and the metadata of a message: media first, then text. -/
def contentOf (message : Json) (caption : Option String) :
    Option (ChannelContent × List (String × Json)) :=
  match (message.index "photo").asArray with
  | some photos =>
    photos.getLast?.bind fun best =>
    (best.index "file_id").asStr.bind fun fileId =>
      some (.image fileId caption, mediaMetadata fileId "photo")
  | none =>
  match message.get "voice" with
  | some voice =>
    (voice.index "file_id").asStr.bind fun fileId =>
      some (.voice fileId (((voice.index "duration").asU64.getD 0) % 2 ^ 32),
        mediaMetadata fileId "voice")
  | none =>
  match message.get "audio" with
  | some audio =>
    (audio.index "file_id").asStr.bind fun fileId =>
      some (.voice fileId (((audio.index "duration").asU64.getD 0) % 2 ^ 32),
        mediaMetadata fileId "audio")
  | none =>
  match message.get "document" with
  | some document =>
    (document.index "file_id").asStr.bind fun fileId =>
      some (.file fileId ((document.index "file_name").asStr.getD "file"),
        mediaMetadata fileId "document")
  | none =>
  match (message.index "text").asStr with
  | some text => some (textContent message text, [])
  | none =>
  match message.get "sticker" with
  | some sticker =>
    some (.text ("[Sticker: " ++ (sticker.index "emoji").asStr.getD "🎭" ++ " from set \"" ++
      (sticker.index "set_name").asStr.getD "unknown" ++ "\"]"), [])
  | none =>
  match message.get "animation" with
  | some _ =>
    if caption.getD "" = "" then some (.text "[GIF/animation received]", [])
    else some (.text ("[GIF/animation with caption: " ++ caption.getD "" ++ "]"), [])
  | none =>
    (message.get "location").bind fun location =>
      some (.location (coordinate (location.index "latitude"))
              (coordinate (location.index "longitude")),
        [])

/-- The name shown for a user. -/
def displayName (sender : Json) : String :=
  let firstName := (sender.index "first_name").asStr.getD "Unknown"
  let lastName := (sender.index "last_name").asStr.getD ""
  if lastName = "" then firstName else firstName ++ " " ++ lastName

/-- The press of a button: the branch of `parse_telegram_update` for a `callback_query`. -/
def parseCallback (callback : Json) (allowedUsers : List ℤ) : Option ChannelMessage :=
  (callback.get "from").bind fun sender =>
  (sender.index "id").asI64.bind fun userId =>
  if allowed allowedUsers userId then
    (((callback.index "message").index "chat").index "id").asI64.bind fun chatId =>
    (callback.index "id").asStr.bind fun callbackId =>
      some
        { channel := .telegram
          platformMessageId :=
            toString ((((callback.index "message").index "message_id").asI64).getD 0)
          sender :=
            { platformId := toString chatId
              displayName := (sender.index "first_name").asStr.getD "Unknown" }
          content := .callbackQuery ((callback.index "data").asStr.getD "") callbackId
          isGroup := false }
  else none

/-- Is the chat a group, by the type that Telegram gives? -/
def isGroupChat (chat : Json) : Bool :=
  let chatType := (chat.index "type").asStr.getD "private"
  chatType = "group" || chatType = "supergroup"

/-- A message: the rest of `parse_telegram_update`. -/
def parseMessage (message : Json) (allowedUsers : List ℤ) : Option ChannelMessage :=
  (message.get "from").bind fun sender =>
  (sender.index "id").asI64.bind fun userId =>
  if allowed allowedUsers userId then
    ((message.index "chat").index "id").asI64.bind fun chatId =>
    let caption := (message.index "caption").asStr
    (contentOf coordinate message caption).bind fun content =>
      some
        { channel := .telegram
          platformMessageId := toString ((message.index "message_id").asI64.getD 0)
          sender := { platformId := toString chatId, displayName := displayName sender }
          content := content.1
          isGroup := isGroupChat (message.index "chat")
          metadata := content.2 ++ (caption.map fun c => ("caption", Json.string c)).toList }
  else none

/-- The message of an update: a new one, or an edited one. -/
def messageOf (update : Json) : Option Json :=
  (update.get "message").or (update.get "edited_message")

end Telegram

/-- `parse_telegram_update`. -/
def parseTelegramUpdate (coordinate : Json → String) (update : Json) (allowedUsers : List ℤ) :
    Option ChannelMessage :=
  match update.get "callback_query" with
  | some callback => Telegram.parseCallback callback allowedUsers
  | none =>
    (Telegram.messageOf update).bind fun message =>
      Telegram.parseMessage coordinate message allowedUsers

/-! ### Discord and Slack -/

/-- A text that begins with a slash is a command. -/
def slashContent (text : String) : ChannelContent :=
  if startsWithSlash text then
    let parts := splitSpace text
    .command (String.ofList (parts.1.toList.drop 1)) (argsOf parts.2)
  else .text text

/-- `guild_id.parse().unwrap_or(0)`. -/
def parseGuildId (s : String) : ℕ :=
  let digits := if s.toList.head? = some '+' then s.toList.drop 1 else s.toList
  ((Json.decimal digits).filter (· < 2 ^ 64)).getD 0

/-- `parse_discord_message`. -/
def parseDiscordMessage (d : Json) (botUserId : Option String) (allowedGuilds : List ℕ) :
    Option ChannelMessage :=
  (d.get "author").bind fun author =>
  (author.index "id").asStr.bind fun authorId =>
  let guildId := (d.index "guild_id").asStr
  if botUserId = some authorId then none
  else if (author.index "bot").asBool = some true then none
  else if !allowedGuilds.isEmpty && !(guildId.any fun g => allowedGuilds.contains (parseGuildId g))
    then none
  else
    let contentText := (d.index "content").asStr.getD ""
    if contentText = "" then none
    else
      (d.index "channel_id").asStr.bind fun channelId =>
      let username := (author.index "username").asStr.getD "Unknown"
      let discriminator := (author.index "discriminator").asStr.getD "0000"
      some
        { channel := .discord
          platformMessageId := (d.index "id").asStr.getD "0"
          sender :=
            { platformId := channelId
              displayName :=
                if discriminator = "0" then username else username ++ "#" ++ discriminator }
          content := slashContent contentText
          isGroup := guildId.isSome }

namespace Slack

/-- The part of an event that carries the text, and whether it is an edit. -/
def messageData (event : Json) : Option (Json × Bool) :=
  match (event.index "subtype").asStr with
  | some "message_changed" => (event.get "message").map (·, true)
  | some _ => none
  | none => some (event, false)

/-- Is the channel of an event a group: neither typed as a direct one nor named as one? -/
def isGroupChannel (event : Json) : Bool :=
  !((event.index "channel_type").asStr.getD "" = "im" ||
    ((event.index "channel").asStr.getD "").toList.head? = some 'D')

end Slack

/-- `parse_slack_event`. -/
def parseSlackEvent (event : Json) (botUserId : Option String) (allowedChannels : List String) :
    Option ChannelMessage :=
  if (event.index "type").asStr ≠ some "message" then none
  else
    (Slack.messageData event).bind fun msgData =>
    if (msgData.1.get "bot_id").isSome then none
    else
      ((msgData.1.index "user").asStr.or (event.index "user").asStr).bind fun userId =>
      if botUserId = some userId then none
      else
        (event.index "channel").asStr.bind fun channel =>
        if !allowedChannels.isEmpty && !allowedChannels.contains channel then none
        else
          let text := (msgData.1.index "text").asStr.getD ""
          if text = "" then none
          else
            let eventTs := (event.index "ts").asStr.getD "0"
            some
              { channel := .slack
                platformMessageId :=
                  if msgData.2 then (msgData.1.index "ts").asStr.getD eventTs else eventTs
                sender := { platformId := channel, displayName := userId }
                content := slashContent text
                isGroup := Slack.isGroupChannel event }

/-! ### Updates -/

/-- An update of a platform, with what its adapter has been configured with. -/
inductive Update
  | telegram (update : Json) (allowedUsers : List ℤ)
  | discord (d : Json) (botUserId : Option String) (allowedGuilds : List ℕ)
  | slack (event : Json) (botUserId : Option String) (allowedChannels : List String)

namespace Update

variable (coordinate : Json → String)

/-- The message that the adapter makes of an update. -/
def message? : Update → Option ChannelMessage
  | telegram update allowedUsers => parseTelegramUpdate coordinate update allowedUsers
  | discord d botUserId allowedGuilds => parseDiscordMessage d botUserId allowedGuilds
  | slack event botUserId allowedChannels => parseSlackEvent event botUserId allowedChannels

/-- The chat that a Telegram update comes from: that of the message, or for the press of a button
that of the message with the button. -/
def telegramChat (update : Json) : Json :=
  match update.get "callback_query" with
  | some callback => (callback.index "message").index "chat"
  | none => ((Telegram.messageOf update).getD .null).index "chat"

/-- Does the update come from a group? -/
def fromGroup : Update → Bool
  | telegram update _ => Telegram.isGroupChat (telegramChat update)
  | discord d _ _ => (d.index "guild_id").asStr.isSome
  | slack event _ _ => Slack.isGroupChannel event

variable {coordinate : Json → String} {m : ChannelMessage}

/-- The press of a button is taken for a message from a direct chat. -/
theorem isGroup_of_parseCallback {callback : Json} {allowedUsers : List ℤ}
    (h : Telegram.parseCallback callback allowedUsers = some m) :
    m.isGroup = false ∧ m.content.isCallback = true := by
  simp only [Telegram.parseCallback, Option.bind_eq_some_iff, Option.ite_none_right_eq_some,
    Option.some.injEq] at h
  obtain ⟨sender, -, userId, -, -, chatId, -, callbackId, -, rfl⟩ := h
  exact ⟨rfl, rfl⟩

theorem isGroup_of_parseMessage {message : Json} {allowedUsers : List ℤ}
    (h : Telegram.parseMessage coordinate message allowedUsers = some m) :
    m.isGroup = Telegram.isGroupChat (message.index "chat") := by
  simp only [Telegram.parseMessage, Option.bind_eq_some_iff, Option.ite_none_right_eq_some,
    Option.some.injEq] at h
  obtain ⟨sender, -, userId, -, -, chatId, -, content, -, rfl⟩ := h
  rfl

theorem isGroup_of_parseDiscordMessage {d : Json} {botUserId : Option String}
    {allowedGuilds : List ℕ} (h : parseDiscordMessage d botUserId allowedGuilds = some m) :
    m.isGroup = (d.index "guild_id").asStr.isSome := by
  simp only [parseDiscordMessage, Option.bind_eq_some_iff, Option.ite_none_left_eq_some,
    Option.some.injEq] at h
  obtain ⟨author, -, authorId, -, -, -, -, -, channelId, -, rfl⟩ := h
  rfl

theorem isGroup_of_parseSlackEvent {event : Json} {botUserId : Option String}
    {allowedChannels : List String} (h : parseSlackEvent event botUserId allowedChannels = some m) :
    m.isGroup = Slack.isGroupChannel event := by
  simp only [parseSlackEvent, Option.bind_eq_some_iff, Option.ite_none_left_eq_some,
    Option.some.injEq] at h
  obtain ⟨-, msgData, -, -, userId, -, -, channel, -, -, -, rfl⟩ := h
  rfl

/-- But for the press of a button, a message says whether it comes from a group. -/
theorem isGroup_eq {u : Update} (h : u.message? coordinate = some m)
    (hcallback : m.content.isCallback = false) : m.isGroup = u.fromGroup := by
  cases u with
  | telegram update allowedUsers =>
    simp only [message?, parseTelegramUpdate] at h
    simp only [fromGroup, telegramChat]
    cases hquery : update.get "callback_query" with
    | some callback =>
      rw [hquery] at h
      have := (isGroup_of_parseCallback h).2
      rw [hcallback] at this
      cases this
    | none =>
      rw [hquery] at h
      obtain ⟨message, hmessage, hparse⟩ := Option.bind_eq_some_iff.1 h
      rw [isGroup_of_parseMessage hparse, hmessage]
      rfl
  | discord d botUserId allowedGuilds => exact isGroup_of_parseDiscordMessage h
  | slack event botUserId allowedChannels => exact isGroup_of_parseSlackEvent h

end Update

end RustyHand
