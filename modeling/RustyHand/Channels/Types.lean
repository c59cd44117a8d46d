import RustyHand.Types.Agent
import RustyHand.Types.Json

/-!
# Channels and their messages

`rusty-hand-channels/src/types.rs` and the channel policies of `rusty-hand-types/src/config.rs`, in
the part that the dispatch of a message reads.  Coordinates are kept as the texts they display as.
-/

namespace RustyHand

/-- `ChannelType`. -/
inductive ChannelType
  | telegram
  | discord
  | slack
  | webChat
  | cli
  | custom (name : String)
  deriving DecidableEq

/-- `channel_type_str`, which the router has as `channel_type_to_str`. -/
def ChannelType.str : ChannelType → String
  | telegram => "telegram"
  | discord => "discord"
  | slack => "slack"
  | webChat => "webchat"
  | cli => "cli"
  | custom name => name

/-- `ChannelUser`. -/
structure ChannelUser where
  platformId : String
  displayName : String
  rustyHandUser : Option String := none

/-- `ChannelContent`. -/
inductive ChannelContent
  | text (t : String)
  | image (url : String) (caption : Option String)
  | file (url filename : String)
  | voice (url : String) (durationSeconds : ℕ)
  | location (lat lon : String)
  | command (name : String) (args : List String)
  | callbackQuery (data callbackId : String)

/-- Is it the press of a button? -/
def ChannelContent.isCallback : ChannelContent → Bool
  | callbackQuery .. => true
  | _ => false

/-- `ChannelMessage`, without its time. -/
structure ChannelMessage where
  channel : ChannelType
  platformMessageId : String
  sender : ChannelUser
  content : ChannelContent
  isGroup : Bool
  threadId : Option String := none
  metadata : List (String × Json) := []

/-- `metadata.get(key).and_then(|v| v.as_str())`. -/
def ChannelMessage.metadataStr (m : ChannelMessage) (key : String) : Option String :=
  (m.metadata.lookup key).bind Json.asStr

/-- `DmPolicy`. -/
inductive DmPolicy
  | respond
  | allowedOnly
  | ignore
  deriving DecidableEq

/-- `GroupPolicy`. -/
inductive GroupPolicy
  | all
  | mentionOnly
  | commandsOnly
  | ignore
  deriving DecidableEq

/-- `OutputFormat`. -/
inductive OutputFormat
  | markdown
  | telegramHtml
  | slackMrkdwn
  | plainText
  deriving DecidableEq

/-- `ChannelOverrides`. -/
structure ChannelOverrides where
  dmPolicy : DmPolicy := .respond
  groupPolicy : GroupPolicy := .mentionOnly
  rateLimitPerUser : ℕ := 0
  threading : Bool := false
  outputFormat : Option OutputFormat := none

/-- Does a text begin with a slash? -/
def startsWithSlash (t : String) : Bool := t.toList.head? = some '/'

/-- What `commands_only` takes for a command. -/
def ChannelContent.isCommand : ChannelContent → Bool
  | command .. => true
  | text t => startsWithSlash t
  | _ => false

/-- Do the policies of the overrides let through a message from a group, or from a direct chat? -/
def ChannelOverrides.admits (ov : ChannelOverrides) (group : Bool) (content : ChannelContent) :
    Bool :=
  if group then
    match ov.groupPolicy with
    | .ignore => false
    | .commandsOnly => content.isCommand
    | .mentionOnly => true
    | .all => true
  else
    match ov.dmPolicy with
    | .ignore => false
    | .allowedOnly => true
    | .respond => true

end RustyHand
