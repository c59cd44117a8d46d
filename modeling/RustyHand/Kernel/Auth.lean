import RustyHand.Types.Text

/-!
# Users and roles

`rusty-hand-kernel/src/auth.rs` and `authorize_channel_user` of
`rusty-hand-api/src/channel_bridge.rs`.  `str::to_lowercase` is a parameter, which reads the roles
of the configuration; API keys are left out, since no channel has any.

* `UserRole`, `Action`, `AuthManager`;
* `authorizeChannelUser`, and whom it lets in.
-/

namespace RustyHand

/-- `UserId`, by the position in the configuration. -/
abbrev UserId := ℕ

/-- `UserRole`. -/
inductive UserRole
  | viewer
  | user
  | admin
  | owner
  deriving DecidableEq

namespace UserRole

/-- The discriminant, which orders the roles. -/
def rank : UserRole → ℕ
  | viewer => 0
  | user => 1
  | admin => 2
  | owner => 3

/-- The role as it displays. -/
def display : UserRole → String
  | viewer => "viewer"
  | user => "user"
  | admin => "admin"
  | owner => "owner"

/-- `UserRole::from_str_role`. -/
def fromStrRole (toLowercase : String → String) (s : String) : UserRole :=
  match toLowercase (Text.trim s) with
  | "owner" => owner
  | "admin" => admin
  | "viewer" => viewer
  | _ => user

end UserRole

/-- `Action`: the actions that a channel can ask for. -/
inductive Action
  | chatWithAgent
  | spawnAgent
  | killAgent
  | installSkill
  deriving DecidableEq

namespace Action

/-- `Action::required_role`. -/
def requiredRole : Action → UserRole
  | chatWithAgent => .user
  | spawnAgent => .admin
  | killAgent => .admin
  | installSkill => .admin

/-- The action as `Debug` prints it. -/
def debug : Action → String
  | chatWithAgent => "ChatWithAgent"
  | spawnAgent => "SpawnAgent"
  | killAgent => "KillAgent"
  | installSkill => "InstallSkill"

/-- The action that `authorize_channel_user` reads from a text. -/
def ofString : String → Action
  | "chat" => chatWithAgent
  | "spawn" => spawnAgent
  | "kill" => killAgent
  | "install_skill" => installSkill
  | _ => chatWithAgent

end Action

/-- `UserConfig`. -/
structure UserConfig where
  name : String
  role : String := "user"
  channelBindings : List (String × String) := []

/-- `UserIdentity`. -/
structure UserIdentity where
  name : String
  role : UserRole

/-- `AuthManager`; of two bindings with one key, the later stands first. -/
structure AuthManager where
  users : List UserIdentity
  channelIndex : List (String × UserId)

namespace AuthManager

/-- The key of a channel identity. -/
def channelKey (channelType platformId : String) : String := channelType ++ ":" ++ platformId

/-- `AuthManager::new`. -/
def new (toLowercase : String → String) (configs : List UserConfig) : AuthManager :=
  { users := configs.map fun c => ⟨c.name, UserRole.fromStrRole toLowercase c.role⟩
    channelIndex := (configs.zipIdx.flatMap fun c =>
      c.1.channelBindings.map fun b => (channelKey b.1 b.2, c.2)).reverse }

variable (auth : AuthManager)

/-- `is_enabled`. -/
def isEnabled : Bool := !auth.users.isEmpty

/-- `identify`. -/
def identify (channelType platformId : String) : Option UserId :=
  auth.channelIndex.lookup (channelKey channelType platformId)

/-- `authorize`. -/
def authorize (userId : UserId) (action : Action) : Except String Unit :=
  match auth.users[userId]? with
  | none => .error "Auth denied: Unknown user"
  | some identity =>
    if action.requiredRole.rank ≤ identity.role.rank then .ok ()
    else
      .error ("Auth denied: User '" ++ identity.name ++ "' (role: " ++ identity.role.display ++
        ") lacks permission for " ++ action.debug ++ " (requires: " ++
        action.requiredRole.display ++ ")")

/-- `authorize_channel_user`. -/
def authorizeChannelUser (channelType platformId action : String) : Except String Unit :=
  if auth.isEnabled then
    match auth.identify channelType platformId with
    | none => .error "Unrecognized user. Contact an admin to get access."
    | some userId => auth.authorize userId (Action.ofString action)
  else .ok ()

variable {auth}

end AuthManager
end RustyHand
