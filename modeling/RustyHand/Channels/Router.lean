import RustyHand.Channels.Types

/-!
# The router

`rusty-hand-channels/src/router.rs`: which agent a message goes to.  The bindings stand in the order
in which the router has sorted them, and a direct route is keyed by the channel itself, where the
source has the channel's `Debug` text.
-/

namespace RustyHand

/-- `BindingMatchRule`. -/
structure BindingMatchRule where
  channel : Option String := none
  accountId : Option String := none
  peerId : Option String := none
  guildId : Option String := none
  roles : List String := []

/-- `specificity`. -/
def BindingMatchRule.specificity (rule : BindingMatchRule) : ℕ :=
  (if rule.peerId.isSome then 8 else 0) + (if rule.guildId.isSome then 4 else 0) +
    (if rule.roles.isEmpty then 0 else 2) + (if rule.accountId.isSome then 2 else 0) +
    if rule.channel.isSome then 1 else 0

/-- `AgentBinding`. -/
structure AgentBinding where
  agent : String
  matchRule : BindingMatchRule

/-- `BindingContext`. -/
structure BindingContext where
  channel : String
  accountId : Option String := none
  peerId : String
  guildId : Option String := none
  roles : List String := []

/-- `AgentRouter`, with its maps as lists of their entries. -/
structure AgentRouter where
  userDefaults : List (String × AgentId) := []
  directRoutes : List ((ChannelType × String) × AgentId) := []
  defaultAgent : Option AgentId := none
  bindings : List AgentBinding := []
  broadcastRoutes : List (String × List String) := []
  agentNameCache : List (String × AgentId) := []

namespace AgentRouter

variable (router : AgentRouter)

/-- `binding_matches`. -/
def bindingMatches (binding : AgentBinding) (ctx : BindingContext) : Bool :=
  let rule := binding.matchRule
  rule.channel.all (· = ctx.channel) && rule.accountId.all (ctx.accountId = some ·) &&
    rule.peerId.all (· = ctx.peerId) && rule.guildId.all (ctx.guildId = some ·) &&
    (rule.roles.isEmpty || rule.roles.any ctx.roles.contains)

/-- `load_bindings`: the most specific first. -/
def loadBindings (bindings : List AgentBinding) : AgentRouter :=
  { router with
    bindings := bindings.mergeSort fun a b => b.matchRule.specificity ≤ a.matchRule.specificity }

/-- `set_default`. -/
def setDefault (agentId : AgentId) : AgentRouter := { router with defaultAgent := some agentId }

/-- `set_user_default`. -/
def setUserDefault (userKey : String) (agentId : AgentId) : AgentRouter :=
  { router with
    userDefaults := (userKey, agentId) :: router.userDefaults.filter fun d => d.1 ≠ userKey }

/-- `resolve_binding`: a binding whose agent is not known is passed over. -/
def resolveBinding (ctx : BindingContext) : Option AgentId :=
  router.bindings.findSome? fun binding =>
    if bindingMatches binding ctx then router.agentNameCache.lookup binding.agent else none

/-- `resolve`: bindings, then the direct route, then the user's default, then the default. -/
def resolve (channel : ChannelType) (platformUserId : String) (userKey : Option String) :
    Option AgentId :=
  router.resolveBinding { channel := channel.str, peerId := platformUserId }
    <|> router.directRoutes.lookup (channel, platformUserId)
    <|> userKey.bind (router.userDefaults.lookup ·)
    <|> router.userDefaults.lookup platformUserId
    <|> router.defaultAgent

/-- What a channel has of its own for a user: its bindings and its direct route. -/
def ownRoute (channel : ChannelType) (platformUserId : String) : Option AgentId :=
  router.resolveBinding { channel := channel.str, peerId := platformUserId }
    <|> router.directRoutes.lookup (channel, platformUserId)

/-- What a user has on every channel: the default of the user, and the default. -/
def sharedRoute (platformUserId : String) (userKey : Option String) : Option AgentId :=
  userKey.bind (router.userDefaults.lookup ·)
    <|> router.userDefaults.lookup platformUserId
    <|> router.defaultAgent

/-- `has_broadcast`. -/
def hasBroadcast (peerId : String) : Bool := (router.broadcastRoutes.lookup peerId).isSome

/-- `resolve_broadcast`. -/
def resolveBroadcast (peerId : String) : List (String × Option AgentId) :=
  ((router.broadcastRoutes.lookup peerId).getD []).map fun name =>
    (name, router.agentNameCache.lookup name)

theorem resolve_eq {channel : ChannelType} {platformUserId : String} {userKey : Option String} :
    router.resolve channel platformUserId userKey =
      (router.ownRoute channel platformUserId).or (router.sharedRoute platformUserId userKey) := by
  simp [resolve, ownRoute, sharedRoute, Option.orElse_eq_or, Option.or_assoc]

variable {router} {agentId : AgentId}

theorem ownRoute_setUserDefault (channel : ChannelType) (key id : String) :
    (router.setUserDefault key agentId).ownRoute channel id = router.ownRoute channel id := rfl

theorem lookup_filter_of_ne {key key' : String} (hkey : key' ≠ key)
    (entries : List (String × AgentId)) :
    (entries.filter fun d => d.1 ≠ key).lookup key' = entries.lookup key' := by
  induction entries with
  | nil => rfl
  | cons d entries ih =>
    by_cases hd : d.1 = key
    · have hne : (key' == d.1) = false := beq_false_of_ne (hd ▸ hkey)
      rw [List.filter_cons_of_neg (by simpa using hd), ih, List.lookup_cons, hne]
    · rw [List.filter_cons_of_pos (by simpa using hd), List.lookup_cons, List.lookup_cons, ih]

theorem lookup_setUserDefault (key key' : String) :
    (router.setUserDefault key agentId).userDefaults.lookup key' =
      if key' = key then some agentId else router.userDefaults.lookup key' := by
  unfold setUserDefault
  by_cases hkey : key' = key
  · rw [if_pos hkey, hkey, List.lookup_cons_self]
  · rw [if_neg hkey, List.lookup_cons, beq_false_of_ne hkey, lookup_filter_of_ne hkey]

theorem ownRoute_eq {channel : ChannelType} {id : String} : router.ownRoute channel id =
    (router.resolveBinding { channel := channel.str, peerId := id }).or
      (router.directRoutes.lookup (channel, id)) := by
  simp [ownRoute, Option.orElse_eq_or]

theorem sharedRoute_eq {id : String} {userKey : Option String} : router.sharedRoute id userKey =
    (userKey.bind (router.userDefaults.lookup ·)).or
      ((router.userDefaults.lookup id).or router.defaultAgent) := by
  simp [sharedRoute, Option.orElse_eq_or]

/-- A user who gets to another agent than before, gets to the new default. -/
theorem resolve_setUserDefault {channel : ChannelType} {key id : String} {userKey : Option String}
    {agent : AgentId}
    (hagent : (router.setUserDefault key agentId).resolve channel id userKey = some agent) :
    agent = agentId ∨ router.resolve channel id userKey = some agent := by
  rw [resolve_eq, ownRoute_setUserDefault, sharedRoute_eq] at hagent
  rw [resolve_eq, sharedRoute_eq]
  cases hown : router.ownRoute channel id with
  | some own =>
    rw [hown] at hagent
    exact Or.inr hagent
  | none =>
    rw [hown, Option.none_or] at hagent
    rw [Option.none_or]
    have hplatform : ((router.setUserDefault key agentId).userDefaults.lookup id).or
          router.defaultAgent = some agent →
        agent = agentId ∨
          (router.userDefaults.lookup id).or router.defaultAgent = some agent := by
      rw [lookup_setUserDefault]
      split
      · intro h
        exact Or.inl (Option.some.inj h).symm
      · exact Or.inr
    cases userKey with
    | none => exact hplatform hagent
    | some user =>
      rw [Option.bind_some, lookup_setUserDefault] at hagent
      split at hagent
      · exact Or.inl (Option.some.inj hagent).symm
      · rw [Option.bind_some]
        cases hdefault : router.userDefaults.lookup user with
        | some other =>
          rw [hdefault] at hagent
          exact Or.inr hagent
        | none =>
          rw [hdefault] at hagent
          exact hplatform hagent

end AgentRouter
end RustyHand
