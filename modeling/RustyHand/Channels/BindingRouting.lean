import RustyHand.Channels.Targets
import RustyHand.Lib.FirstBest

/-!
# Routing by bindings

A message has a channel, an account, a peer, a guild and roles, and a binding gives some of them.
The dispatch looks at broadcasts first; then it looks for a binding, with the channel and the peer
of the message alone, and passes over the bindings whose agent it does not know.

* `contextOf`: what a message has;
* `RoutesByBinding`: of the bindings in question, the earliest of the most specific ones decides,
  and the routes behind the bindings where there is none;
* `routesByBinding_known`: so it is for the bindings that match and whose agent is known.
-/

namespace RustyHand
namespace Bridge

open Ranking (FirstBest findSome?_sort_eq_some_iff findSome?_sort_eq_none_iff)

variable (h : Handle) (router : AgentRouter) (m : ChannelMessage)

/-- What a message has for a binding to match, with what its platform says of it. -/
def contextOf (accountId guildId : Option String) (roles : List String) : BindingContext where
  channel := m.channel.str
  accountId := accountId
  peerId := m.sender.platformId
  guildId := guildId
  roles := roles

/-- What there is behind the bindings: the direct route, then the defaults. -/
def unboundRoute : Option AgentId :=
  (router.directRoutes.lookup (m.channel, m.sender.platformId)).or
    (router.sharedRoute m.sender.platformId m.sender.rustyHandUser)

/-- A text goes to the agent of the most specific of the bindings in question, of the earliest one
among equals; where no binding is in question, it goes by the routes behind them. -/
def RoutesByBinding (bindings : List AgentBinding) (inQuestion : AgentBinding → Bool) : Prop :=
  let loaded := router.loadBindings bindings
  (∀ binding, FirstBest (·.matchRule.specificity) inQuestion bindings binding →
    ∀ agentId ∈ router.agentNameCache.lookup binding.agent, textTargets h loaded m = [agentId]) ∧
  ((∀ binding ∈ bindings, inQuestion binding = false) →
    ∀ agentId ∈ unboundRoute router m, textTargets h loaded m = [agentId])

/-- The binding matches, and its agent is known. -/
def knownMatch (ctx : BindingContext) (binding : AgentBinding) : Bool :=
  AgentRouter.bindingMatches binding ctx && (router.agentNameCache.lookup binding.agent).isSome

/-- A rule on the channel and the peer alone. -/
def OnChannelAndPeer (rule : BindingMatchRule) : Prop :=
  rule.accountId = none ∧ rule.guildId = none ∧ rule.roles = []

instance (rule : BindingMatchRule) : Decidable (OnChannelAndPeer rule) :=
  inferInstanceAs (Decidable (_ ∧ _ ∧ _))

variable {h router m} {bindings : List AgentBinding} {binding : AgentBinding}
  {accountId guildId : Option String} {roles : List String}

/-- What the dispatch knows of the message is enough to match the rules on the channel and the peer,
and these only. -/
theorem bindingMatches_dispatch_iff (m : ChannelMessage) (binding : AgentBinding)
    (accountId guildId : Option String) (roles : List String) :
    AgentRouter.bindingMatches binding (contextOf m none none []) ↔
      AgentRouter.bindingMatches binding (contextOf m accountId guildId roles) ∧
        OnChannelAndPeer binding.matchRule := by
  obtain ⟨agent, channel, account, peer, guild, ruleRoles⟩ := binding
  cases account with
  | some account => simp [AgentRouter.bindingMatches, contextOf, OnChannelAndPeer]
  | none =>
    cases guild with
    | some guild => simp [AgentRouter.bindingMatches, contextOf, OnChannelAndPeer]
    | none =>
      cases ruleRoles with
      | cons role roles => simp [AgentRouter.bindingMatches, contextOf, OnChannelAndPeer]
      | nil => exact (and_iff_left ⟨rfl, rfl, rfl⟩).symm

/-- The agent that a binding gives for a message. -/
def boundAgent (router : AgentRouter) (m : ChannelMessage) (binding : AgentBinding) :
    Option AgentId :=
  if AgentRouter.bindingMatches binding (contextOf m none none []) then
    router.agentNameCache.lookup binding.agent
  else none

theorem ownRoute_loadBindings : (router.loadBindings bindings).ownRoute m.channel
    m.sender.platformId = ((bindings.mergeSort (Ranking.descending fun b : AgentBinding =>
      b.matchRule.specificity)).findSome? (boundAgent router m)).or
        (router.directRoutes.lookup (m.channel, m.sender.platformId)) := by
  rw [AgentRouter.ownRoute_eq]
  rfl

/-- Where only such rules are in question, the dispatch finds the bindings in question. -/
theorem isSome_boundAgent
    (hplain : knownMatch router (contextOf m accountId guildId roles) binding = true →
      OnChannelAndPeer binding.matchRule) :
    (boundAgent router m binding).isSome =
      knownMatch router (contextOf m accountId guildId roles) binding := by
  have hmatches := bindingMatches_dispatch_iff m binding accountId guildId roles
  unfold boundAgent
  split
  · rename_i hdispatch
    rw [knownMatch, (hmatches.1 hdispatch).1, Bool.true_and]
  · rename_i hdispatch
    by_contra hknown
    have hknown : knownMatch router (contextOf m accountId guildId roles) binding = true := by
      simpa using hknown
    exact hdispatch (hmatches.2 ⟨(Bool.and_eq_true _ _ ▸ hknown).1, hplain hknown⟩)

theorem textTargets_of_routed (hbroadcast : ¬ isBroadcast router m) {agentId : AgentId}
    (hrouted : routed router m = some agentId) : textTargets h router m = [agentId] := by
  rw [textTargets, if_neg hbroadcast, hrouted]

/-- Routing by bindings, for peers without a broadcast, and where no binding that gives an account,
a guild or roles matches the message. -/
theorem routesByBinding_known (hbroadcast : ¬ isBroadcast router m)
    (hplain : ∀ binding ∈ bindings,
      knownMatch router (contextOf m accountId guildId roles) binding = true →
        OnChannelAndPeer binding.matchRule) :
    RoutesByBinding h router m bindings
      (knownMatch router (contextOf m accountId guildId roles)) := by
  have hsome : ∀ binding ∈ bindings, (boundAgent router m binding).isSome =
      knownMatch router (contextOf m accountId guildId roles) binding :=
    fun binding hbinding => isSome_boundAgent (hplain binding hbinding)
  have hloaded : ¬ isBroadcast (router.loadBindings bindings) m := hbroadcast
  constructor
  · intro binding hbest agentId hagent
    have hbound : boundAgent router m binding = some agentId := by
      have hmatches : (boundAgent router m binding).isSome := by
        rw [hsome binding hbest.mem, hbest.fits]
      unfold boundAgent at hmatches ⊢
      split at hmatches
      · rename_i hmatch
        rw [if_pos hmatch]
        exact hagent
      · cases hmatches
    have hfirst : (bindings.mergeSort (Ranking.descending fun b : AgentBinding =>
        b.matchRule.specificity)).findSome? (boundAgent router m) = some agentId :=
      findSome?_sort_eq_some_iff.2
        ⟨binding, hbest.congr fun b hb => (hsome b hb).symm, hbound⟩
    refine textTargets_of_routed hloaded ?_
    rw [routed, AgentRouter.resolve_eq, ownRoute_loadBindings, hfirst]
    rfl
  · intro hnone agentId hagent
    have hunbound : (bindings.mergeSort (Ranking.descending fun b : AgentBinding =>
        b.matchRule.specificity)).findSome? (boundAgent router m) = none :=
      findSome?_sort_eq_none_iff.2 fun b hb => by
        rw [← Option.isNone_iff_eq_none, ← Option.not_isSome, hsome b hb, hnone b hb]
        rfl
    refine textTargets_of_routed hloaded ?_
    rw [routed, AgentRouter.resolve_eq, ownRoute_loadBindings, hunbound, Option.none_or]
    exact hagent

/-- The router of a peer that is bound to one agent and has a broadcast to another one. -/
def boundAndBroadcast : AgentRouter where
  broadcastRoutes := [("7", ["watcher"])]
  agentNameCache := [("helper", 1), ("watcher", 2)]

/-- A direct message on Telegram. -/
def greeting : ChannelMessage where
  channel := .telegram
  platformMessageId := "1"
  sender := { platformId := "7", displayName := "Ann" }
  content := .text "hi"
  isGroup := false

/-- Among a binding to the channel and two to the peer, the first of the two decides. -/
theorem routesByBinding_known_peer :
    RoutesByBinding guarded { boundAndBroadcast with broadcastRoutes := [] } greeting
      [{ agent := "watcher", matchRule := { channel := some "telegram" } },
        { agent := "helper", matchRule := { peerId := some "7" } },
        { agent := "watcher", matchRule := { peerId := some "7" } }]
      (knownMatch { boundAndBroadcast with broadcastRoutes := [] }
        (contextOf greeting none (some "g") ["admin"])) :=
  routesByBinding_known (by decide) (by decide)

/-- A message of a peer with a broadcast goes to the agents of the broadcast, whatever is bound. -/
theorem not_routesByBinding_broadcast :
    ¬ ∀ (h : Handle) (router : AgentRouter) (m : ChannelMessage) (bindings : List AgentBinding)
      (accountId guildId : Option String) (roles : List String),
      RoutesByBinding h router m bindings
        fun binding => AgentRouter.bindingMatches binding
          (contextOf m accountId guildId roles) := by
  intro hall
  have hbound := (hall guarded boundAndBroadcast greeting
    [{ agent := "helper", matchRule := { peerId := some "7" } }] none none []).1
    { agent := "helper", matchRule := { peerId := some "7" } }
    ⟨[], [], rfl, by decide, by simp, by simp⟩ 1 rfl
  exact absurd hbound (by decide)

end Bridge
end RustyHand
