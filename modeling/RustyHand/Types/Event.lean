import RustyHand.Types.Agent

/-!
# Events

`rusty-hand-types/src/event.rs`: the payloads of the events of the bus, and `describe_event` of
`rusty-hand-kernel/src/triggers.rs`, the text of an event.  What the text takes from the standard
library (how an id or a float prints, the derived `Debug` of an event, `to_lowercase`) is a
parameter.
-/

namespace RustyHand

/-- `MessageRole`, of the sender of an event. -/
inductive SenderRole
  | user
  | agent
  | system
  | tool
  deriving DecidableEq

/-- `MemoryOperation`. -/
inductive MemoryOperation
  | created
  | updated
  | deleted
  deriving DecidableEq

/-- `LifecycleEvent`. -/
inductive LifecycleEvent
  | spawned (agentId : AgentId) (name : String)
  | started (agentId : AgentId)
  | suspended (agentId : AgentId)
  | resumed (agentId : AgentId)
  | terminated (agentId : AgentId) (reason : String)
  | crashed (agentId : AgentId) (error : String)

/-- `NetworkEvent`. -/
inductive NetworkEvent
  | peerConnected (peerId : String)
  | peerDisconnected (peerId : String)
  | messageReceived (fromPeer fromAgent : String)
  | discoveryResult (service : String) (providers : List String)

/-- `SystemEvent`; the floats are their bits. -/
inductive SystemEvent
  | kernelStarted
  | kernelStopping
  | quotaWarning (agentId : AgentId) (resource : String) (usagePercent : UInt32)
  | healthCheck (status : String)
  | quotaEnforced (agentId : AgentId) (spent limit : UInt64)
  | modelRouted (agentId : AgentId) (complexity model : String)
  | userAction (userId action result : String)
  | healthCheckFailed (agentId : AgentId) (unresponsiveSecs : ℕ)

/-- `EventPayload`; of a message, a tool result and a memory change, what its text shows. -/
inductive EventPayload
  | message (role : SenderRole) (content : String)
  | toolResult (toolId content : String) (success : Bool) (executionTimeMs : ℕ)
  | memoryUpdate (operation : MemoryOperation) (key : String) (agentId : AgentId)
  | lifecycle (event : LifecycleEvent)
  | network (event : NetworkEvent)
  | system (event : SystemEvent)
  | custom (data : List UInt8)

/-- What the texts of events take from the standard library. -/
structure EventText where
  toLowercase : String → String
  showId : AgentId → String
  /-- An `f32` with one decimal. -/
  showTenths : UInt32 → String
  /-- An `f64` with four decimals. -/
  showTenThousandths : UInt64 → String
  debugNetwork : NetworkEvent → String
  debugSystem : SystemEvent → String

namespace SenderRole

/-- The derived `Debug`. -/
def debug : SenderRole → String
  | user => "User"
  | agent => "Agent"
  | system => "System"
  | tool => "Tool"

end SenderRole

namespace MemoryOperation

/-- The derived `Debug`. -/
def debug : MemoryOperation → String
  | created => "Created"
  | updated => "Updated"
  | deleted => "Deleted"

end MemoryOperation

namespace EventText

variable (text : EventText)

/-- `describe_event`, for the events of an agent's life. -/
def describeLifecycle : LifecycleEvent → String
  | .spawned agentId name =>
    "Agent '" ++ name ++ "' (id: " ++ text.showId agentId ++ ") was spawned"
  | .started agentId => "Agent " ++ text.showId agentId ++ " started"
  | .suspended agentId => "Agent " ++ text.showId agentId ++ " suspended"
  | .resumed agentId => "Agent " ++ text.showId agentId ++ " resumed"
  | .terminated agentId reason => "Agent " ++ text.showId agentId ++ " terminated: " ++ reason
  | .crashed agentId error => "Agent " ++ text.showId agentId ++ " crashed: " ++ error

/-- `describe_event`, for the events of the system. -/
def describeSystem : SystemEvent → String
  | .kernelStarted => "Kernel started"
  | .kernelStopping => "Kernel stopping"
  | .quotaWarning agentId resource usagePercent =>
    "Quota warning: agent " ++ text.showId agentId ++ ", " ++ resource ++ " at " ++
      text.showTenths usagePercent ++ "%"
  | .healthCheck status => "Health check: " ++ status
  | .quotaEnforced agentId spent limit =>
    "Quota enforced: agent " ++ text.showId agentId ++ ", spent $" ++
      text.showTenThousandths spent ++ " / $" ++ text.showTenThousandths limit
  | .modelRouted agentId complexity model =>
    "Model routed: agent " ++ text.showId agentId ++ ", complexity=" ++ complexity ++
      ", model=" ++ model
  | .userAction userId action result =>
    "User action: " ++ userId ++ " " ++ action ++ " -> " ++ result
  | .healthCheckFailed agentId unresponsiveSecs =>
    "Health check failed: agent " ++ text.showId agentId ++ ", unresponsive for " ++
      toString unresponsiveSecs ++ "s"

/-- `describe_event`. -/
def describe : EventPayload → String
  | .message role content => "Message from " ++ role.debug ++ ": " ++ content
  | .toolResult toolId content success executionTimeMs =>
    "Tool '" ++ toolId ++ "' " ++ (if success then "succeeded" else "failed") ++ " (" ++
      toString executionTimeMs ++ "ms): " ++ Text.truncateBytes content 200
  | .memoryUpdate operation key agentId =>
    "Memory " ++ operation.debug ++ " on key '" ++ key ++ "' for agent " ++ text.showId agentId
  | .lifecycle event => text.describeLifecycle event
  | .network event => "Network event: " ++ text.debugNetwork event
  | .system event => text.describeSystem event
  | .custom data => "Custom event (" ++ toString data.length ++ " bytes)"

end EventText
end RustyHand
