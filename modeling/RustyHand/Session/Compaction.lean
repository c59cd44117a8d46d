import RustyHand.Lib.Float64
import RustyHand.Types.Message
import RustyHand.Types.ToolSchema

/-!
# Compaction

`rusty-hand-runtime/src/compactor.rs`: when a session is compacted, and what `compact_session` makes
of it.  The summary that a model writes, in one pass or in chunks, is an input; `none` where both
fail.
-/

/-!
## Token estimates

`estimate_token_count` of `rusty-hand-runtime/src/compactor.rs`: bytes divided by four.
-/

namespace RustyHand
namespace Compactor

/-- The bytes counted for one tool. -/
def toolChars (tool : ToolDefinition) : ℕ :=
  tool.name.utf8ByteSize + tool.description.utf8ByteSize + tool.inputSchema.toString.utf8ByteSize

/-- The bytes counted for one message, with 16 for its role label and framing. -/
def messageChars (m : Message) : ℕ := m.content.textLength + 16

/-- `estimate_token_count`. -/
def estimateTokenCount (messages : List Message) (systemPrompt : Option String)
    (tools : Option (List ToolDefinition)) : ℕ :=
  ((systemPrompt.map String.utf8ByteSize).getD 0 + (messages.map messageChars).sum +
    ((tools.getD []).map toolChars).sum) / 4

end Compactor
end RustyHand

namespace RustyHand
namespace Compactor

/-- `CompactionConfig`, what triggers and splits; the ratio is the fraction of its `f64`. -/
structure CompactionConfig where
  threshold : ℕ := 30
  keepRecent : ℕ := 10
  tokenThresholdRatio : ℕ × ℕ := (6305039478318694, 53)
  contextWindowTokens : ℕ := 200000

/-- `needs_compaction`. -/
def needsCompaction (messages : List Message) (config : CompactionConfig) : Bool :=
  config.threshold < messages.length

/-- `needs_compaction_by_tokens`. -/
def needsCompactionByTokens (estimatedTokens : ℕ) (config : CompactionConfig) : Bool :=
  Float64.mulTrunc config.contextWindowTokens config.tokenThresholdRatio.1
    config.tokenThresholdRatio.2 < estimatedTokens

/-- `CompactionResult`. -/
structure CompactionResult where
  summary : String
  keptMessages : List Message
  compactedCount : ℕ

/-- The summary of a session that no model has summed up. -/
def minimalSummary (compacted kept : ℕ) : String :=
  "[Session compacted: " ++ toString compacted ++ " messages removed. Recent " ++ toString kept ++
    " messages preserved. Summarization was unavailable.]"

/-- `compact_session`. -/
def compactSession (summarize : List Message → Option String) (messages : List Message)
    (config : CompactionConfig) : CompactionResult :=
  if messages.length ≤ config.keepRecent then
    { summary := "", keptMessages := messages, compactedCount := 0 }
  else
    let splitAt := messages.length - config.keepRecent
    let toCompact := messages.take splitAt
    let kept := messages.drop splitAt
    { summary := (summarize toCompact).getD (minimalSummary toCompact.length kept.length)
      keptMessages := kept
      compactedCount := toCompact.length }

end Compactor
end RustyHand
