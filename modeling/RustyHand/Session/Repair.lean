import RustyHand.Types.Message
import RustyHand.Types.Text
import RustyHand.Lib.DescendingEdits

/-!
# Session history repair

`rusty-hand-runtime/src/session_repair.rs`, the passes of `validate_and_repair_with_stats` in the
order it runs them:

* `removeOrphans` (phase 2): drop `ToolResult`s without a `ToolUse`, and empty messages;
* `reorderToolResults` (2b): move each misplaced result behind the message with its use;
* `insertSyntheticResults` (2c): answer the remaining uses with an error result;
* `deduplicateToolResults` (2d): keep the first result for each id;
* `removeAbortedAssistantMessages` (2e) and `mergeConsecutive` (3).

A `HashMap` filled by a loop is read here as the value the last insertion left; the loops over
its entries sorted by descending index are folds over the sorted list of keys.
-/

namespace RustyHand
namespace SessionRepair

open DescendingInsert

/-- `RepairStats`. -/
structure RepairStats where
  orphanedResultsRemoved : ℕ := 0
  emptyMessagesRemoved : ℕ := 0
  messagesMerged : ℕ := 0
  resultsReordered : ℕ := 0
  syntheticResultsInserted : ℕ := 0
  duplicatesRemoved : ℕ := 0

/-- Keep the blocks of a message that satisfy `p` (`Vec::retain`); text is left alone. -/
def retainBlocks (p : ContentBlock → Bool) (m : Message) : Message :=
  match m.content with
  | .text _ => m
  | .blocks bs => ⟨m.role, .blocks (bs.filter p)⟩

/-- `messages.retain(non-empty)`. -/
def retainNonEmpty (messages : List Message) : List Message :=
  messages.filter fun m => !m.content.isEmpty

/-- The ids of all `ToolUse` blocks of a history (phase 1). -/
def toolUseIds (messages : List Message) : List String := messages.flatMap Message.useIds

/-! ### Phase 2: orphans and empty messages -/

/-- The filter of phase 2: a `ToolResult` is kept when its use exists. -/
def hasUse (ids : List String) (b : ContentBlock) : Bool :=
  match b.resultId? with
  | some id => ids.contains id
  | none => true

/-- The cleaned history. -/
def removeOrphans (messages : List Message) : List Message :=
  retainNonEmpty (messages.map (retainBlocks (hasUse (toolUseIds messages))))

/-- `orphaned_results_removed`. -/
def orphanCount (messages : List Message) : ℕ :=
  (messages.flatMap Message.blocks).countP fun b => !hasUse (toolUseIds messages) b

/-! ### Phase 2b: misplaced results -/

/-- Is `m` an assistant message with a `ToolUse` for `id`? -/
def usesTool (id : String) (m : Message) : Bool :=
  m.role = .assistant && m.useIds.contains id

/-- `tool_use_index`: the assistant message that holds the use, the last one inserted. -/
def toolUseIndex (messages : List Message) (id : String) : Option ℕ :=
  lastIndex (usesTool id) messages

/-- A misplaced `ToolResult`: its message, its id, the block, and the message with its use. -/
structure Misplaced where
  msgIdx : ℕ
  toolUseId : String
  block : ContentBlock
  assistantIdx : ℕ

/-- What the collecting loop pushes for one block of message `msgIdx`. -/
def misplacedBlock (messages : List Message) (msgIdx : ℕ) (b : ContentBlock) :
    Option Misplaced := do
  let id ← b.resultId?
  let assistantIdx ← toolUseIndex messages id
  if msgIdx ≠ assistantIdx + 1 then some ⟨msgIdx, id, b, assistantIdx⟩ else none

/-- The misplaced results of a history, in order. -/
def misplaced (messages : List Message) : List Misplaced :=
  messages.zipIdx.flatMap fun (m, i) =>
    if m.role = .user then m.blocks.filterMap (misplacedBlock messages i) else []

/-- `misplaced_sources.contains(&(msg_idx, id))`. -/
def isMisplacedSource (mis : List Misplaced) (msgIdx : ℕ) (b : ContentBlock) : Bool :=
  mis.any fun e => e.msgIdx = msgIdx && b.answers e.toolUseId

/-- Take the misplaced blocks out of their messages. -/
def removeMisplaced (mis : List Misplaced) (messages : List Message) : List Message :=
  messages.mapIdx fun i m =>
    if m.role = .user then retainBlocks (fun b => !isMisplacedSource mis i b) m else m

/-- Put `blocks` at `insertPos`: behind the content of a user message standing there, else as a
new user message. -/
def placeResults (messages : List Message) (insertPos : ℕ) (blocks : List ContentBlock) :
    List Message :=
  match messages[insertPos]? with
  | some m =>
    if m.role = .user then messages.set insertPos ⟨.user, .blocks (m.blocks ++ blocks)⟩
    else messages.insertIdx insertPos ⟨.user, .blocks blocks⟩
  | none => messages ++ [⟨.user, .blocks blocks⟩]

/-- `insertions[a]`: the misplaced blocks that belong behind message `a`. -/
def insertionsFor (mis : List Misplaced) (a : ℕ) : List ContentBlock :=
  (mis.filter fun e => e.assistantIdx = a).map Misplaced.block

/-- `current_assistant_positions[a]`: where the assistant message first at `a` stands now, found
by its uses. -/
def currentPosition (toolIdx : String → Option ℕ) (messages : List Message) (a : ℕ) : Option ℕ :=
  lastIndex (fun m => m.role = .assistant && m.useIds.any fun id => toolIdx id = some a) messages

/-- One round of the insertion loop. -/
def insertBehind (pos : ℕ → Option ℕ) (ins : ℕ → List ContentBlock) (messages : List Message)
    (a : ℕ) : List Message :=
  match pos a with
  | some i => placeResults messages (i + 1) (ins a)
  | none => messages

/-- `reorder_tool_results`: the reordered history and the number of moved results. -/
def reorderToolResults (messages : List Message) : List Message × ℕ :=
  let mis := misplaced messages
  if mis.isEmpty then (messages, 0)
  else
    let rest := retainNonEmpty (removeMisplaced mis messages)
    let pos := currentPosition (toolUseIndex messages) rest
    ((descendingKeys (mis.map Misplaced.assistantIdx)).foldl
      (insertBehind pos (insertionsFor mis)) rest, mis.length)

/-! ### Phase 2c: synthetic results -/

/-- The error result inserted for a use without a result. -/
def syntheticResult (id : String) : ContentBlock :=
  .toolResult id "[Tool execution was interrupted or lost]" true

/-- `existing_result_ids`. -/
def existingResultIds (messages : List Message) : List String :=
  messages.flatMap Message.resultIds

/-- The uses without a result, with the index of their message. -/
def orphanedUses (messages : List Message) : List (ℕ × String) :=
  messages.zipIdx.flatMap fun (m, i) =>
    if m.role = .assistant then
      (m.useIds.filter fun id => !(existingResultIds messages).contains id).map fun id => (i, id)
    else []

/-- The synthetic results grouped behind message `a`. -/
def syntheticFor (orphans : List (ℕ × String)) (a : ℕ) : List ContentBlock :=
  (orphans.filter fun e => e.1 = a).map fun e => syntheticResult e.2

/-- `insert_synthetic_results`. -/
def insertSyntheticResults (messages : List Message) : List Message × ℕ :=
  let orphans := orphanedUses messages
  if orphans.isEmpty then (messages, 0)
  else
    ((descendingKeys (orphans.map Prod.fst)).foldl
      (insertBehind some (syntheticFor orphans)) messages, orphans.length)

/-! ### Phase 2d: duplicates -/

/-- `blocks.retain` with the set of ids seen so far: the blocks kept and the new set. -/
def dedupBlocks (seen : List String) : List ContentBlock → List ContentBlock × List String
  | [] => ([], seen)
  | b :: bs =>
    match b.resultId? with
    | some id =>
      if seen.contains id then dedupBlocks seen bs
      else
        let r := dedupBlocks (id :: seen) bs
        (b :: r.1, r.2)
    | none =>
      let r := dedupBlocks seen bs
      (b :: r.1, r.2)

/-- The loop over the messages. -/
def dedupMessages (seen : List String) : List Message → List Message
  | [] => []
  | m :: ms =>
    match m.content with
    | .text _ => m :: dedupMessages seen ms
    | .blocks bs =>
      let r := dedupBlocks seen bs
      ⟨m.role, .blocks r.1⟩ :: dedupMessages r.2 ms

/-- The number of blocks of a history. -/
def blockCount (messages : List Message) : ℕ := (messages.flatMap Message.blocks).length

/-- `deduplicate_tool_results`. -/
def deduplicateToolResults (messages : List Message) : List Message × ℕ :=
  let deduped := dedupMessages [] messages
  (retainNonEmpty deduped, blockCount messages - blockCount deduped)

/-! ### Phase 2e: aborted assistant messages -/

/-- `is_empty_or_blank_content`. -/
def isEmptyOrBlankContent : MessageContent → Bool
  | .text s => Text.isBlank s
  | .blocks bs => bs.all fun
      | .text t => Text.isBlank t
      | .unknown => true
      | _ => false

/-- An assistant message with blank content, which the pass removes unless it is the last. -/
def isAborted (m : Message) : Bool := m.role = .assistant && isEmptyOrBlankContent m.content

/-- `remove_aborted_assistant_messages`. -/
def removeAbortedAssistantMessages : List Message → List Message
  | [] => []
  | [m] => [m]
  | m :: n :: ms =>
    if isAborted m then removeAbortedAssistantMessages (n :: ms)
    else m :: removeAbortedAssistantMessages (n :: ms)

/-! ### Phase 3: consecutive messages of one role -/

/-- `merge_content`. -/
def mergeContent (dst src : MessageContent) : MessageContent :=
  .blocks (dst.toBlocks ++ src.toBlocks)

/-- The merge loop, with `last` the open last message of the output. -/
def mergeInto (last : Message) : List Message → List Message
  | [] => [last]
  | m :: ms =>
    if last.role = m.role then mergeInto ⟨last.role, mergeContent last.content m.content⟩ ms
    else last :: mergeInto m ms

/-- Phase 3. -/
def mergeConsecutive : List Message → List Message
  | [] => []
  | m :: ms => mergeInto m ms

/-! ### The whole repair -/

/-- The history after phases 2 to 2d. -/
def pairUp (messages : List Message) : List Message :=
  (deduplicateToolResults
    (insertSyntheticResults (reorderToolResults (removeOrphans messages)).1).1).1

/-- `validate_and_repair_with_stats`. -/
def validateAndRepairWithStats (messages : List Message) : List Message × RepairStats :=
  let cleaned := removeOrphans messages
  let reordered := reorderToolResults cleaned
  let answered := insertSyntheticResults reordered.1
  let deduped := deduplicateToolResults answered.1
  let kept := removeAbortedAssistantMessages deduped.1
  let merged := mergeConsecutive kept
  (merged,
    { orphanedResultsRemoved := orphanCount messages
      emptyMessagesRemoved := (messages.length - cleaned.length) + (deduped.1.length - kept.length)
      messagesMerged := kept.length - merged.length
      resultsReordered := reordered.2
      syntheticResultsInserted := answered.2
      duplicatesRemoved := deduped.2 })

/-- `validate_and_repair`. -/
def validateAndRepair (messages : List Message) : List Message :=
  (validateAndRepairWithStats messages).1

end SessionRepair
end RustyHand
