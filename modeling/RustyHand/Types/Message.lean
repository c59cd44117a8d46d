import Mathlib.Algebra.BigOperators.Group.List.Basic
import Mathlib.Algebra.Ring.Nat
import Mathlib.Order.Defs.LinearOrder
import RustyHand.Types.Json

/-!
# Conversation messages

`rusty-hand-types/src/message.rs`: roles, content blocks, message content and messages, with the
projections that the session code takes of a message (the blocks it stands for, the ids of its
`ToolUse` blocks, its `ToolResult` blocks, and what is left without these).
-/

namespace RustyHand

/-- The role of a message sender. -/
inductive Role
  | system
  | user
  | assistant
  deriving DecidableEq

/-- A content block within a message. -/
inductive ContentBlock
  | text (text : String)
  | image (mediaType data : String)
  | toolUse (id name : String) (input : Json)
  | toolResult (toolUseId content : String) (isError : Bool)
  | thinking (thinking : String)
  | unknown
  deriving DecidableEq

/-- Content of a message: simple text or structured blocks. -/
inductive MessageContent
  | text (s : String)
  | blocks (bs : List ContentBlock)
  deriving DecidableEq

/-- A message in a conversation. -/
structure Message where
  role : Role
  content : MessageContent
  deriving DecidableEq

namespace ContentBlock

/-- The id of a `ToolUse` block. -/
def useId? : ContentBlock → Option String
  | toolUse id _ _ => some id
  | _ => none

/-- The id a `ToolResult` block answers. -/
def resultId? : ContentBlock → Option String
  | toolResult id _ _ => some id
  | _ => none

/-- Is the block a `ToolResult`? -/
def isToolResult (b : ContentBlock) : Bool := b.resultId?.isSome

/-- Is the block a `ToolResult` for `id`? -/
def answers (id : String) (b : ContentBlock) : Bool := b.resultId? = some id

@[simp] theorem useId?_toolUse (id name : String) (input : Json) :
    (toolUse id name input).useId? = some id := rfl
@[simp] theorem resultId?_toolResult (id content : String) (e : Bool) :
    (toolResult id content e).resultId? = some id := rfl

theorem answers_iff {id : String} {b : ContentBlock} :
    b.answers id = true ↔ b.resultId? = some id := by simp [answers]

theorem resultId?_of_useId? {b : ContentBlock} {id : String} (h : b.useId? = some id) :
    b.resultId? = none := by
  cases b with
  | toolUse => rfl
  | _ => simp [useId?] at h

end ContentBlock

namespace MessageContent

/-- `content_to_blocks`: text stands for one text block. -/
def toBlocks : MessageContent → List ContentBlock
  | text s => [.text s]
  | blocks bs => bs

/-- No text, or no blocks. -/
def isEmpty : MessageContent → Bool
  | text s => s.isEmpty
  | blocks bs => bs.isEmpty

/-- `text_length`: the bytes of text, tool-result and thinking content. -/
def textLength : MessageContent → ℕ
  | text s => s.utf8ByteSize
  | blocks bs => (bs.map fun
      | .text t => t.utf8ByteSize
      | .toolResult _ c _ => c.utf8ByteSize
      | .thinking t => t.utf8ByteSize
      | .toolUse _ _ _ | .image _ _ | .unknown => 0).sum

/-- `text_content`: the text, or all text blocks one after the other. -/
def textContent : MessageContent → String
  | text s => s
  | blocks bs => String.join (bs.filterMap fun
      | .text t => some t
      | _ => none)

@[simp] theorem toBlocks_blocks (bs : List ContentBlock) : (blocks bs).toBlocks = bs := rfl
@[simp] theorem toBlocks_text (s : String) : (text s).toBlocks = [.text s] := rfl

end MessageContent

namespace Message

/-- `Message::user`. -/
def user (s : String) : Message := ⟨.user, .text s⟩

/-- `Message::assistant`. -/
def assistant (s : String) : Message := ⟨.assistant, .text s⟩

/-- The blocks a message stands for. -/
def blocks (m : Message) : List ContentBlock := m.content.toBlocks

/-- The ids of a message's `ToolUse` blocks, in order. -/
def useIds (m : Message) : List String := m.blocks.filterMap ContentBlock.useId?

/-- The ids a message's `ToolResult` blocks answer, in order. -/
def resultIds (m : Message) : List String := m.blocks.filterMap ContentBlock.resultId?

/-- A message's blocks other than `ToolResult`s. -/
def plainBlocks (m : Message) : List ContentBlock := m.blocks.filter fun b => !b.isToolResult

/-- A message's `ToolResult` blocks for `id`. -/
def resultsFor (id : String) (m : Message) : List ContentBlock :=
  m.blocks.filter (ContentBlock.answers id)

@[simp] theorem blocks_mk_blocks (r : Role) (bs : List ContentBlock) :
    (⟨r, .blocks bs⟩ : Message).blocks = bs := rfl
@[simp] theorem blocks_mk_text (r : Role) (s : String) :
    (⟨r, .text s⟩ : Message).blocks = [.text s] := rfl

theorem mem_resultIds {m : Message} {id : String} :
    id ∈ m.resultIds ↔ ∃ b ∈ m.blocks, b.resultId? = some id := List.mem_filterMap

theorem mem_resultIds_iff_resultsFor {m : Message} {id : String} :
    id ∈ m.resultIds ↔ m.resultsFor id ≠ [] := by
  rw [mem_resultIds, Ne, resultsFor, List.filter_eq_nil_iff]
  simp [ContentBlock.answers]

end Message

end RustyHand

/-!
## Token usage

`TokenUsage` of `rusty-hand-types/src/message.rs`, with the sum the agent loop keeps of it.
-/

namespace RustyHand
namespace SendMessage

/-- `TokenUsage`. -/
structure TokenUsage where
  inputTokens : ℕ
  outputTokens : ℕ
  deriving DecidableEq

namespace TokenUsage

/-- `u64::MAX`. -/
def maxTokens : ℕ := 2 ^ 64 - 1

/-- Two usages, added with `saturating_add`. -/
def add (a b : TokenUsage) : TokenUsage :=
  { inputTokens := min (a.inputTokens + b.inputTokens) maxTokens
    outputTokens := min (a.outputTokens + b.outputTokens) maxTokens }

/-- `total`. -/
def total (u : TokenUsage) : ℕ := u.inputTokens + u.outputTokens

end TokenUsage

end SendMessage
end RustyHand
