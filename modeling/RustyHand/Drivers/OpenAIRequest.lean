import RustyHand.Runtime.Driver
import RustyHand.Session.RepairSpec
import Mathlib.Algebra.Order.BigOperators.Group.List
import Mathlib.Algebra.Order.Ring.Nat
import Mathlib.Data.List.Flatten

/-!
# What the OpenAI driver sends

The messages of a request, as `complete` and `stream` of
`rusty-hand-runtime/src/drivers/openai.rs` build them alike, and what they carry of the history: of
a message of the user that holds results, only the results.

* `oaiMessages`: the messages of a request;
* `Said`, `saidIn`, `OaiMessage.said`: what is said in a history, and in a request;
* `oaiMessages_delivers_iff`: the histories of which nothing is lost.
-/

namespace RustyHand
namespace OpenAI

open LlmDriver

/-- `OaiFunction`. -/
structure OaiFunction where
  name : String
  arguments : String

/-- `OaiToolCall`. -/
structure OaiToolCall where
  id : String
  callType : String
  function : OaiFunction

/-- `OaiContentPart`. -/
inductive OaiContentPart
  | text (text : String)
  | imageUrl (url : String)

/-- `OaiMessageContent`. -/
inductive OaiMessageContent
  | text (text : String)
  | parts (parts : List OaiContentPart)

/-- `OaiMessage`. -/
structure OaiMessage where
  role : String
  content : Option OaiMessageContent := none
  toolCalls : Option (List OaiToolCall) := none
  toolCallId : Option String := none
  reasoningContent : Option String := none

/-- `data:…;base64,…` -/
def dataUrl (mediaType data : String) : String := "data:" ++ mediaType ++ ";base64," ++ data

/-- The message of the role `tool` for a result. -/
def toolMessage? : ContentBlock → Option OaiMessage
  | .toolResult toolUseId content _ =>
    some { role := "tool", content := some (.text content), toolCallId := some toolUseId }
  | _ => none

/-- The part for a text or an image of the user. -/
def contentPart? : ContentBlock → Option OaiContentPart
  | .text text => some (.text text)
  | .image mediaType data => some (.imageUrl (dataUrl mediaType data))
  | _ => none

/-- The call for a use. -/
def oaiCall? : ContentBlock → Option OaiToolCall
  | .toolUse id name input => some ⟨id, "function", ⟨name, input.toString⟩⟩
  | _ => none

/-- The thought of a block. -/
def thinking? : ContentBlock → Option String
  | .thinking thinking => some thinking
  | _ => none

/-- The messages for the blocks of the user: the texts and images are left out when there are
results. -/
def userMessages (blocks : List ContentBlock) : List OaiMessage :=
  let results := blocks.filterMap toolMessage?
  let parts := blocks.filterMap contentPart?
  results ++
    if parts ≠ [] ∧ results = [] then [{ role := "user", content := some (.parts parts) }] else []

/-- A list, unless it is empty. -/
def nonEmpty {α β : Type} (f : List α → β) (l : List α) : Option β :=
  if l.isEmpty then none else some (f l)

/-- The message for the blocks of the assistant. -/
def assistantMessage (blocks : List ContentBlock) : OaiMessage where
  role := "assistant"
  content := nonEmpty (fun texts => .text (String.join texts)) (blocks.filterMap blockText?)
  toolCalls := nonEmpty id (blocks.filterMap oaiCall?)
  reasoningContent := nonEmpty (String.intercalate "\n") (blocks.filterMap thinking?)

/-- The messages for one message of the history. -/
def convertMessage (system : Option String) (m : Message) : List OaiMessage :=
  match m.role, m.content with
  | .system, .text text =>
    if system.isNone then [{ role := "system", content := some (.text text) }] else []
  | .user, .text text => [{ role := "user", content := some (.text text) }]
  | .assistant, .text text => [{ role := "assistant", content := some (.text text) }]
  | .user, .blocks blocks => userMessages blocks
  | .assistant, .blocks blocks => [assistantMessage blocks]
  | .system, .blocks _ => []

/-- `oai_messages`. -/
def oaiMessages (request : LlmDriver.CompletionRequest) : List OaiMessage :=
  (match request.system with
    | some system => [{ role := "system", content := some (.text system) }]
    | none => []) ++
    request.messages.flatMap (convertMessage request.system)

/-! ### What is said -/

/-- What a history says, in the form of the wire: texts and images of the user, results, and texts
and calls of the assistant. -/
inductive Said
  | text (text : String)
  | image (url : String)
  | result (toolUseId content : String)
  | answer (text : String)
  | call (id name arguments : String)

/-- What a block of the user says. -/
def userSaid? : ContentBlock → Option Said
  | .text text => some (.text text)
  | .image mediaType data => some (.image (dataUrl mediaType data))
  | .toolResult toolUseId content _ => some (.result toolUseId content)
  | _ => none

/-- A result. -/
def resultSaid? : ContentBlock → Option Said
  | .toolResult toolUseId content _ => some (.result toolUseId content)
  | _ => none

/-- A call. -/
def callSaid? : ContentBlock → Option Said
  | .toolUse id name input => some (.call id name input.toString)
  | _ => none

/-- What a message of the history says.  The texts of the assistant make up one text, and the calls
stand behind it. -/
def saidIn (m : Message) : List Said :=
  match m.role with
  | .user => m.blocks.filterMap userSaid?
  | .assistant =>
    (nonEmpty (fun texts => Said.answer (String.join texts))
      (m.blocks.filterMap blockText?)).toList ++
      m.blocks.filterMap callSaid? ++ m.blocks.filterMap resultSaid?
  | .system => m.blocks.filterMap resultSaid?

/-- A part of the user's. -/
def OaiContentPart.said : OaiContentPart → Said
  | .text s => .text s
  | .imageUrl url => .image url

/-- A call of the assistant's. -/
def OaiToolCall.said (call : OaiToolCall) : Said :=
  .call call.id call.function.name call.function.arguments

/-- What a message of the wire says. -/
def OaiMessage.said (m : OaiMessage) : List Said :=
  match m.role, m.content with
  | "user", some (.text s) => [.text s]
  | "user", some (.parts parts) => parts.map OaiContentPart.said
  | "tool", some (.text s) => [.result (m.toolCallId.getD "") s]
  | "assistant", some (.text s) => .answer s :: (m.toolCalls.getD []).map OaiToolCall.said
  | "assistant", none => (m.toolCalls.getD []).map OaiToolCall.said
  | _, _ => []

section Roles

variable (s : String) (calls : Option (List OaiToolCall)) (id thought : Option String)

@[simp]
theorem said_system : OaiMessage.said ⟨"system", some (.text s), calls, id, thought⟩ = [] := rfl

@[simp]
theorem said_user : OaiMessage.said ⟨"user", some (.text s), calls, id, thought⟩ = [.text s] := rfl

@[simp]
theorem said_user_parts (parts : List OaiContentPart) :
    OaiMessage.said ⟨"user", some (.parts parts), calls, id, thought⟩ =
      parts.map OaiContentPart.said := rfl

@[simp]
theorem said_assistant : OaiMessage.said ⟨"assistant", some (.text s), calls, id, thought⟩ =
    .answer s :: (calls.getD []).map OaiToolCall.said := rfl

@[simp]
theorem said_assistant_none : OaiMessage.said ⟨"assistant", none, calls, id, thought⟩ =
    (calls.getD []).map OaiToolCall.said := rfl

end Roles

/-- The request says all that the history says, in its order. -/
def Delivers (request : LlmDriver.CompletionRequest) (wire : List OaiMessage) : Prop :=
  (request.messages.flatMap saidIn).Sublist (wire.flatMap OaiMessage.said)

/-- The message holds no results, or it is the user's and holds neither texts nor images besides. -/
def Carries (m : Message) : Prop :=
  m.resultIds = [] ∨ m.role = .user ∧ m.blocks.filterMap contentPart? = []

instance (m : Message) : Decidable (Carries m) := inferInstanceAs (Decidable (_ ∨ _))

/-! ### One message -/

theorem said_toolMessages (blocks : List ContentBlock) :
    (blocks.filterMap toolMessage?).flatMap OaiMessage.said = blocks.filterMap resultSaid? := by
  induction blocks with
  | nil => rfl
  | cons b blocks ih =>
    cases b with
    | toolResult id content isError => exact congrArg (Said.result id content :: ·) ih
    | text | image | toolUse | thinking | unknown => exact ih

theorem resultSaid?_eq_nil {blocks : List ContentBlock} :
    blocks.filterMap resultSaid? = [] ↔ blocks.filterMap ContentBlock.resultId? = [] := by
  rw [List.filterMap_eq_nil_iff, List.filterMap_eq_nil_iff]
  refine forall₂_congr fun b _ => ?_
  cases b <;> simp [resultSaid?, ContentBlock.resultId?]

theorem toolMessage?_eq_nil {blocks : List ContentBlock} :
    blocks.filterMap toolMessage? = [] ↔ blocks.filterMap ContentBlock.resultId? = [] := by
  rw [List.filterMap_eq_nil_iff, List.filterMap_eq_nil_iff]
  refine forall₂_congr fun b _ => ?_
  cases b <;> simp [toolMessage?, ContentBlock.resultId?]

theorem resultSaid?_sublist (blocks : List ContentBlock) :
    (blocks.filterMap resultSaid?).Sublist (blocks.filterMap userSaid?) := by
  induction blocks with
  | nil => exact .slnil
  | cons b blocks ih =>
    cases b with
    | toolResult => exact ih.cons_cons _
    | text | image => exact ih.cons _
    | toolUse | thinking | unknown => exact ih

theorem length_userSaid (blocks : List ContentBlock) :
    (blocks.filterMap userSaid?).length =
      (blocks.filterMap resultSaid?).length + (blocks.filterMap contentPart?).length := by
  induction blocks with
  | nil => rfl
  | cons b blocks ih =>
    cases b with
    | toolUse | thinking | unknown => exact ih
    | text | image => exact congrArg (· + 1) ih
    | toolResult => exact (congrArg (· + 1) ih).trans (Nat.add_right_comm _ _ _)

theorem said_parts {blocks : List ContentBlock} (h : blocks.filterMap ContentBlock.resultId? = []) :
    (blocks.filterMap contentPart?).map OaiContentPart.said = blocks.filterMap userSaid? := by
  rw [List.map_filterMap]
  refine List.filterMap_congr fun b hb => ?_
  have hres := List.filterMap_eq_nil_iff.1 h b hb
  cases b <;> first | rfl | simp [ContentBlock.resultId?] at hres

/-- The blocks of the user without results are carried. -/
theorem said_userMessages_of_nil {blocks : List ContentBlock}
    (h : blocks.filterMap ContentBlock.resultId? = []) :
    (userMessages blocks).flatMap OaiMessage.said = blocks.filterMap userSaid? := by
  rw [userMessages, toolMessage?_eq_nil.2 h, List.nil_append, ← said_parts h]
  by_cases hparts : blocks.filterMap contentPart? = []
  · simp [hparts]
  · rw [if_pos ⟨hparts, rfl⟩]
    simp

/-- Of blocks with results, the results are carried. -/
theorem said_userMessages_of_ne {blocks : List ContentBlock}
    (h : blocks.filterMap ContentBlock.resultId? ≠ []) :
    (userMessages blocks).flatMap OaiMessage.said = blocks.filterMap resultSaid? := by
  rw [userMessages, if_neg fun hnil => h (toolMessage?_eq_nil.1 hnil.2), List.append_nil]
  exact said_toolMessages blocks

theorem said_assistantMessage (blocks : List ContentBlock) :
    (assistantMessage blocks).said =
      (nonEmpty (fun texts => Said.answer (String.join texts))
        (blocks.filterMap blockText?)).toList ++ blocks.filterMap callSaid? := by
  have hcalls : ((nonEmpty id (blocks.filterMap oaiCall?)).getD []).map OaiToolCall.said =
      blocks.filterMap callSaid? := by
    have hmap : (blocks.filterMap oaiCall?).map OaiToolCall.said = blocks.filterMap callSaid? := by
      rw [List.map_filterMap]
      refine List.filterMap_congr fun b _ => ?_
      cases b <;> rfl
    unfold nonEmpty
    split_ifs with hnil
    · rw [← hmap, List.isEmpty_iff.1 hnil]
      rfl
    · exact hmap
  rw [← hcalls]
  unfold assistantMessage
  by_cases htexts : blocks.filterMap blockText? = []
  · simp [htexts, nonEmpty]
  · simp [htexts, nonEmpty]

/-- What the request says of a message, the message says; and it is all of it if and only if the
message is carried. -/
theorem said_convertMessage (system : Option String) (m : Message) :
    ((convertMessage system m).flatMap OaiMessage.said).Sublist (saidIn m) ∧
      ((saidIn m).length ≤ ((convertMessage system m).flatMap OaiMessage.said).length ↔
        Carries m) := by
  -- a message without results is carried as it is
  have hsame : (convertMessage system m).flatMap OaiMessage.said = saidIn m → m.resultIds = [] →
      ((convertMessage system m).flatMap OaiMessage.said).Sublist (saidIn m) ∧
        ((saidIn m).length ≤ ((convertMessage system m).flatMap OaiMessage.said).length ↔
          Carries m) := by
    intro heq hres
    rw [heq]
    exact ⟨.refl _, fun _ => Or.inl hres, fun _ => le_rfl⟩
  obtain ⟨role, s | blocks⟩ := m
  · refine hsame ?_ rfl
    cases role with
    | user | assistant => simp [convertMessage, saidIn, userSaid?, blockText?, nonEmpty,
        callSaid?, resultSaid?]
    | system => cases system <;> simp [convertMessage, saidIn, resultSaid?]
  · by_cases hres : blocks.filterMap ContentBlock.resultId? = []
    · refine hsame ?_ hres
      have hnone : blocks.filterMap resultSaid? = [] := resultSaid?_eq_nil.2 hres
      cases role with
      | user => exact said_userMessages_of_nil hres
      | assistant => simp [convertMessage, saidIn, said_assistantMessage, hnone]
      | system => simp [convertMessage, saidIn, hnone]
    · have hpos : 0 < (blocks.filterMap resultSaid?).length :=
        List.length_pos_iff.2 fun hnil => hres (resultSaid?_eq_nil.1 hnil)
      have hcarries : Carries ⟨role, .blocks blocks⟩ ↔
          role = .user ∧ blocks.filterMap contentPart? = [] := or_iff_right hres
      rw [hcarries]
      cases role with
      | user =>
        have hsaid : (convertMessage system ⟨.user, .blocks blocks⟩).flatMap OaiMessage.said =
            blocks.filterMap resultSaid? := said_userMessages_of_ne hres
        have hin : saidIn ⟨.user, .blocks blocks⟩ = blocks.filterMap userSaid? := rfl
        rw [hsaid, hin, length_userSaid, ← List.length_eq_zero_iff]
        refine ⟨resultSaid?_sublist blocks, fun hle => ⟨rfl, by omega⟩, fun h => by omega⟩
      | assistant =>
        have hsaid : (convertMessage system ⟨.assistant, .blocks blocks⟩).flatMap OaiMessage.said =
            (nonEmpty (fun texts => Said.answer (String.join texts))
              (blocks.filterMap blockText?)).toList ++ blocks.filterMap callSaid? := by
          simp [convertMessage, said_assistantMessage]
        have hin : saidIn ⟨.assistant, .blocks blocks⟩ =
            (nonEmpty (fun texts => Said.answer (String.join texts))
              (blocks.filterMap blockText?)).toList ++ blocks.filterMap callSaid? ++
                blocks.filterMap resultSaid? := rfl
        rw [hsaid, hin, List.length_append]
        exact ⟨List.sublist_append_left _ _, fun hle => by omega, fun h => by simp at h⟩
      | system =>
        have hin : saidIn ⟨.system, .blocks blocks⟩ = blocks.filterMap resultSaid? := rfl
        have hsaid : (convertMessage system ⟨.system, .blocks blocks⟩).flatMap OaiMessage.said =
          [] := rfl
        rw [hsaid, hin, List.length_nil]
        exact ⟨List.nil_sublist _, fun hle => by omega, fun h => by simp at h⟩

/-! ### The request -/

theorem said_oaiMessages (request : LlmDriver.CompletionRequest) :
    (oaiMessages request).flatMap OaiMessage.said = request.messages.flatMap fun m =>
      (convertMessage request.system m).flatMap OaiMessage.said := by
  rw [oaiMessages, List.flatMap_append, List.flatMap_assoc]
  cases request.system <;> simp

/-- **What the request delivers**: the whole history, if and only if each message with results is
the user's and holds neither texts nor images besides. -/
theorem oaiMessages_delivers_iff (request : LlmDriver.CompletionRequest) :
    Delivers request (oaiMessages request) ↔ ∀ m ∈ request.messages, Carries m := by
  rw [Delivers, said_oaiMessages]
  constructor
  · intro hsub
    have hlen := hsub.length_le
    rw [List.length_flatMap, List.length_flatMap] at hlen
    generalize request.messages = messages at hlen
    -- no message says more than the request says of it, so each says as much
    have hle : ∀ l : List Message,
        (l.map fun m => ((convertMessage request.system m).flatMap OaiMessage.said).length).sum ≤
          (l.map fun m => (saidIn m).length).sum := fun l =>
      List.sum_le_sum fun m _ => (said_convertMessage request.system m).1.length_le
    induction messages with
    | nil => simp
    | cons m messages ih =>
      rw [List.map_cons, List.map_cons, List.sum_cons, List.sum_cons] at hlen
      have hm := (said_convertMessage request.system m).1.length_le
      have hrest := hle messages
      rw [List.forall_mem_cons]
      exact ⟨(said_convertMessage request.system m).2.1 (by omega), ih (by omega)⟩
  · intro hall
    refine List.Sublist.flatMap_right request.messages fun m hm => ?_
    obtain ⟨hsub, hiff⟩ := said_convertMessage request.system m
    rw [hsub.eq_of_length_le (hiff.2 (hall m hm))]

/-! ### A message that answers and asks -/

/-- A question comes right after the results of a tool. -/
def interrupted : List Message :=
  [.user "run it", ⟨.assistant, .blocks [.toolUse "a" "run" .null]⟩,
    ⟨.user, .blocks [.toolResult "a" "ok" false]⟩, .user "and this?"]

/-- The repair puts both into one message. -/
theorem validateAndRepair_interrupted : SessionRepair.validateAndRepair interrupted =
    [.user "run it", ⟨.assistant, .blocks [.toolUse "a" "run" .null]⟩,
      ⟨.user, .blocks [.toolResult "a" "ok" false, .text "and this?"]⟩] := by
  rfl

/-- The question does not reach the provider. -/
theorem oaiMessages_delivers_fails :
    ¬ ∀ request : LlmDriver.CompletionRequest,
      (∃ h, request.messages = SessionRepair.validateAndRepair h) →
      Pairing.WellPaired request.messages → Delivers request (oaiMessages request) := by
  intro hall
  have hpaired : Pairing.WellPaired (SessionRepair.validateAndRepair interrupted) :=
    (SessionRepair.validateAndRepair_paired (h := interrupted) ⟨by decide, by decide⟩
      (by decide)).1
  have hdelivers := hall ⟨"model", SessionRepair.validateAndRepair interrupted, [], 100, 0, none,
    none, .text⟩ ⟨interrupted, rfl⟩ hpaired
  rw [Delivers, said_oaiMessages] at hdelivers
  have hlen := hdelivers.length_le
  dsimp only at hlen
  rw [validateAndRepair_interrupted] at hlen
  exact absurd hlen (by decide)

end OpenAI
end RustyHand
