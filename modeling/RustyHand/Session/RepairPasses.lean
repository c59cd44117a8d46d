import RustyHand.Session.Repair

/-!
# What each repair pass does

Every pass of the repair is described through what it does to four observations of a history:
the ids of its uses (`toolUseIds`), the messages that hold other blocks than results (`skeleton`),
its results for one id (`resultsOf id`), and the roles its uses and results stand under
(`Disciplined`).  The proofs about the whole repair cite these descriptions and never unfold a
pass.
-/

namespace RustyHand
namespace SessionRepair

open DescendingInsert

/-- The blocks of a history other than `ToolResult`s, in order. -/
def plain (messages : List Message) : List ContentBlock := messages.flatMap Message.plainBlocks

/-- The role and the blocks other than `ToolResult`s of a message, when it has any. -/
def spoken (m : Message) : List (Role × List ContentBlock) :=
  if m.plainBlocks.isEmpty then [] else [(m.role, m.plainBlocks)]

/-- The messages of a history that hold more than `ToolResult`s. -/
def skeleton (messages : List Message) : List (Role × List ContentBlock) :=
  messages.flatMap spoken

/-- The `ToolResult`s of a history for `id`, in order. -/
def resultsOf (id : String) (messages : List Message) : List ContentBlock :=
  messages.flatMap (Message.resultsFor id)

/-- Uses stand in assistant messages only, and results in user messages only. -/
structure Disciplined (messages : List Message) : Prop where
  uses : ∀ m ∈ messages, m.useIds ≠ [] → m.role = .assistant
  results : ∀ m ∈ messages, m.resultIds ≠ [] → m.role = .user

/-- No message is empty. -/
def NoEmpty (messages : List Message) : Prop := ∀ m ∈ messages, m.content.isEmpty = false

@[simp] theorem plain_nil : plain [] = [] := rfl
@[simp] theorem plain_cons (m : Message) (l : List Message) :
    plain (m :: l) = m.plainBlocks ++ plain l := rfl
@[simp] theorem plain_append (l l' : List Message) : plain (l ++ l') = plain l ++ plain l' :=
  List.flatMap_append
@[simp] theorem skeleton_nil : skeleton [] = [] := rfl
@[simp] theorem skeleton_cons (m : Message) (l : List Message) :
    skeleton (m :: l) = spoken m ++ skeleton l := rfl
@[simp] theorem skeleton_append (l l' : List Message) :
    skeleton (l ++ l') = skeleton l ++ skeleton l' := List.flatMap_append
@[simp] theorem resultsOf_nil (id : String) : resultsOf id [] = [] := rfl
@[simp] theorem resultsOf_cons (id : String) (m : Message) (l : List Message) :
    resultsOf id (m :: l) = m.resultsFor id ++ resultsOf id l := rfl
@[simp] theorem resultsOf_append (id : String) (l l' : List Message) :
    resultsOf id (l ++ l') = resultsOf id l ++ resultsOf id l' := List.flatMap_append
@[simp] theorem toolUseIds_nil : toolUseIds [] = [] := rfl
@[simp] theorem toolUseIds_cons (m : Message) (l : List Message) :
    toolUseIds (m :: l) = m.useIds ++ toolUseIds l := rfl
@[simp] theorem toolUseIds_append (l l' : List Message) :
    toolUseIds (l ++ l') = toolUseIds l ++ toolUseIds l' := List.flatMap_append

theorem spoken_congr {m n : Message} (hr : m.role = n.role) (hp : m.plainBlocks = n.plainBlocks) :
    spoken m = spoken n := by simp [spoken, hr, hp]

theorem plain_eq_skeleton (l : List Message) : plain l = (skeleton l).flatMap Prod.snd := by
  induction l with
  | nil => rfl
  | cons m l ih =>
    rw [plain_cons, skeleton_cons, List.flatMap_append, ih]
    cases hm : m.plainBlocks <;> simp [spoken, hm]

theorem mem_toolUseIds {id : String} {l : List Message} :
    id ∈ toolUseIds l ↔ ∃ m ∈ l, id ∈ m.useIds := List.mem_flatMap

theorem resultsOf_ne_nil {id : String} {l : List Message} :
    resultsOf id l ≠ [] ↔ ∃ m ∈ l, id ∈ m.resultIds := by
  simp only [resultsOf, Ne, List.flatMap_eq_nil_iff, not_forall,
    Message.mem_resultIds_iff_resultsFor, exists_prop]

theorem Disciplined.append {l l' : List Message} :
    Disciplined (l ++ l') ↔ Disciplined l ∧ Disciplined l' := by
  constructor
  · intro h
    exact ⟨⟨fun m hm => h.uses m (List.mem_append_left _ hm),
        fun m hm => h.results m (List.mem_append_left _ hm)⟩,
      ⟨fun m hm => h.uses m (List.mem_append_right _ hm),
        fun m hm => h.results m (List.mem_append_right _ hm)⟩⟩
  · rintro ⟨h, h'⟩
    refine ⟨fun m hm => ?_, fun m hm => ?_⟩ <;> rcases List.mem_append.1 hm with hm | hm
    · exact h.uses m hm
    · exact h'.uses m hm
    · exact h.results m hm
    · exact h'.results m hm

theorem Disciplined.cons {m : Message} {l : List Message} :
    Disciplined (m :: l) ↔
      ((m.useIds ≠ [] → m.role = .assistant) ∧ (m.resultIds ≠ [] → m.role = .user)) ∧
        Disciplined l := by
  constructor
  · intro h
    exact ⟨⟨h.uses m List.mem_cons_self, h.results m List.mem_cons_self⟩,
      ⟨fun n hn => h.uses n (List.mem_cons_of_mem _ hn),
        fun n hn => h.results n (List.mem_cons_of_mem _ hn)⟩⟩
  · rintro ⟨⟨hu, hr⟩, h⟩
    refine ⟨fun n hn => ?_, fun n hn => ?_⟩ <;> rcases List.mem_cons.1 hn with rfl | hn
    · exact hu
    · exact h.uses n hn
    · exact hr
    · exact h.results n hn

/-! ### Retaining blocks and dropping empty messages -/

section Retain

variable {p : ContentBlock → Bool} (hp : ∀ b, b.resultId? = none → p b = true)

@[simp] theorem retainBlocks_role (p : ContentBlock → Bool) (m : Message) :
    (retainBlocks p m).role = m.role := by
  unfold retainBlocks
  split <;> rfl

include hp

/-- A filter that only looks at results acts on the blocks a message stands for. -/
theorem retainBlocks_blocks (m : Message) : (retainBlocks p m).blocks = m.blocks.filter p := by
  obtain ⟨r, c⟩ := m
  cases c with
  | text s => simp [retainBlocks, Message.blocks, hp (.text s) rfl]
  | blocks bs => rfl

theorem retainBlocks_useIds (m : Message) : (retainBlocks p m).useIds = m.useIds := by
  unfold Message.useIds
  rw [retainBlocks_blocks hp, List.filterMap_filter]
  refine List.filterMap_congr fun b _ => ?_
  cases hb : p b with
  | true => simp
  | false =>
    have hres : b.resultId? ≠ none := fun h => by simp [hp b h] at hb
    cases hu : b.useId? with
    | none => simp
    | some id => exact absurd (ContentBlock.resultId?_of_useId? hu) hres

theorem retainBlocks_plainBlocks (m : Message) :
    (retainBlocks p m).plainBlocks = m.plainBlocks := by
  unfold Message.plainBlocks
  rw [retainBlocks_blocks hp, List.filter_filter]
  refine List.filter_congr fun b _ => ?_
  cases hb : b.resultId? with
  | none => simp [ContentBlock.isToolResult, hb, hp b hb]
  | some id => simp [ContentBlock.isToolResult, hb]

theorem retainBlocks_resultsFor (id : String) (m : Message) :
    (retainBlocks p m).resultsFor id = (m.resultsFor id).filter p := by
  unfold Message.resultsFor
  rw [retainBlocks_blocks hp, List.filter_filter, List.filter_filter]
  exact List.filter_congr fun b _ => Bool.and_comm _ _

theorem retainBlocks_resultIds_subset (m : Message) :
    (retainBlocks p m).resultIds ⊆ m.resultIds := by
  intro id hid
  rw [Message.mem_resultIds, retainBlocks_blocks hp] at hid
  obtain ⟨b, hb, hbid⟩ := hid
  exact Message.mem_resultIds.2 ⟨b, List.mem_of_mem_filter hb, hbid⟩

end Retain

theorem useIds_of_isEmpty {m : Message} (h : m.content.isEmpty = true) : m.useIds = [] := by
  obtain ⟨r, c⟩ := m
  cases c with
  | text s => rfl
  | blocks bs =>
    obtain rfl : bs = [] := by simpa [MessageContent.isEmpty] using h
    rfl

theorem resultsFor_of_isEmpty {m : Message} (h : m.content.isEmpty = true) (id : String) :
    m.resultsFor id = [] := by
  obtain ⟨r, c⟩ := m
  cases c with
  | text s => rfl
  | blocks bs =>
    obtain rfl : bs = [] := by simpa [MessageContent.isEmpty] using h
    rfl

theorem isEmpty_of_useIds {m : Message} {id : String} (h : id ∈ m.useIds) :
    m.content.isEmpty = false := by
  rw [← Bool.not_eq_true]
  intro he
  simp [useIds_of_isEmpty he] at h

/-- Filtering messages on which `f` has nothing to say leaves `f` alone. -/
theorem flatMap_filter_of_nil {β : Type*} {f : Message → List β} {q : Message → Bool}
    {l : List Message} (h : ∀ m ∈ l, q m = false → f m = []) :
    (l.filter q).flatMap f = l.flatMap f := by
  induction l with
  | nil => rfl
  | cons m l ih =>
    have ih := ih fun n hn => h n (List.mem_cons_of_mem m hn)
    cases hm : q m with
    | true => simp [hm, ih]
    | false => simp [hm, ih, h m List.mem_cons_self hm]

@[simp] theorem toolUseIds_retainNonEmpty (l : List Message) :
    toolUseIds (retainNonEmpty l) = toolUseIds l :=
  flatMap_filter_of_nil fun m _ hm => useIds_of_isEmpty (by simpa using hm)

@[simp] theorem resultsOf_retainNonEmpty (id : String) (l : List Message) :
    resultsOf id (retainNonEmpty l) = resultsOf id l :=
  flatMap_filter_of_nil fun m _ hm => resultsFor_of_isEmpty (by simpa using hm) id

@[simp] theorem retainNonEmpty_append (l l' : List Message) :
    retainNonEmpty (l ++ l') = retainNonEmpty l ++ retainNonEmpty l' := List.filter_append ..

theorem retainNonEmpty_cons_of_useIds {m : Message} {id : String} (h : id ∈ m.useIds)
    (l : List Message) : retainNonEmpty (m :: l) = m :: retainNonEmpty l :=
  List.filter_cons_of_pos (by simp [isEmpty_of_useIds h])

/-- Dropping messages without blocks drops nothing spoken; an empty text would be a block. -/
theorem skeleton_retainNonEmpty {l : List Message} (h : ∀ m ∈ l, m.content ≠ .text "") :
    skeleton (retainNonEmpty l) = skeleton l := by
  refine flatMap_filter_of_nil fun m hm hq => ?_
  obtain ⟨r, c⟩ := m
  cases c with
  | text s =>
    obtain rfl : s = "" := by simpa [MessageContent.isEmpty] using hq
    exact absurd rfl (h _ hm)
  | blocks bs =>
    obtain rfl : bs = [] := by simpa [MessageContent.isEmpty] using hq
    rfl

theorem retainBlocks_content_text {p : ContentBlock → Bool} {m : Message} {s : String}
    (h : (retainBlocks p m).content = .text s) : m.content = .text s := by
  obtain ⟨r, c⟩ := m
  cases c with
  | text t => exact h
  | blocks bs => simp [retainBlocks] at h

theorem NoEmpty.content_ne {l : List Message} (h : NoEmpty l) {m : Message} (hm : m ∈ l) :
    m.content ≠ .text "" := by
  intro he
  have := h m hm
  simp [he, MessageContent.isEmpty] at this

theorem noEmpty_retainNonEmpty (l : List Message) : NoEmpty (retainNonEmpty l) := by
  intro m hm
  simpa using (List.mem_filter.1 hm).2

theorem retainNonEmpty_of_noEmpty {l : List Message} (h : NoEmpty l) : retainNonEmpty l = l :=
  List.filter_eq_self.2 fun m hm => by simp [h m hm]

theorem Disciplined.sublist {l l' : List Message} (h : Disciplined l) (hl : l'.Sublist l) :
    Disciplined l' :=
  ⟨fun m hm => h.uses m (hl.subset hm), fun m hm => h.results m (hl.subset hm)⟩

/-- A map that keeps roles and uses and adds no results keeps the discipline. -/
theorem Disciplined.retain {p : ContentBlock → Bool} (hp : ∀ b, b.resultId? = none → p b = true)
    {m : Message} (hu : m.useIds ≠ [] → m.role = .assistant)
    (hr : m.resultIds ≠ [] → m.role = .user) :
    ((retainBlocks p m).useIds ≠ [] → (retainBlocks p m).role = .assistant) ∧
      ((retainBlocks p m).resultIds ≠ [] → (retainBlocks p m).role = .user) := by
  rw [retainBlocks_role, retainBlocks_useIds hp]
  refine ⟨hu, fun hne => hr ?_⟩
  exact fun h => hne (List.eq_nil_of_subset_nil (h ▸ retainBlocks_resultIds_subset hp m))

/-! ### Orphans -/

theorem hasUse_of_plain (ids : List String) (b : ContentBlock) (h : b.resultId? = none) :
    hasUse ids b = true := by simp [hasUse, h]

theorem toolUseIds_removeOrphans (h : List Message) :
    toolUseIds (removeOrphans h) = toolUseIds h := by
  rw [removeOrphans, toolUseIds_retainNonEmpty]
  simp only [toolUseIds, List.flatMap_map]
  exact List.flatMap_congr fun m _ => retainBlocks_useIds (hasUse_of_plain _) m

theorem resultsOf_removeOrphans {h : List Message} {id : String} (hid : id ∈ toolUseIds h) :
    resultsOf id (removeOrphans h) = resultsOf id h := by
  rw [removeOrphans, resultsOf_retainNonEmpty]
  simp only [resultsOf, List.flatMap_map]
  refine List.flatMap_congr fun m _ => ?_
  rw [retainBlocks_resultsFor (hasUse_of_plain _), List.filter_eq_self]
  intro b hb
  have hb : b.resultId? = some id := ContentBlock.answers_iff.1 (List.mem_filter.1 hb).2
  simp [hasUse, hb, hid]

theorem mem_toolUseIds_of_removeOrphans {h : List Message} {m : Message} {id : String}
    (hm : m ∈ removeOrphans h) (hid : id ∈ m.resultIds) : id ∈ toolUseIds h := by
  obtain ⟨n, -, rfl⟩ := List.mem_map.1 (List.mem_filter.1 hm).1
  rw [Message.mem_resultIds, retainBlocks_blocks (hasUse_of_plain _)] at hid
  obtain ⟨b, hb, hbid⟩ := hid
  simpa [hasUse, hbid] using (List.mem_filter.1 hb).2

theorem noEmpty_removeOrphans (h : List Message) : NoEmpty (removeOrphans h) :=
  noEmpty_retainNonEmpty _

theorem disciplined_removeOrphans {h : List Message} (hd : Disciplined h) :
    Disciplined (removeOrphans h) := by
  suffices hmap : Disciplined (h.map (retainBlocks (hasUse (toolUseIds h)))) from
    hmap.sublist List.filter_sublist
  constructor <;> intro m hm <;> obtain ⟨n, hn, rfl⟩ := List.mem_map.1 hm
  · exact (Disciplined.retain (hasUse_of_plain _) (hd.uses n hn) (hd.results n hn)).1
  · exact (Disciplined.retain (hasUse_of_plain _) (hd.uses n hn) (hd.results n hn)).2

/-- The messages phase 2 drops: no text, or only orphaned results. -/
def droppedAsEmpty (ids : List String) (m : Message) : Bool :=
  (retainBlocks (hasUse ids) m).content.isEmpty

theorem skeleton_removeOrphans (h : List Message) :
    skeleton (removeOrphans h) = skeleton (h.filter fun m => !droppedAsEmpty (toolUseIds h) m) := by
  rw [removeOrphans, retainNonEmpty, List.filter_map, skeleton, List.flatMap_map]
  exact List.flatMap_congr fun m _ =>
    spoken_congr (retainBlocks_role ..) (retainBlocks_plainBlocks (hasUse_of_plain _) m)

/-! ### Placing results behind a message -/

/-- Put `bs` in front of `l`: behind the content of a user message at its head, else as a new
user message. -/
def attach (bs : List ContentBlock) : List Message → List Message
  | [] => [⟨.user, .blocks bs⟩]
  | n :: l =>
    if n.role = .user then ⟨.user, .blocks (n.blocks ++ bs)⟩ :: l
    else ⟨.user, .blocks bs⟩ :: n :: l

theorem attach_user {n : Message} (hn : n.role = .user) (bs : List ContentBlock)
    (l : List Message) : attach bs (n :: l) = ⟨.user, .blocks (n.blocks ++ bs)⟩ :: l := if_pos hn

theorem attach_not_user {n : Message} (hn : n.role ≠ .user) (bs : List ContentBlock)
    (l : List Message) : attach bs (n :: l) = ⟨.user, .blocks bs⟩ :: n :: l := if_neg hn

theorem placeResults_append (X l : List Message) (m : Message) (bs : List ContentBlock) :
    placeResults (X ++ m :: l) (X.length + 1) bs = X ++ m :: attach bs l := by
  have hget : (X ++ m :: l)[X.length + 1]? = l[0]? := by
    rw [List.getElem?_append_right (by omega)]
    simp
  unfold placeResults
  rw [hget]
  cases l with
  | nil => simp [attach]
  | cons n l =>
    have hsplit : X ++ m :: n :: l = (X ++ [m]) ++ n :: l := by simp
    have hlen : X.length + 1 = (X ++ [m]).length := by simp
    by_cases hn : n.role = .user
    · simp only [List.getElem?_cons_zero, hn, if_true, attach_user hn]
      rw [hsplit, hlen, List.set_append_right _ _ le_rfl]
      simp
    · simp only [List.getElem?_cons_zero, hn, if_false, attach_not_user hn]
      rw [hsplit, hlen, insertIdx_append_self]
      simp

/-- **The insertion loop.**  Working through positions in descending order, each round puts its
blocks behind a message that still stands behind the initial prefix. -/
theorem foldl_insertBehind {pos : ℕ → Option ℕ} {ins : ℕ → List ContentBlock}
    {l₀ : List Message} {P : List ℕ → List Message → Prop} {ks : List ℕ}
    (hpos : ∀ a ∈ ks, ∃ X m R, pos a = some X.length ∧ l₀ = X ++ m :: R)
    (hmono : ks.Pairwise fun a b => (pos b).getD 0 ≤ (pos a).getD 0) (h0 : P ks l₀)
    (hstep : ∀ a ks' X m R₀ R, (a :: ks') <:+ ks → pos a = some X.length → l₀ = X ++ m :: R₀ →
      P (a :: ks') (X ++ m :: R) → P ks' (X ++ m :: attach (ins a) R)) :
    P [] (ks.foldl (insertBehind pos ins) l₀) := by
  refine foldl_behind hmono h0 ?_
  intro a ks' l hsuf hpre hP
  obtain ⟨X, m, R₀, ha, rfl⟩ := hpos a (hsuf.subset List.mem_cons_self)
  -- the prefix condition says that `l` still starts with `X` and `m`
  have hl : l = X ++ m :: l.drop (X.length + 1) := by
    have h := List.take_append_drop (X.length + 1) l
    simp only [ha, Option.getD_some, List.take_append, Nat.add_sub_cancel_left,
      List.take_of_length_le (Nat.le_succ X.length)] at hpre
    rw [hpre] at h
    simpa using h.symm
  have hround : insertBehind pos ins l a = X ++ m :: attach (ins a) (l.drop (X.length + 1)) := by
    conv_lhs => rw [hl]
    simp only [insertBehind, ha]
    exact placeResults_append ..
  refine ⟨?_, ?_⟩
  · rw [hround, ha, hl]
    simp [List.take_append]
  · rw [hround]
    exact hstep a ks' X m R₀ _ hsuf ha rfl (hl ▸ hP)

section Attach

variable {bs : List ContentBlock} (hbs : ∀ b ∈ bs, b.isToolResult = true)
include hbs

theorem useIds_of_results : bs.filterMap ContentBlock.useId? = [] := by
  rw [List.filterMap_eq_nil_iff]
  intro b hb
  have := hbs b hb
  cases b <;> simp_all [ContentBlock.isToolResult, ContentBlock.resultId?, ContentBlock.useId?]

theorem toolUseIds_attach (l : List Message) : toolUseIds (attach bs l) = toolUseIds l := by
  have h := useIds_of_results hbs
  cases l with
  | nil => simp [attach, Message.useIds, h]
  | cons n l =>
    by_cases hn : n.role = .user
    · simp [attach_user hn, Message.useIds, h]
    · simp [attach_not_user hn, Message.useIds, h]

theorem skeleton_attach (l : List Message) : skeleton (attach bs l) = skeleton l := by
  have h : bs.filter (fun b => !b.isToolResult) = [] :=
    List.filter_eq_nil_iff.2 fun b hb => by simp [hbs b hb]
  cases l with
  | nil => simp [attach, spoken, Message.plainBlocks, h]
  | cons n l =>
    by_cases hn : n.role = .user
    · simp [attach_user hn, spoken, Message.plainBlocks, h, hn]
    · simp [attach_not_user hn, spoken, Message.plainBlocks, h]

theorem disciplined_attach {l : List Message} (hl : Disciplined l) :
    Disciplined (attach bs l) := by
  have h := useIds_of_results hbs
  have hnew : ∀ l', Disciplined l' → Disciplined (⟨.user, .blocks bs⟩ :: l') := fun l' hl' =>
    Disciplined.cons.2 ⟨⟨fun hu => absurd h hu, fun _ => rfl⟩, hl'⟩
  cases l with
  | nil => exact hnew [] hl
  | cons n l =>
    obtain ⟨⟨hu, -⟩, hl'⟩ := Disciplined.cons.1 hl
    by_cases hn : n.role = .user
    · rw [attach_user hn]
      refine Disciplined.cons.2 ⟨⟨fun hne => ?_, fun _ => rfl⟩, hl'⟩
      rw [Message.useIds, Message.blocks_mk_blocks, List.filterMap_append, h,
        List.append_nil] at hne
      exact absurd (hn.symm.trans (hu hne)) (by decide)
    · rw [attach_not_user hn]
      exact hnew _ hl

end Attach

theorem resultsOf_attach_of_not {bs : List ContentBlock} {id : String}
    (hbs : ∀ b ∈ bs, b.answers id = false) (l : List Message) :
    resultsOf id (attach bs l) = resultsOf id l := by
  have h : bs.filter (ContentBlock.answers id) = [] :=
    List.filter_eq_nil_iff.2 fun b hb => by simp [hbs b hb]
  cases l with
  | nil => simp [attach, Message.resultsFor, h]
  | cons n l =>
    by_cases hn : n.role = .user
    · simp [attach_user hn, Message.resultsFor, h]
    · simp [attach_not_user hn, Message.resultsFor, h]

theorem resultsOf_attach_of_no_user {bs : List ContentBlock} {id : String} {R : List Message}
    (h : ∀ n ∈ R, n.role = .user → n.resultsFor id = []) :
    resultsOf id (attach bs R) = bs.filter (ContentBlock.answers id) ++ resultsOf id R := by
  cases R with
  | nil => simp [attach, Message.resultsFor]
  | cons n R =>
    by_cases hr : n.role = .user
    · have hnil := h n List.mem_cons_self hr
      rw [attach_user hr, resultsOf_cons, resultsOf_cons, hnil]
      simp only [Message.resultsFor, Message.blocks_mk_blocks, List.filter_append] at hnil ⊢
      rw [hnil]
      rfl
    · rw [attach_not_user hr]
      simp [Message.resultsFor]

theorem content_ne_attach {bs : List ContentBlock} {l : List Message}
    (hl : ∀ m ∈ l, m.content ≠ .text "") : ∀ m ∈ attach bs l, m.content ≠ .text "" := by
  cases l with
  | nil => simp [attach]
  | cons n l =>
    by_cases hn : n.role = .user
    · simp only [attach_user hn, List.mem_cons]
      rintro m (rfl | hm)
      · simp
      · exact hl m (List.mem_cons_of_mem n hm)
    · simp only [attach_not_user hn, List.mem_cons]
      rintro m (rfl | hm)
      · simp
      · exact hl m (List.mem_cons.2 hm)

end SessionRepair
end RustyHand
