import RustyHand.Session.AgentLoop
import RustyHand.Session.Pairing

/-!
# Pruning heartbeats and the pairs of a history

`prune_heartbeat_turns` of `rusty-hand-runtime/src/session_repair.rs` deletes the user message in
front of a `NO_REPLY`, whatever it carries.

* `resultsFollow_retain`, `answered_retain_iff`: what is left of the pairs when messages without
  uses go;
* `mem_toRemove_iff`: the messages that are deleted;
* `prunesWell_iff`: when the history stays paired.
-/

namespace RustyHand
namespace AgentLoop

open DescendingErase Pairing

variable {messages l : List Message} {keep n : ℕ} {p : ℕ → Bool} {prev : List String}

/-! ### Messages that go -/

/-- The messages that are not kept. -/
def Dropped (p : ℕ → Bool) (n : ℕ) (l : List Message) (m : Message) : Prop :=
  ∃ i, l[i]? = some m ∧ p (n + i) = false

theorem dropped_cons_iff {m m' : Message} : Dropped p n (m :: l) m' ↔
    (p n = false ∧ m' = m) ∨ Dropped p (n + 1) l m' := by
  constructor
  · rintro ⟨i, hi, hp⟩
    cases i with
    | zero => exact .inl ⟨hp, (Option.some.inj hi).symm⟩
    | succ i => exact .inr ⟨i, hi, by rwa [Nat.add_right_comm]⟩
  · rintro (⟨hp, rfl⟩ | ⟨i, hi, hp⟩)
    · exact ⟨0, rfl, hp⟩
    · exact ⟨i + 1, hi, by rwa [Nat.add_right_comm] at hp⟩

/-- If messages without uses go, results stay behind their uses. -/
theorem resultsFollow_retain (h : ResultsFollow prev l)
    (huses : ∀ m, Dropped p n l m → m.useIds = []) : ResultsFollow prev (retain p n l) := by
  induction l generalizing n prev with
  | nil => trivial
  | cons m l ih =>
    have hrest := ih h.2 fun m' hm' => huses m' (dropped_cons_iff.2 (.inr hm'))
    rw [retain_cons]
    cases hp : p n with
    | true => exact ⟨h.1, hrest⟩
    | false =>
      rw [huses m (dropped_cons_iff.2 (.inl ⟨hp, rfl⟩))] at hrest
      exact hrest.mono fun id hid => absurd hid List.not_mem_nil

/-- If messages without uses go, the uses stay answered exactly if these messages have no results
either. -/
theorem answered_retain_iff (h : Answered prev l) (hfollow : ResultsFollow prev l)
    (huses : ∀ m, Dropped p n l m → m.useIds = []) :
    Answered prev (retain p n l) ↔ ∀ m, Dropped p n l m → m.resultIds = [] := by
  induction l generalizing n prev with
  | nil => exact iff_of_true h fun m ⟨i, hi, _⟩ => by cases hi
  | cons m l ih =>
    have huses' : ∀ m', Dropped p (n + 1) l m' → m'.useIds = [] := fun m' hm' =>
      huses m' (dropped_cons_iff.2 (.inr hm'))
    have hrest := ih h.2 hfollow.2 huses'
    rw [retain_cons]
    cases hp : p n with
    | true =>
      rw [if_pos rfl, answered_cons, hrest]
      refine ⟨fun hkept m' hm' => ?_, fun hall => ⟨h.1, fun m' hm' =>
        hall m' (dropped_cons_iff.2 (.inr hm'))⟩⟩
      rcases dropped_cons_iff.1 hm' with ⟨hdrop, -⟩ | hm'
      · rw [hp] at hdrop
        cases hdrop
      · exact hkept.2 m' hm'
    | false =>
      have hm := huses m (dropped_cons_iff.2 (.inl ⟨hp, rfl⟩))
      rw [if_neg Bool.false_ne_true]
      rw [hm] at hrest
      constructor
      · intro hanswered
        have hprev : prev = [] := by
          cases hkept : retain p (n + 1) l with
          | nil =>
            rw [hkept] at hanswered
            exact hanswered
          | cons x kept =>
            -- the first message that is kept has no results, since nothing before it is used
            have hfollow' := resultsFollow_retain hfollow.2 huses'
            rw [hm, hkept] at hfollow'
            rw [hkept] at hanswered
            rw [List.eq_nil_iff_forall_not_mem]
            exact fun id hid => List.not_mem_nil (hfollow'.1 id (hanswered.1 id hid))
        rw [hprev] at hanswered
        intro m' hm'
        rcases dropped_cons_iff.1 hm' with ⟨-, rfl⟩ | hm'
        · rw [List.eq_nil_iff_forall_not_mem]
          intro id hid
          have := hfollow.1 id hid
          rw [hprev] at this
          exact List.not_mem_nil this
        · exact hrest.1 hanswered m' hm'
      · intro hall
        have hprev : prev = [] := by
          rw [List.eq_nil_iff_forall_not_mem]
          intro id hid
          have := h.1 id hid
          rw [hall m (dropped_cons_iff.2 (.inl ⟨hp, rfl⟩))] at this
          exact List.not_mem_nil this
        rw [hprev]
        exact hrest.2 fun m' hm' => hall m' (dropped_cons_iff.2 (.inr hm'))

/-! ### Heartbeats -/

/-- A `NO_REPLY` that is old enough. -/
def IsHeartbeat (messages : List Message) (keep i : ℕ) : Prop :=
  i + keep < messages.length ∧ ∃ m, messages[i]? = some m ∧ m.role = .assistant ∧
    isNoReply m.content = true

theorem mem_heartbeatAt_iff {i k : ℕ} : k ∈ heartbeatAt messages i ↔
    (∃ m, messages[i]? = some m ∧ m.role = .assistant ∧ isNoReply m.content = true) ∧
      (k = i ∨ k + 1 = i ∧ ∃ m, messages[k]? = some m ∧ m.role = .user) := by
  unfold heartbeatAt
  cases hi : messages[i]? with
  | none => simp
  | some m =>
    simp only [Option.some.injEq, exists_eq_left']
    split_ifs with hm huser
    · obtain ⟨hpos, huser⟩ := huser
      obtain ⟨u, hu, hrole⟩ := Option.map_eq_some_iff.1 huser
      rw [List.mem_cons, List.mem_singleton, and_iff_right hm]
      refine or_congr_right ⟨?_, fun h => by omega⟩
      rintro rfl
      exact ⟨by omega, u, hu, hrole⟩
    · rw [List.mem_singleton, and_iff_right hm]
      refine ⟨Or.inl, ?_⟩
      rintro (rfl | ⟨rfl, u, hu, hrole⟩)
      · rfl
      · refine absurd ⟨Nat.succ_pos k, ?_⟩ huser
        rw [Nat.add_sub_cancel, hu, Option.map_some, hrole]
    · exact iff_of_false List.not_mem_nil fun h => hm h.1

/-- What is pruned: the old turns without a reply, and every user message in front of one. -/
theorem mem_toRemove_iff {k : ℕ} : k ∈ toRemove messages keep ↔
    IsHeartbeat messages keep k ∨ IsHeartbeat messages keep (k + 1) ∧
      ∃ m, messages[k]? = some m ∧ m.role = .user := by
  simp only [toRemove, List.mem_flatMap, List.mem_range, mem_heartbeatAt_iff]
  constructor
  · rintro ⟨i, hi, hbeat, rfl | ⟨rfl, huser⟩⟩
    · exact .inl ⟨by omega, hbeat⟩
    · exact .inr ⟨⟨by omega, hbeat⟩, huser⟩
  · rintro (⟨hk, hbeat⟩ | ⟨⟨hk, hbeat⟩, huser⟩)
    · exact ⟨k, by omega, hbeat, .inl rfl⟩
    · exact ⟨k + 1, by omega, hbeat, .inr ⟨rfl, huser⟩⟩

/-! ### What pruning does to the pairs -/

/-- Is the position spared? -/
def spared (messages : List Message) (keep k : ℕ) : Bool := decide (k ∉ toRemove messages keep)

theorem spared_eq_false_iff {k : ℕ} : spared messages keep k = false ↔
    k ∈ toRemove messages keep := by
  simp [spared]

theorem spared_of_recent {k : ℕ} (hk : messages.length - keep ≤ k) :
    spared messages keep k = true := by
  refine decide_eq_true fun hmem => ?_
  rcases mem_toRemove_iff.1 hmem with ⟨hlt, -⟩ | ⟨⟨hlt, -⟩, -⟩ <;> omega

/-- The history that pruning leaves. -/
theorem pruneHeartbeatTurns_eq_retain (messages : List Message) (keep : ℕ) :
    pruneHeartbeatTurns messages keep = retain (spared messages keep) 0 messages := by
  unfold pruneHeartbeatTurns
  split_ifs with hshort
  · exact (retain_all fun k _ _ => spared_of_recent (by omega)).symm
  · exact eraseAll_eq_retain ..

/-- Every use is answered in the next message, every result answers a use of the message before
it, and the last `keep` messages are there. -/
structure PrunesWell (messages : List Message) (keep : ℕ) : Prop where
  answered : Answered [] (pruneHeartbeatTurns messages keep)
  follow : ResultsFollow [] (pruneHeartbeatTurns messages keep)
  recent : messages.drop (messages.length - keep) <:+ pruneHeartbeatTurns messages keep

/-- The last messages stay, whatever the history is. -/
theorem drop_suffix_pruneHeartbeatTurns (messages : List Message) (keep : ℕ) :
    messages.drop (messages.length - keep) <:+ pruneHeartbeatTurns messages keep := by
  have hlength : (messages.take (messages.length - keep)).length = messages.length - keep := by
    rw [List.length_take]
    omega
  have hrecent : retain (spared messages keep)
      (0 + (messages.take (messages.length - keep)).length)
      (messages.drop (messages.length - keep)) = messages.drop (messages.length - keep) :=
    retain_all fun k hk _ => spared_of_recent (by omega)
  have hsplit := retain_append (spared messages keep) 0
    (messages.take (messages.length - keep)) (messages.drop (messages.length - keep))
  rw [hrecent, List.take_append_drop, ← pruneHeartbeatTurns_eq_retain] at hsplit
  exact ⟨_, hsplit.symm⟩

/-- A use in front of a turn without a reply would have no answer. -/
theorem useIds_eq_nil_of_before {l : List Message} {i : ℕ} {m m' : Message}
    (h : Answered prev l) (hi : l[i]? = some m) (hnext : l[i + 1]? = some m')
    (hm' : m'.resultIds = []) : m.useIds = [] := by
  induction l generalizing prev i with
  | nil => cases hi
  | cons x l ih =>
    cases i with
    | succ i => exact ih h.2 hi hnext
    | zero =>
      obtain rfl : x = m := Option.some.inj hi
      cases l with
      | nil => cases hnext
      | cons y l =>
        obtain rfl : y = m' := Option.some.inj hnext
        rw [List.eq_nil_iff_forall_not_mem]
        intro id hid
        have := h.2.1 id hid
        rw [hm'] at this
        exact List.not_mem_nil this

/-- **When pruning keeps a paired history paired**: exactly if no user message that goes with a
turn without a reply answers a use. -/
theorem prunesWell_iff (hanswered : Answered [] messages) (hfollow : ResultsFollow [] messages) :
    PrunesWell messages keep ↔ ∀ i m, IsHeartbeat messages keep (i + 1) →
      messages[i]? = some m → m.role = .user → m.resultIds = [] := by
  have hdropped : ∀ m, Dropped (spared messages keep) 0 messages m ↔
      ∃ k, messages[k]? = some m ∧ k ∈ toRemove messages keep := fun m => by
    simp only [Dropped, Nat.zero_add, spared_eq_false_iff]
  have huses : ∀ m, Dropped (spared messages keep) 0 messages m → m.useIds = [] := fun m hm => by
    obtain ⟨k, hk, hmem⟩ := (hdropped m).1 hm
    rcases mem_toRemove_iff.1 hmem with ⟨-, m', hm', -, hbeat⟩ | ⟨⟨-, m', hm', -, hbeat⟩, -⟩
    · rw [hk] at hm'
      exact Option.some.inj hm' ▸ (isNoReply_ids hbeat).1
    · exact useIds_eq_nil_of_before hanswered hk hm' (isNoReply_ids hbeat).2
  have hpairs := answered_retain_iff hanswered hfollow huses
  constructor
  · intro hwell i m hbeat hi hrole
    have := hwell.answered
    rw [pruneHeartbeatTurns_eq_retain, hpairs] at this
    exact this m ((hdropped m).2 ⟨i, hi, mem_toRemove_iff.2 (.inr ⟨hbeat, m, hi, hrole⟩)⟩)
  · intro hplain
    refine ⟨?_, ?_, drop_suffix_pruneHeartbeatTurns messages keep⟩
    · rw [pruneHeartbeatTurns_eq_retain, hpairs]
      intro m hm
      obtain ⟨k, hk, hmem⟩ := (hdropped m).1 hm
      rcases mem_toRemove_iff.1 hmem with ⟨-, m', hm', -, hbeat⟩ | ⟨hbeat, m', hm', hrole⟩
      · rw [hk] at hm'
        exact Option.some.inj hm' ▸ (isNoReply_ids hbeat).2
      · rw [hk] at hm'
        obtain rfl := Option.some.inj hm'
        exact hplain k m hbeat hk hrole
    · rw [pruneHeartbeatTurns_eq_retain]
      exact resultsFollow_retain hfollow huses

/-- A tool call whose result was not worth a reply. -/
def quietCall : List Message :=
  [.user "Check the disk.", ⟨.assistant, .blocks [.toolUse "a" "shell_exec" (.object [])]⟩,
    ⟨.user, .blocks [.toolResult "a" "12% used" false]⟩, .assistant "NO_REPLY"]

theorem not_prunesWell_quietCall :
    Answered [] quietCall ∧ ResultsFollow [] quietCall ∧ ¬ PrunesWell quietCall 0 := by
  have hpaired : Answered [] quietCall ∧ ResultsFollow [] quietCall := by decide
  have hlost : ¬ Answered [] (pruneHeartbeatTurns quietCall 0) := by decide
  exact ⟨hpaired.1, hpaired.2, fun h => hlost h.answered⟩

/-- A heartbeat behind the same call. -/
def quietHeartbeat : List Message :=
  [.user "Check the disk.", ⟨.assistant, .blocks [.toolUse "a" "shell_exec" (.object [])]⟩,
    ⟨.user, .blocks [.toolResult "a" "12% used" false]⟩, .assistant "12%.",
    .user "Heartbeat.", .assistant "NO_REPLY"]

theorem prunesWell_quietHeartbeat : PrunesWell quietHeartbeat 0 ↔
    ∀ i m, IsHeartbeat quietHeartbeat 0 (i + 1) → quietHeartbeat[i]? = some m →
      m.role = .user → m.resultIds = [] :=
  prunesWell_iff (by decide) (by decide)

end AgentLoop
end RustyHand
