import RustyHand.Kernel.Turn
import RustyHand.Lib.SharedRecord
import RustyHand.Session.RepairOutcome

/-!
# A session shared by turns and compactions

`rusty-hand-kernel/src/kernel.rs`: `execute_llm_agent` and `send_message_streaming` load the
session, run the agent loop, which saves it now and then, and return; `compact_agent_session` loads
it, has the messages but the last ten summed up, stores the summary in the canonical session, and
saves the last ten, repaired.  No save looks at what is saved already, so runs are those of a
`SharedRecord`.

* `Task`, `Task.saves`: what a turn or a compaction saves, given what it loaded;
* `Copy`: a task under way;
* `Dropped`: what a save takes out of the session on purpose;
* `kept_of_freshRun`: what a turn that returns said is lost to stale saves only.
-/

namespace RustyHand
namespace SharedSession

open SharedRecord SessionRepair AgentLoop

/-- `CompactionConfig::default().threshold`. -/
def compactionThreshold : ℕ := 30

/-- `CompactionConfig::default().keep_recent`. -/
def compactionKeepRecent : ℕ := 10

/-- The messages given to a compaction, if it takes place. -/
def toCompact (session : List Message) : List Message :=
  session.take (session.length - compactionKeepRecent)

/-- `kept_messages`. -/
def keptMessages (session : List Message) : List Message :=
  session.drop (session.length - compactionKeepRecent)

/-- A turn; or a compaction, which may fail before its summary is stored. -/
inductive Task
  | turn (t : Turn)
  | compaction (summary : Except String String)

/-- What the task saves, one after the other, after it loaded the session. -/
def Task.saves (session : List Message) : Task → List (List Message)
  | .turn t => (t.run session).saves
  | .compaction (.error _) => []
  | .compaction (.ok _) =>
    if compactionThreshold < session.length then [validateAndRepair (keptMessages session)] else []

/-- A task under way: what it loaded, what it saved, and what it will save. -/
structure Copy where
  task : Task
  history : List Message
  done : List (List Message)
  todo : List (List Message)
  saves_eq : task.saves history = done ++ todo

/-- The session as the task left it last. -/
def Copy.session (l : Copy) : List Message := l.done.getLast?.getD l.history

/-- The task saves once more, if it has anything left to save. -/
def Copy.save (l : Copy) : Option (List Message × Copy) :=
  match h : l.todo with
  | [] => none
  | s :: rest => some (s, ⟨l.task, l.history, l.done ++ [s], rest, by
      rw [l.saves_eq, h, List.append_assoc, List.singleton_append]⟩)

variable {ι : Type*}

def protocol (tasks : ι → Task) : Protocol ι Copy (List Message) where
  load i session := ⟨tasks i, session, [], (tasks i).saves session, rfl⟩
  save _ l := l.save

/-- A save of a task. -/
abbrev Saved (ι : Type*) := Write ι Copy (List Message)

/-- The turn has returned `Ok(reply)`. -/
def Copy.Returned (l : Copy) (t : Turn) (reply : String) : Prop :=
  l.task = .turn t ∧ l.todo = [] ∧ (t.run l.history).response = .ok reply

/-- The texts that a turn leaves in the session when it returns with this save: the user's message
and the reply. -/
def Owes (w : Saved ι) (r : Role) (text : String) : Prop :=
  ∃ t reply, w.left.Returned t reply ∧
    (r = .user ∧ text = t.userMessage ∨ r = .assistant ∧ text = reply)

/-- The save takes the text out of the session on purpose: a turn prunes it with a heartbeat turn,
or a compaction whose summary is stored was given it. -/
def Dropped (w : Saved ι) (r : Role) (text : String) : Prop :=
  match w.left.task with
  | .turn t => w.after = pruneHeartbeatTurns (w.left.history ++ t.messages) keepRecent ∧
      ∃ k ∈ toRemove (w.left.history ++ t.messages) keepRecent,
        Says (w.left.history ++ t.messages)[k]?.toList r text
  | .compaction _ => Says (toCompact w.left.history) r text

/-- The text is in the session, or some save took it out on purpose. -/
def Kept (writes : List (Saved ι)) (session : List Message) (r : Role) (text : String) : Prop :=
  Says session r text ∨ ∃ w ∈ writes, Dropped w r text

/-! ### What a turn saves -/

/-- Each save of a turn extends the one before, up to the whole, which is pruned at most at the
end. -/
def Chain (whole : List Message) : List Message → List (List Message) → Prop
  | _, [] => True
  | session, s :: rest =>
    session <+: whole ∧ (session <+: s ∨ s = pruneHeartbeatTurns whole keepRecent) ∧
      Chain whole s rest

/-- What the rounds of a turn save, and what it returns. -/
structure Good (history pushed : List Message) (saves : List (List Message)) (r : LoopResult) :
    Prop where
  chain : ∃ news, r.saves = saves ++ news ∧
    ∀ session, session <+: history ++ pushed → Chain (history ++ r.pushed) session news
  returned : ∀ reply, r.response = .ok reply →
    r.saves.getLast? = some r.messages ∧ (reply = "" ∨ .assistant reply ∈ r.pushed)
  pushed : pushed <+: r.pushed

theorem Good.weaken {history pushed pushed' : List Message} {saves : List (List Message)}
    {r : LoopResult} (h : Good history pushed' saves r) (hpre : pushed <+: pushed') :
    Good history pushed saves r := by
  obtain ⟨news, hnews, hchain⟩ := h.chain
  refine ⟨⟨news, hnews, fun session hsession => hchain session ?_⟩, h.returned,
    hpre.trans h.pushed⟩
  exact hsession.trans ((List.prefix_append_right_inj history).2 hpre)

/-- A turn that ends with a save of all that was pushed. -/
theorem good_last {history pushed pushed' : List Message} {saves : List (List Message)}
    {r : LoopResult} (hpre : pushed <+: pushed') (hpushed : r.pushed = pushed')
    (hsaves : r.saves = saves ++ [r.messages])
    (hmessages : r.messages = history ++ pushed' ∨
      r.messages = pruneHeartbeatTurns (history ++ pushed') keepRecent)
    (hreply : ∀ reply, r.response = .ok reply → reply = "" ∨ .assistant reply ∈ pushed') :
    Good history pushed saves r where
  chain := by
    refine ⟨[r.messages], hsaves, fun session hsession => ?_⟩
    have hwhole : session <+: history ++ pushed' :=
      hsession.trans ((List.prefix_append_right_inj history).2 hpre)
    rw [hpushed]
    refine ⟨hwhole, ?_, trivial⟩
    rcases hmessages with heq | heq
    · left
      rw [heq]
      exact hwhole
    · exact .inr heq
  returned := by
    intro reply hr
    rw [hsaves, hpushed]
    exact ⟨List.getLast?_concat .., hreply reply hr⟩
  pushed := hpushed ▸ hpre

theorem good_rounds (max : ℕ) (answers : ℕ → Answer) (history : List Message)
    (fuel iteration consecutive : ℕ) (pushed : List Message) (saves : List (List Message)) :
    Good history pushed saves
      (rounds max answers history fuel iteration consecutive pushed saves) := by
  induction fuel generalizing iteration consecutive pushed saves with
  | zero =>
    apply good_last (List.prefix_refl pushed) rfl rfl (.inl rfl)
    intro reply h
    cases h
  | succ fuel ih =>
    rw [rounds]
    cases answers iteration with
    | failed error =>
      refine ⟨⟨[], (List.append_nil _).symm, fun _ _ => trivial⟩, ?_, List.prefix_refl pushed⟩
      intro reply h
      cases h
    | endTurn text silent hasToolCalls =>
      dsimp only
      split_ifs
      · apply good_last (List.prefix_append ..) rfl rfl (.inl rfl)
        intro reply h
        cases h
        exact .inl rfl
      · exact ih ..
      · apply good_last (List.prefix_append ..) rfl rfl (.inr rfl)
        intro reply h
        cases h
        exact .inr (List.mem_concat_self)
    | toolUse blocks results =>
      cases results with
      | error error =>
        apply good_last (List.prefix_append ..) rfl rfl (.inl rfl)
        intro reply h
        cases h
      | ok results =>
        dsimp only
        have hpre : pushed <+: pushed ++ [⟨.assistant, .blocks blocks⟩] ++
            [⟨.user, .blocks results⟩] := by
          rw [List.append_assoc]
          exact List.prefix_append ..
        have hrest := ih (iteration + 1) 0
          (pushed ++ [⟨.assistant, .blocks blocks⟩] ++ [⟨.user, .blocks results⟩])
          (saves ++ [history ++
            (pushed ++ [⟨.assistant, .blocks blocks⟩] ++ [⟨.user, .blocks results⟩])])
        obtain ⟨news, hnews, hchain⟩ := hrest.chain
        refine ⟨⟨_ :: news, ?_, fun session hsession =>
          ⟨?_, .inl ?_, hchain _ (List.prefix_refl _)⟩⟩,
          hrest.returned, hpre.trans hrest.pushed⟩
        · rw [hnews, List.append_assoc]
          rfl
        · exact hsession.trans ((List.prefix_append_right_inj history).2 (hpre.trans hrest.pushed))
        · exact hsession.trans ((List.prefix_append_right_inj history).2 hpre)
    | maxTokens text =>
      dsimp only
      split_ifs
      · apply good_last (List.prefix_append ..) rfl rfl (.inl rfl)
        intro reply h
        cases h
        exact .inr (List.mem_concat_self)
      · exact (ih ..).weaken (List.prefix_append ..)

theorem good_run (t : Turn) (history : List Message) :
    Good history [.user t.userMessage] [] (t.run history) :=
  good_rounds ..

/-- What the next save of a chain makes of the last. -/
theorem Chain.save {whole session s : List Message} {done rest : List (List Message)}
    (h : Chain whole session (done ++ s :: rest)) :
    done.getLast?.getD session <+: whole ∧ (done.getLast?.getD session <+: s ∨
      s = pruneHeartbeatTurns whole keepRecent) := by
  induction done generalizing session with
  | nil => exact ⟨h.1, h.2.1⟩
  | cons d done ih =>
    have := ih h.2.2
    rw [List.getLast?_cons]
    exact this

/-! ### What one save keeps -/

theorem save_eq_some {l l' : Copy} {s : List Message} (h : l.save = some (s, l')) :
    l'.task = l.task ∧ l'.history = l.history ∧ l'.done = l.done ++ [s] ∧
        l.todo = s :: l'.todo := by
  unfold Copy.save at h
  split at h
  · cases h
  · next s' rest htodo =>
    cases h
    exact ⟨rfl, rfl, rfl, htodo⟩

theorem session_save {l l' : Copy} {s : List Message} (h : l.save = some (s, l')) :
    l'.session = s := by
  rw [Copy.session, (save_eq_some h).2.2.1, List.getLast?_concat]
  rfl

theorem says_prune {messages : List Message} {r : Role} {text : String} (keep : ℕ)
    (h : Says messages r text) : Says (pruneHeartbeatTurns messages keep) r text ∨
      ∃ k ∈ toRemove messages keep, Says messages[k]?.toList r text := by
  unfold pruneHeartbeatTurns
  split_ifs
  · exact .inl h
  · obtain ⟨m, hm, hsaid⟩ := h
    have hsplit : m ∈ DescendingErase.eraseAll (toRemove messages keep) messages ∨
        ∃ k ∈ toRemove messages keep, messages[k]? = some m := DescendingErase.mem_eraseAll hm
    rcases hsplit with hkept | ⟨k, hk, hget⟩
    · exact .inl ⟨m, hkept, hsaid⟩
    · refine .inr ⟨k, hk, m, ?_, hsaid⟩
      rw [hget]
      exact List.mem_singleton.2 rfl

theorem says_of_whole {w : Saved ι} (t : Turn) {r : Role} {text : String}
    (htask : w.left.task = .turn t) (h : Says (w.left.history ++ t.messages) r text)
    (hafter : w.after = pruneHeartbeatTurns (w.left.history ++ t.messages) keepRecent) :
    Says w.after r text ∨ Dropped w r text := by
  rcases says_prune keepRecent h with hkept | hpruned
  · left
    rw [hafter]
    exact hkept
  · right
    rw [Dropped, htask]
    exact ⟨hafter, hpruned⟩

/-- A save over the session as its task left it keeps what the session says, or drops it on
purpose. -/
theorem says_save {l l' : Copy} {s : List Message} (i : ι) (h : l.save = some (s, l')) {r : Role}
    {text : String} (htext : Lasting r text) (hsaid : Says l.session r text) :
    Says s r text ∨ Dropped ⟨i, l.session, s, l'⟩ r text := by
  obtain ⟨htask, hhistory, -, htodo⟩ := save_eq_some h
  have hsaves := l.saves_eq
  rw [htodo] at hsaves
  cases hl : l.task with
  | turn t =>
    rw [hl] at hsaves
    obtain ⟨news, hnews, hchain⟩ := (good_run t l.history).chain
    rw [List.nil_append] at hnews
    have hchain := hchain l.history (List.prefix_append ..)
    rw [← hnews, Turn.run_pushed, show (t.run l.history).saves = _ from hsaves] at hchain
    obtain ⟨hwhole, hprefix | hpruned⟩ := hchain.save
    · exact .inl (hsaid.mono fun m hm => hprefix.subset hm)
    · apply says_of_whole (w := ⟨i, l.session, s, l'⟩) t
      · rw [htask, hl]
      · rw [hhistory]
        exact hsaid.mono fun m hm => hwhole.subset hm
      · rw [hhistory]
        exact hpruned
  | compaction summary =>
    rw [hl] at hsaves
    cases summary with
    | error e => simp [Task.saves] at hsaves
    | ok summary =>
      rw [Task.saves] at hsaves
      split_ifs at hsaves with hlong
      · -- the only save of a compaction
        obtain ⟨hdone, hs⟩ : l.done = [] ∧ s = validateAndRepair (keptMessages l.history) := by
          cases hdone : l.done with
          | nil =>
            rw [hdone] at hsaves
            exact ⟨rfl, (List.cons.inj hsaves).1.symm⟩
          | cons d ds =>
            rw [hdone] at hsaves
            have := (List.cons.inj hsaves).2
            simp at this
        have hsession : l.session = l.history := by rw [Copy.session, hdone]; rfl
        rw [hsession, ← List.take_append_drop (l.history.length - compactionKeepRecent) l.history,
          says_append] at hsaid
        rcases hsaid with hgiven | hkept
        · right
          rw [Dropped, htask, hl, hhistory]
          exact hgiven
        · left
          rw [hs]
          exact says_validateAndRepair hkept htext
      · simp at hsaves

/-- The last save of a turn that returns has what it owes, or drops it on purpose. -/
theorem says_owed {w : Saved ι} {r : Role} {text : String} (hdone : w.left.session = w.after)
    (htext : Lasting r text) (howes : Owes w r text) : Says w.after r text ∨ Dropped w r text := by
  obtain ⟨t, reply, ⟨htask, htodo, hreply⟩, howed⟩ := howes
  have hgood := (good_run t w.left.history).returned reply hreply
  have hsaves := w.left.saves_eq
  rw [htask, htodo, List.append_nil] at hsaves
  have hafter : w.after = (t.run w.left.history).messages := by
    rw [← hdone, Copy.session, ← hsaves]
    rw [show (Task.turn t).saves w.left.history = (t.run w.left.history).saves from rfl, hgood.1]
    rfl
  have hwhole : Says (w.left.history ++ t.messages) r text := by
    rcases howed with ⟨rfl, rfl⟩ | ⟨rfl, rfl⟩
    · refine ⟨.user t.userMessage, List.mem_append_right _ List.mem_cons_self, rfl, ?_⟩
      exact List.mem_singleton.2 rfl
    · rcases hgood.2 with hnothing | hpushed
      · exact absurd hnothing htext.1
      · rw [Turn.run_pushed] at hpushed
        exact ⟨.assistant text, List.mem_append_right _ hpushed, rfl, List.mem_singleton.2 rfl⟩
  rw [Turn.run_messages] at hafter
  split_ifs at hafter
  · exact says_of_whole t htask hwhole hafter
  · left
    rw [hafter]
    exact hwhole

/-! ### Runs -/

section Runs

variable [DecidableEq ι] (tasks : ι → Task)

/-- The copy's view of the session is the session. -/
def Link (_ : ι) (l : Copy) (session : List Message) : Prop := l.session = session

omit [DecidableEq ι] in
theorem load_link (i : ι) (session : List Message) :
    Link i ((protocol tasks).load i session) session := rfl

omit [DecidableEq ι] in
theorem save_link (i : ι) (l l' : Copy) (session : List Message)
    (h : (protocol tasks).save i l = some (session, l')) : Link i l' session :=
  session_save h

theorem link_of_run (session : List Message) (events : List (Event ι)) :
    Inv (fun _ _ => True) Link (run (protocol tasks) (State.init session) events) :=
  Inv.reachable (load_link tasks) (save_link tasks) (Inv.init trivial)

/-- All that the session said at first, and all that a turn left when it returned, is kept. -/
def NothingLost (first last : State ι Copy (List Message)) : Prop :=
  ∃ writes, last.log = first.log ++ writes ∧ ∀ r text, Lasting r text →
    Says first.record r text ∨ (∃ w ∈ writes, Owes w r text) → Kept writes last.record r text

/-- **Turns are lost to stale saves only**: no task saves, in the second part of the run, over a
save that it did not see. -/
theorem kept_of_freshRun (session : List Message) (before after : List (Event ι))
    (h : FreshRun (protocol tasks) (run (protocol tasks) (State.init session) before) after) :
    NothingLost (run (protocol tasks) (State.init session) before)
      (run (protocol tasks) (run (protocol tasks) (State.init session) before) after) := by
  generalize hfirst : run (protocol tasks) (State.init session) before = first at h ⊢
  have hlinked := link_of_run tasks session before
  rw [hfirst] at hlinked
  let Keeps (log : List (Saved ι)) (now : List Message) : Prop :=
    ∃ writes, log = first.log ++ writes ∧ ∀ r text, Lasting r text →
      Says first.record r text ∨ (∃ w ∈ writes, Owes w r text) → Kept writes now r text
  have hstart : Keeps first.log first.record := by
    refine ⟨[], (List.append_nil _).symm, ?_⟩
    rintro r text htext (hsaid | ⟨w, hw, -⟩)
    · exact .inl hsaid
    · cases hw
  refine (h.invariant (load_link tasks) (save_link tasks) ?_ (hlinked.restart hstart)).record
  intro i l l' now s log hkeeps hlink hsave
  obtain ⟨writes, rfl, hkept⟩ := hkeeps
  have hlink : l.session = now := hlink
  subst hlink
  refine ⟨writes ++ [⟨i, l.session, s, l'⟩], List.append_assoc .., ?_⟩
  intro r text htext hsaid
  -- what is kept before the save is kept after it
  have hstep : Kept writes l.session r text →
      Kept (writes ++ [⟨i, l.session, s, l'⟩]) s r text := by
    rintro (hsaid | ⟨w, hw, hdropped⟩)
    · rcases says_save i hsave htext hsaid with hs | hdropped
      · exact .inl hs
      · exact .inr ⟨_, List.mem_concat_self, hdropped⟩
    · exact .inr ⟨w, List.mem_append_left _ hw, hdropped⟩
  rcases hsaid with hfirst | ⟨w, hw, howes⟩
  · exact hstep (hkept r text htext (.inl hfirst))
  · rcases List.mem_append.1 hw with hw | hw
    · exact hstep (hkept r text htext (.inr ⟨w, hw, howes⟩))
    · rw [List.mem_singleton.1 hw] at howes
      have hdone : l'.session = s := session_save hsave
      rcases says_owed hdone htext howes with hs | hdropped
      · exact .inl hs
      · exact .inr ⟨_, List.mem_concat_self, hdropped⟩

end Runs

/-- A turn that answers at once. -/
def quickTurn (userMessage reply : String) : Task :=
  .turn { max := 50, answers := fun _ => .endTurn reply false false, userMessage := userMessage }

/-- Two turns overlap; then a turn and a compaction follow, one after the other. -/
theorem kept_of_freshRun_example :
    let tasks : ℕ → Task := fun i =>
      if i = 3 then .compaction (.ok "summary") else quickTurn (toString i) "fine"
    let first := run (protocol tasks) (State.init []) [.load 0, .load 1, .save 1, .save 0]
    NothingLost first (run (protocol tasks) first [.load 2, .save 2, .load 3, .save 3]) :=
  kept_of_freshRun _ [] [.load 0, .load 1, .save 1, .save 0] [.load 2, .save 2, .load 3, .save 3]
    (by decide)

/-- The session after turns that answer one by one. -/
theorem says_user_iff {session : List (String × String)} {text : String} :
    Says (session.flatMap fun e => [.user e.1, .assistant e.2]) .user text ↔
      text ∈ session.map Prod.fst := by
  constructor
  · rintro ⟨m, hm, hr, hb⟩
    obtain ⟨e, he, hm⟩ := List.mem_flatMap.1 hm
    simp only [List.mem_cons, List.not_mem_nil, or_false] at hm
    rcases hm with rfl | rfl
    · have htext : ContentBlock.text text ∈ [ContentBlock.text e.1] := hb
      rw [List.mem_singleton] at htext
      cases htext
      exact List.mem_map_of_mem he
    · cases hr
  · intro htext
    obtain ⟨e, he, rfl⟩ := List.mem_map.1 htext
    exact ⟨.user e.1, List.mem_flatMap.2 ⟨e, he, List.mem_cons_self⟩, rfl, List.mem_singleton.2 rfl⟩

/-- Two turns that overlap, or a heartbeat turn with some turns after it: what a user said in a turn
that returned is gone, and there was no compaction. -/
theorem exists_lost_turn :
    (∃ (tasks : Bool → Task) (events : List (Event Bool)) (text : String),
      (∀ i, ∃ t, tasks i = .turn t) ∧
      (∃ w ∈ (run (protocol tasks) (State.init []) events).log, Owes w .user text) ∧
      ¬ Says (run (protocol tasks) (State.init []) events).record .user text) ∧
    ∃ (tasks : ℕ → Task) (events : List (Event ℕ)) (text : String),
      (∀ i, ∃ t, tasks i = .turn t) ∧ FreshRun (protocol tasks) (State.init []) events ∧
      (∃ w ∈ (run (protocol tasks) (State.init []) events).log, Owes w .user text) ∧
      ¬ Says (run (protocol tasks) (State.init []) events).record .user text := by
  refine ⟨⟨fun i => quickTurn (if i then "on Telegram" else "on Discord") "fine",
    [.load true, .load false, .save true, .save false], "on Telegram", fun i => ⟨_, rfl⟩, ?_, ?_⟩,
    fun i => if i = 0 then quickTurn "tick" "NO_REPLY" else quickTurn "hi" "hello",
    (List.range 6).flatMap fun i => [.load i, .save i], "tick", ?_, by decide, ?_, ?_⟩
  · exact ⟨_, List.mem_cons_self, _, "fine", ⟨rfl, rfl, rfl⟩, .inl ⟨rfl, rfl⟩⟩
  · intro hsaid
    have hsaid : Says ([("on Discord", "fine")].flatMap fun e => [.user e.1, .assistant e.2]) .user
      "on Telegram" := hsaid
    rw [says_user_iff] at hsaid
    simp at hsaid
  · intro i
    by_cases hi : i = 0
    · exact ⟨_, if_pos hi⟩
    · exact ⟨_, if_neg hi⟩
  · exact ⟨_, List.mem_cons_self, _, "", ⟨rfl, rfl, rfl⟩, .inl ⟨rfl, rfl⟩⟩
  · intro hsaid
    have hsaid : Says ((List.replicate 5 ("hi", "hello")).flatMap fun e =>
      [.user e.1, .assistant e.2]) .user "tick" := hsaid
    rw [says_user_iff] at hsaid
    simp at hsaid

end SharedSession
end RustyHand
