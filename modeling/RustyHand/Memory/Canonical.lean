import RustyHand.Types.Message
import RustyHand.Types.Text
import RustyHand.Lib.SharedRecord

/-!
# The canonical session

`rusty-hand-memory/src/session.rs`: `load_canonical`, `append_canonical` and `store_llm_summary`.
The row of an agent that has none is the empty session; `updated_at` is left out, and the database
does not fail here.  Both calls load the row and save it in two locked steps, so their runs are
those of a `SharedRecord`.

* `appendCanonical`, `storeLlmSummary`: what a call saves, given what it loaded;
* `since`, `base`: what the saves of a run were meant to record;
* `Account`: what the row makes of it;
* `nothingLost_of_freshRun`: nothing is lost but by a save over a save that the call did not see.
-/

namespace RustyHand

/-- `CanonicalSession`. -/
structure CanonicalSession where
  messages : List Message := []
  compactionCursor : ℕ := 0
  compactedSummary : Option String := none

namespace CanonicalSession

open SharedRecord

/-- `DEFAULT_CANONICAL_WINDOW`. -/
def defaultCanonicalWindow : ℕ := 50

/-- `DEFAULT_COMPACTION_THRESHOLD`. -/
def defaultCompactionThreshold : ℕ := 100

/-- The bytes of the summary text that are kept. -/
def summaryBytes : ℕ := 4000

def roleName : Role → String
  | .user => "User"
  | .assistant => "Assistant"
  | .system => "System"

/-- The line of a message in the summary text; a message without text has none. -/
def summaryLine (m : Message) : Option String :=
  let text := m.content.textContent
  if text = "" then none
  else some (roleName m.role ++ ": " ++
    if 200 < text.utf8ByteSize then Text.truncateBytes text 200 ++ "..." else text)

/-- `full_summary` before it is cut. -/
def summaryText (existing : Option String) (compacting : List Message) : String :=
  "\n".intercalate (existing.toList ++ compacting.filterMap summaryLine)

/-- `full_summary`: its last 4000 bytes, or a character more. -/
def keepTail (s : String) : String :=
  if summaryBytes < Text.byteLength s.toList then
    String.ofList (Text.dropBytes (Text.byteLength s.toList - summaryBytes) s.toList)
  else s

/-- `append_canonical`, between its load and its save. -/
def appendCanonical (c : CanonicalSession) (newMessages : List Message)
    (compactionThreshold : Option ℕ) : CanonicalSession :=
  let messages := c.messages ++ newMessages
  let toCompact := messages.length - defaultCanonicalWindow
  if compactionThreshold.getD defaultCompactionThreshold < messages.length ∧
      c.compactionCursor < toCompact then
    { messages := messages.drop toCompact
      compactionCursor := 0
      compactedSummary := some (keepTail (summaryText c.compactedSummary
        ((messages.take toCompact).drop c.compactionCursor))) }
  else { c with messages := messages }

/-- `store_llm_summary`, between its load and its save: of what it loaded only the agent is left. -/
def storeLlmSummary (_ : CanonicalSession) (summary : String) (keptMessages : List Message) :
    CanonicalSession :=
  { messages := keptMessages, compactionCursor := 0, compactedSummary := some summary }

/-- A call: the messages appended, or a summary with the messages it sums up and those kept. -/
inductive Call
  | append (newMessages : List Message) (compactionThreshold : Option ℕ)
  | store (summary : String) (summarised keptMessages : List Message)

/-- What a call makes of what it loaded. -/
def Call.apply (c : CanonicalSession) : Call → CanonicalSession
  | .append newMessages threshold => c.appendCanonical newMessages threshold
  | .store summary _ kept => c.storeLlmSummary summary kept

variable {ι : Type*}

/-- A call loads the row, and saves once what it makes of it. -/
def protocol (calls : ι → Call) : Protocol ι (Option CanonicalSession) CanonicalSession where
  load _ c := some c
  save i loaded := loaded.map fun c => ((calls i).apply c, none)

/-- A save of a call. -/
abbrev Saved (ι : Type*) := Write ι (Option CanonicalSession) CanonicalSession

/-! ### What a run is meant to record -/

/-- What a save appends. -/
def Call.appended : Call → List Message
  | .append newMessages _ => newMessages
  | .store _ _ _ => []

/-- The messages appended by the saves. -/
def appended (calls : ι → Call) (log : List (Saved ι)) : List Message :=
  log.flatMap fun w => (calls w.who).appended

def Call.since (messages : List Message) : Call → List Message
  | .append newMessages _ => messages ++ newMessages
  | .store _ _ kept => kept

/-- The messages the last summary kept, and those appended after it; without a summary, those there
were, and all those appended. -/
def since (calls : ι → Call) (messages : List Message) (log : List (Saved ι)) :
    List Message :=
  log.foldl (fun ms w => (calls w.who).since ms) messages

def Call.base (summary : Option String) : Call → Option String
  | .append _ _ => summary
  | .store s _ _ => some s

/-- The last summary stored. -/
def base (calls : ι → Call) (summary : Option String) (log : List (Saved ι)) :
    Option String :=
  log.foldl (fun s w => (calls w.who).base s) summary

/-- The summary text after some batches of messages, were it never cut. -/
def uncut (summary : Option String) (batches : List (List Message)) : Option String :=
  batches.foldl (fun s batch => some (summaryText s batch)) summary

/-- The text kept is the whole, or ends it and has 4000 bytes or more. -/
def LastBytes (whole kept : Option String) : Prop :=
  kept = whole ∨ ∃ w k, whole = some w ∧ kept = some k ∧ k.toList <:+ w.toList ∧
    summaryBytes ≤ Text.byteLength k.toList

/-- The row accounts for the messages: some batches of them are in its summary text, each message by
its line, of which text the last bytes are kept; and the rest are its messages. -/
def Account (messages : List Message) (summary : Option String) (c : CanonicalSession) : Prop :=
  c.compactionCursor = 0 ∧ ∃ batches, messages = batches.flatten ++ c.messages ∧
    LastBytes (uncut summary batches) c.compactedSummary ∧
    ∀ m ∈ batches.flatten, ∀ line, summaryLine m = some line →
      ∃ text, uncut summary batches = some text ∧ line.toList <:+: text.toList

/-! ### The summary text -/

theorem keepTail_suffix (s : String) : (keepTail s).toList <:+ s.toList := by
  unfold keepTail
  split_ifs
  · rw [String.toList_ofList]
    exact Text.dropBytes_suffix ..
  · exact List.suffix_refl _

theorem keepTail_eq_or_le (s : String) :
    keepTail s = s ∨ summaryBytes ≤ Text.byteLength (keepTail s).toList := by
  unfold keepTail
  split_ifs with hlong
  · right
    have := Text.le_byteLength_dropBytes (Text.byteLength s.toList - summaryBytes) s.toList
    rw [String.toList_ofList]
    omega
  · exact .inl rfl

/-- The text after the summary there was does not depend on it, but for the first separator. -/
theorem exists_summaryText_eq (batch : List Message) :
    ∃ rest : List Char, ∀ s, (summaryText (some s) batch).toList = s.toList ++ rest := by
  by_cases hlines : batch.filterMap summaryLine = []
  · refine ⟨[], fun s => ?_⟩
    simp [summaryText, hlines]
  · refine ⟨"\n".toList ++ ("\n".intercalate (batch.filterMap summaryLine)).toList, fun s => ?_⟩
    rw [summaryText, Option.toList_some, List.singleton_append,
      String.intercalate_cons_of_ne_nil hlines]
    simp

theorem infix_intercalate {l : String} {ls : List String} (h : l ∈ ls) :
    l.toList <:+: ("\n".intercalate ls).toList := by
  induction ls with
  | nil => cases h
  | cons x xs ih =>
    by_cases hxs : xs = []
    · subst hxs
      rw [List.mem_singleton.1 h, String.intercalate_singleton]
    · rw [String.intercalate_cons_of_ne_nil hxs, String.toList_append, String.toList_append]
      rcases List.mem_cons.1 h with rfl | h
      · rw [List.append_assoc]
        exact (List.prefix_append ..).isInfix
      · exact (ih h).trans (List.suffix_append ..).isInfix

theorem line_mem_summaryText {m : Message} {batch : List Message} {line : String}
    (existing : Option String) (hm : m ∈ batch) (hline : summaryLine m = some line) :
    line.toList <:+: (summaryText existing batch).toList :=
  infix_intercalate (List.mem_append_right _ (List.mem_filterMap.2 ⟨m, hm, hline⟩))

theorem infix_summaryText (s : String) (batch : List Message) :
    s.toList <:+: (summaryText (some s) batch).toList := by
  obtain ⟨rest, hrest⟩ := exists_summaryText_eq batch
  rw [hrest s]
  exact (List.prefix_append ..).isInfix

/-- Cutting the text before a batch is added and after it comes to cutting it after it. -/
theorem LastBytes.summaryText {whole kept : Option String} (h : LastBytes whole kept)
    (batch : List Message) :
    LastBytes (some (summaryText whole batch)) (some (keepTail (summaryText kept batch))) := by
  rcases h with rfl | ⟨w, k, rfl, rfl, hsuffix, hbytes⟩
  -- nothing has been cut so far
  · rcases keepTail_eq_or_le (CanonicalSession.summaryText kept batch) with heq | hle
    · exact .inl (congrArg some heq)
    · exact .inr ⟨_, _, rfl, rfl, keepTail_suffix _, hle⟩
  -- the same text is put behind the whole summary and behind its tail
  · obtain ⟨rest, hrest⟩ := exists_summaryText_eq batch
    refine .inr ⟨_, _, rfl, rfl, (keepTail_suffix _).trans ?_, ?_⟩
    · rw [hrest w, hrest k]
      obtain ⟨t, ht⟩ := hsuffix
      exact ⟨t, by rw [← ht, List.append_assoc]⟩
    · rcases keepTail_eq_or_le (CanonicalSession.summaryText (some k) batch) with heq | hle
      · rw [heq, hrest k, Text.byteLength_append]
        omega
      · exact hle

/-! ### What a save keeps -/

theorem Account.append {messages : List Message} {summary : Option String} {c : CanonicalSession}
    (h : Account messages summary c) (newMessages : List Message) (threshold : Option ℕ) :
    Account (messages ++ newMessages) summary (c.appendCanonical newMessages threshold) := by
  obtain ⟨hcursor, batches, hmessages, hlast, hlines⟩ := h
  unfold appendCanonical
  dsimp only
  split_ifs with hcompact
  · rw [hcursor, List.drop_zero]
    generalize hn : (c.messages ++ newMessages).length - defaultCanonicalWindow = n
    have huncut : uncut summary (batches ++ [(c.messages ++ newMessages).take n]) =
        some (summaryText (uncut summary batches) ((c.messages ++ newMessages).take n)) := by
      rw [uncut, List.foldl_append]
      rfl
    refine ⟨rfl, batches ++ [(c.messages ++ newMessages).take n], ?_, ?_, ?_⟩
    · simp [hmessages, List.take_append_drop, List.append_assoc]
    · rw [huncut]
      exact hlast.summaryText _
    · intro m hm line hline
      refine ⟨_, huncut, ?_⟩
      rw [List.flatten_append, List.mem_append] at hm
      rcases hm with hm | hm
      · obtain ⟨text, htext, hinfix⟩ := hlines m hm line hline
        rw [htext]
        exact hinfix.trans (infix_summaryText text _)
      · rw [List.flatten_singleton] at hm
        exact line_mem_summaryText _ hm hline
  · refine ⟨hcursor, batches, ?_, hlast, hlines⟩
    rw [hmessages, List.append_assoc]

theorem Account.refl (c : CanonicalSession) (hcursor : c.compactionCursor = 0) :
    Account c.messages c.compactedSummary c := by
  refine ⟨hcursor, [], rfl, .inl rfl, ?_⟩
  intro m hm
  cases hm

/-- A fresh save accounts for what its call was meant to record. -/
theorem Account.call {messages : List Message} {summary : Option String} {c : CanonicalSession}
    (h : Account messages summary c) (call : Call) :
    Account (call.since messages) (call.base summary) (call.apply c) := by
  cases call with
  | append newMessages threshold => exact h.append newMessages threshold
  | store summary summarised kept => exact Account.refl _ rfl

/-! ### Runs -/

@[simp] theorem since_append (calls : ι → Call) (messages : List Message)
    (log : List (Saved ι)) (w : Saved ι) :
    since calls messages (log ++ [w]) = (calls w.who).since (since calls messages log) := by
  simp [since]

@[simp] theorem base_append (calls : ι → Call) (summary : Option String)
    (log : List (Saved ι)) (w : Saved ι) :
    base calls summary (log ++ [w]) = (calls w.who).base (base calls summary log) := by
  simp [base]

theorem appended_append (calls : ι → Call) (log : List (Saved ι))
    (w : Saved ι) :
    appended calls (log ++ [w]) = appended calls log ++ (calls w.who).appended := by
  simp [appended]

/-- What was appended is meant to be recorded until a summary is stored. -/
theorem mem_since_of_mem_appended (calls : ι → Call) (messages : List Message) {m : Message}
    {log : List (Saved ι)} (hm : m ∈ appended calls log) :
    m ∈ since calls messages log ∨ ∃ k w, log[k]? = some w ∧
      (∃ summary summarised kept, calls w.who = .store summary summarised kept) ∧
      m ∈ since calls messages (log.take k) := by
  induction log using List.reverseRecOn with
  | nil => cases hm
  | append_singleton log w ih =>
    rw [appended_append, List.mem_append] at hm
    rw [since_append]
    rcases hm with hm | hm
    · rcases ih hm with hsince | ⟨k, w', hk, hstore, hmem⟩
      -- what was meant so far is no longer, if the last save stores a summary
      · cases hcall : calls w.who with
        | append newMessages threshold =>
          left
          exact List.mem_append_left _ hsince
        | store summary summarised kept =>
          right
          refine ⟨log.length, w, List.getElem?_concat_length,
            ⟨summary, summarised, kept, hcall⟩, ?_⟩
          rw [List.take_left]
          exact hsince
      · have hlt : k < log.length := (List.getElem?_eq_some_iff.1 hk).1
        right
        refine ⟨k, w', ?_, hstore, ?_⟩
        · rw [List.getElem?_append_left hlt]
          exact hk
        · rw [List.take_append_of_le_length hlt.le]
          exact hmem
    · left
      cases hcall : calls w.who with
      | append newMessages threshold =>
        rw [hcall] at hm
        exact List.mem_append_right _ hm
      | store summary summarised kept =>
        rw [hcall] at hm
        cases hm

/-- What the saves of the second part of a run leave, at the end and before each of them. -/
def AccountsFor (calls : ι → Call) (c : CanonicalSession) (old : List (Saved ι))
    (log : List (Saved ι)) (now : CanonicalSession) : Prop :=
  ∃ writes, log = old ++ writes ∧
    Account (since calls c.messages writes) (base calls c.compactedSummary writes) now ∧
    ∀ k w, writes[k]? = some w →
      Account (since calls c.messages (writes.take k))
        (base calls c.compactedSummary (writes.take k))
        w.before

theorem AccountsFor.save {calls : ι → Call} {c now : CanonicalSession}
    {old log : List (Saved ι)} (h : AccountsFor calls c old log now) (i : ι) :
    AccountsFor calls c old (log ++ [⟨i, now, (calls i).apply now, none⟩])
      ((calls i).apply now) := by
  obtain ⟨writes, rfl, hnow, hbefore⟩ := h
  refine ⟨writes ++ [⟨i, now, (calls i).apply now, none⟩], List.append_assoc .., ?_, ?_⟩
  · rw [since_append, base_append]
    exact hnow.call (calls i)
  · intro k w hk
    rcases Nat.lt_or_ge k writes.length with hlt | hge
    · rw [List.getElem?_append_left hlt] at hk
      rw [List.take_append_of_le_length hlt.le]
      exact hbefore k w hk
    · rw [List.getElem?_append_right hge] at hk
      obtain ⟨hzero, hw⟩ := List.getElem?_eq_some_iff.1 hk
      have hkeq : k = writes.length := by
        rw [List.length_singleton] at hzero
        omega
      subst hkeq
      rw [List.take_left, ← hw]
      simpa using hnow

/-- The row at the start of a run: the agent has none. -/
def start : State ι (Option CanonicalSession) CanonicalSession := State.init {}

section Runs

variable [DecidableEq ι] (calls : ι → Call)

/-- A copy that has seen every save is the row. -/
def Link (_ : ι) (loaded : Option CanonicalSession) (c : CanonicalSession) : Prop :=
  ∀ l, loaded = some l → l = c

omit [DecidableEq ι] in
theorem load_link (i : ι) (c : CanonicalSession) : Link i ((protocol calls).load i c) c := by
  intro l hl
  cases hl
  rfl

omit [DecidableEq ι] in
theorem save_link (i : ι) (l l' : Option CanonicalSession) (r' : CanonicalSession)
    (h : (protocol calls).save i l = some (r', l')) : Link i l' r' := by
  obtain ⟨c, rfl, heq⟩ := Option.map_eq_some_iff.1 h
  cases heq
  intro l hl
  cases hl

/-- Copies that have seen every save are linked to the row in every run. -/
theorem link_of_run (events : List (Event ι)) :
    Inv (fun _ _ => True) Link (run (protocol calls) start events) :=
  Inv.reachable (load_link calls) (save_link calls) (Inv.init trivial)

/-- The cursor of the row is always at the start. -/
theorem cursor_run (events : List (Event ι)) :
    (run (protocol calls) start events).record.compactionCursor = 0 := by
  refine (run_keeps
    (C := fun _ (loaded : Option CanonicalSession) => ∀ c, loaded = some c → c.compactionCursor = 0)
    (R := fun (c : CanonicalSession) => c.compactionCursor = 0) ?_ ?_ ⟨rfl, ?_⟩).1
  · intro i r hr c hc
    cases hc
    exact hr
  · intro i l l' r' hl hsave
    obtain ⟨c, rfl, heq⟩ := Option.map_eq_some_iff.1 hsave
    cases heq
    refine ⟨((Account.refl c (hl c rfl)).call (calls i)).1, ?_⟩
    intro c hc
    cases hc
  · intro i l n hcopy
    cases hcopy

/-- What is said of the second part of a run, from `first` to `last`: the row accounts, at the end
and before each save, for what it held at first, as far as no summary was stored since, and for what
was appended or kept by a summary since; and of the messages appended, those it does not account for
at the end, it did account for when some summary was stored. -/
def NothingLost (first last : State ι (Option CanonicalSession) CanonicalSession) : Prop :=
  ∃ writes, last.log = first.log ++ writes ∧
    Account (since calls first.record.messages writes)
      (base calls first.record.compactedSummary writes) last.record ∧
    (∀ k w, writes[k]? = some w →
      Account (since calls first.record.messages (writes.take k))
        (base calls first.record.compactedSummary (writes.take k)) w.before) ∧
    ∀ m ∈ appended calls writes, m ∈ since calls first.record.messages writes ∨
      ∃ k w, writes[k]? = some w ∧
        (∃ summary summarised kept, calls w.who = .store summary summarised kept) ∧
        m ∈ since calls first.record.messages (writes.take k)

/-- **Nothing is lost but by a stale save**: no call saves, in the second part of the run, over a
save that it did not see. -/
theorem nothingLost_of_freshRun (before after : List (Event ι))
    (h : FreshRun (protocol calls) (run (protocol calls) start before) after) :
    NothingLost calls (run (protocol calls) start before)
      (run (protocol calls) (run (protocol calls) start before) after) := by
  have hstart : AccountsFor calls (run (protocol calls) start before).record
      (run (protocol calls) start before).log (run (protocol calls) start before).log
      (run (protocol calls) start before).record := by
    refine ⟨[], (List.append_nil _).symm, Account.refl _ (cursor_run calls before), ?_⟩
    intro k w hk
    cases hk
  have hinv := (link_of_run calls before).restart hstart
  obtain ⟨writes, hlog, haccount, hbefore⟩ := (h.invariant (load_link calls) (save_link calls)
    (by
      intro i l l' r r' log hI hlink hsave
      obtain ⟨c, rfl, heq⟩ := Option.map_eq_some_iff.1 hsave
      cases heq
      rw [hlink c rfl]
      exact hI.save i) hinv).record
  exact ⟨writes, hlog, haccount, hbefore, fun m hm => mem_since_of_mem_appended calls _ hm⟩

/-- An append is lost; then three appends and a summary follow, one after the other. -/
theorem nothingLost_example :
    let calls : ℕ → Call := fun i =>
      if i = 3 then .store "greetings" [.user "a", .user "b"] [.user "c"]
      else .append [.user (toString i)] none
    let first := run (protocol calls) start [.load 0, .load 1, .save 1, .save 0]
    NothingLost calls first
      (run (protocol calls) first [.load 2, .save 2, .load 3, .save 3, .load 4, .save 4]) :=
  nothingLost_of_freshRun _ [.load 0, .load 1, .save 1, .save 0]
    [.load 2, .save 2, .load 3, .save 3, .load 4, .save 4] (by decide)

end Runs

/-- Is the message stored, in the summary text, or among those that a stored summary sums up? -/
def Recorded (calls : ι → Call) (s : State ι (Option CanonicalSession) CanonicalSession)
    (m : Message) : Prop :=
  m ∈ s.record.messages ∨
    (∃ text line, s.record.compactedSummary = some text ∧ summaryLine m = some line ∧
      line.toList <:+: text.toList) ∨
    ∃ w ∈ s.log, ∃ summary summarised kept, calls w.who = .store summary summarised kept ∧
      m ∈ summarised

/-- Two appends that overlap, or a summary of another session: a message is gone. -/
theorem exists_not_recorded :
    (∃ (calls : Bool → Call) (events : List (Event Bool)), ∃ m,
      (∀ i, ∃ ms, calls i = .append ms none) ∧
      m ∈ appended calls (run (protocol calls) start events).log ∧
      ¬ Recorded calls (run (protocol calls) start events) m) ∧
    ∃ (calls : Bool → Call) (events : List (Event Bool)), ∃ m,
      FreshRun (protocol calls) start events ∧
      m ∈ appended calls (run (protocol calls) start events).log ∧
      ¬ Recorded calls (run (protocol calls) start events) m := by
  refine ⟨⟨fun i => .append [.user (if i then "on Telegram" else "on Discord")] none,
    [.load true, .load false, .save true, .save false], .user "on Telegram", fun i => ⟨_, rfl⟩,
    List.mem_cons_self, ?_⟩,
    fun i => if i then .append [.user "on Telegram"] none else .store "" [.user "on Discord"] [],
    [.load true, .save true, .load false, .save false], .user "on Telegram", by decide,
    List.mem_cons_self, ?_⟩
  · rintro (hmem | ⟨text, line, htext, -⟩ | ⟨w, -, summary, summarised, kept, hcall, -⟩)
    · have hmem : Message.user "on Telegram" ∈ [Message.user "on Discord"] := hmem
      have heq := List.mem_singleton.1 hmem
      simp [Message.user] at heq
    · have htext : none = some text := htext
      cases htext
    · cases hcall
  · rintro (hmem | ⟨text, line, htext, hline, hinfix⟩ |
    ⟨w, -, summary, summarised, kept, hcall, hm⟩)
    · cases hmem
    · have htext : some "" = some text := htext
      cases htext
      have hnil : line.toList = [] := List.infix_nil.1 hinfix
      rw [String.toList_eq_nil_iff.1 hnil] at hline
      exact absurd hline (by decide)
    · cases hwho : w.who with
      | true =>
        rw [hwho] at hcall
        cases hcall
      | false =>
        rw [hwho] at hcall
        cases hcall
        have heq := List.mem_singleton.1 hm
        simp [Message.user] at heq

end CanonicalSession
end RustyHand
