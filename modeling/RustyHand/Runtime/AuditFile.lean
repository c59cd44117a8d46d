import RustyHand.Lib.BufferedWriter
import RustyHand.Lib.JsonText
import RustyHand.Lib.Lines
import RustyHand.Runtime.AuditLog
import RustyHand.Types.Text

/-!
# The file of the audit log

`AuditLog::open` and `record` of `rusty-hand-runtime/src/audit.rs`, with the file: one line of JSON
for each entry, behind a `BufWriter`.

* `Serde`: how entries are written and read;
* `openFile`: what is replayed of a file;
* `Live`, `Live.record`, `Live.close`: a log over a file; a write to the file succeeds, or fails and
  writes nothing;
* `attempts`: the entries of a run, and whether each was appended; `Durable`: those that were are
  replayed.
-/

namespace RustyHand
namespace Audit

open BufferedWriter Framing Lines

/-- `serde_json`, on entries: compact JSON on one line, and nothing but blanks may follow it. -/
structure Serde where
  /-- `serde_json::to_string`. -/
  toString : AuditEntry → String
  /-- `serde_json::from_str`. -/
  fromStr : String → Option AuditEntry
  fromStr_toString : ∀ e, fromStr (toString e) = some e
  newline : ∀ e, '\n' ∉ (toString e).toList
  brace : ∀ e, ∃ cs, (toString e).toList = cs ++ ['}']
  trailing : ∀ e s, Text.isBlank s = false → fromStr (toString e ++ s) = none

variable (S : Serde) (sha256 : List UInt8 → Str)

/-! ### Opening -/

/-- A line without the carriage return at its end. -/
def stripCr (line : List UInt8) : List UInt8 :=
  if line.getLast? = some 13 then line.dropLast else line

/-- An entry, if a line is readable, not blank, and one. -/
def Serde.parseLine (line : List UInt8) : Option AuditEntry :=
  (fromUtf8 line).bind fun text => if Text.isBlank text then none else S.fromStr text

/-- The complete lines of a file. -/
def Serde.completeLines (content : List UInt8) : List (Option AuditEntry) :=
  (cut [] content).1.map fun line => S.parseLine (stripCr line)

/-- The line that is not complete, if there is one. -/
def Serde.lastLine (content : List UInt8) : List (Option AuditEntry) :=
  if (cut [] content).2 = [] then [] else [S.parseLine (cut [] content).2]

/-- `open`, up to the writer. -/
def openFile (content : List UInt8) : AuditLog :=
  replay sha256 {} (S.completeLines content ++ S.lastLine content)

/-! ### Recording -/

/-- What an event is recorded with. -/
structure Request where
  timestamp : Str
  agentId : Str
  action : AuditAction
  detail : Str
  outcome : Str

/-- An `AuditLog` over a file. -/
structure Live where
  log : AuditLog
  sink : Sink

/-- `open`. -/
def Live.openAt (content : List UInt8) : Live :=
  { log := openFile S sha256 content, sink := { file := content } }

/-- The line of an entry. -/
def Serde.line (e : AuditEntry) : List UInt8 := utf8 (S.toString e)

/-- The entry that `record` makes of a request. -/
def Request.entry (r : Request) (log : AuditLog) : AuditEntry :=
  nextEntry sha256 log r.timestamp r.agentId r.action r.detail r.outcome

/-- `record`. -/
def Live.record (l : Live) (ok : Bool) (r : Request) : Live :=
  { log := Audit.record sha256 l.log r.timestamp r.agentId r.action r.detail r.outcome
    sink := (l.sink.writeLine ok (S.line (r.entry sha256 l.log))).1 }

/-- Some calls of `record`. -/
def Live.run (l : Live) (rs : List (Bool × Request)) : Live :=
  rs.foldl (fun l r => l.record S sha256 r.1 r.2) l

/-- The file after the log was dropped, which flushes the buffer if that succeeds. -/
def Live.close (l : Live) (flushed : Bool) : List UInt8 := (l.sink.flushBuf flushed).1.file

/-- The entries that calls of `record` make, and whether each was appended. -/
def attempts : AuditLog → List (Bool × Request) → List (Bool × AuditEntry)
  | _, [] => []
  | log, (ok, r) :: rs =>
    (ok, r.entry sha256 log) ::
      attempts (Audit.record sha256 log r.timestamp r.agentId r.action r.detail r.outcome) rs

/-- The entries that were appended. -/
def appended (as : List (Bool × AuditEntry)) : List AuditEntry :=
  (as.filter fun a => a.1).map Prod.snd

/-- The log that is opened after a run. -/
def reopened (content : List UInt8) (rs : List (Bool × Request)) (flushed : Bool) : AuditLog :=
  openFile S sha256 (((Live.openAt S sha256 content).run S sha256 rs).close flushed)

/-- The entries that were appended in a run are replayed, in order. -/
def Durable (content : List UInt8) (rs : List (Bool × Request)) (flushed : Bool) : Prop :=
  (appended (attempts sha256 (openFile S sha256 content) rs)).Sublist
    (reopened S sha256 content rs flushed).entries

/-! ### What is replayed -/

/-- The replay stops before the end. -/
def breaks (log : AuditLog) : List (Option AuditEntry) → Bool
  | [] => false
  | none :: lines => breaks log lines
  | some e :: lines =>
    if e.prevHash ≠ log.tip then true
    else if computeEntryHash sha256 e ≠ e.hash then true
    else breaks { entries := log.entries ++ [e], tip := e.hash } lines

variable {S sha256} {log : AuditLog} {lines lines' : List (Option AuditEntry)}

theorem replay_append_of_unbroken (h : breaks sha256 log lines = false) :
    replay sha256 log (lines ++ lines') = replay sha256 (replay sha256 log lines) lines' := by
  induction lines generalizing log with
  | nil => rfl
  | cons line lines ih =>
    cases line with
    | none => exact ih h
    | some e =>
      simp only [breaks] at h
      simp only [List.cons_append, replay]
      split_ifs at h ⊢ with hprev hhash
      exact ih h

theorem replay_append_of_broken (h : breaks sha256 log lines = true) :
    replay sha256 log (lines ++ lines') = replay sha256 log lines := by
  induction lines generalizing log with
  | nil => cases h
  | cons line lines ih =>
    cases line with
    | none => exact ih h
    | some e =>
      simp only [breaks] at h
      simp only [List.cons_append, replay]
      split_ifs at h ⊢ with hprev hhash
      · rfl
      · rfl
      · exact ih h

theorem replay_entries (log : AuditLog) (lines : List (Option AuditEntry)) :
    ∃ l, (replay sha256 log lines).entries = log.entries ++ l ∧
      l.Sublist (lines.filterMap id) := by
  induction lines generalizing log with
  | nil => exact ⟨[], (List.append_nil _).symm, List.Sublist.refl _⟩
  | cons line lines ih =>
    cases line with
    | none => exact ih log
    | some e =>
      simp only [replay]
      split_ifs with hprev hhash
      · exact ⟨[], (List.append_nil _).symm, List.nil_sublist _⟩
      · exact ⟨[], (List.append_nil _).symm, List.nil_sublist _⟩
      · obtain ⟨l, hl, hsub⟩ := ih { entries := log.entries ++ [e], tip := e.hash }
        refine ⟨e :: l, ?_, hsub.cons_cons e⟩
        rw [hl, List.append_assoc]
        rfl

theorem replay_entries_append (log : AuditLog) (lines lines' : List (Option AuditEntry)) :
    ∃ l l', (replay sha256 log (lines ++ lines')).entries = log.entries ++ l ++ l' ∧
      l.Sublist (lines.filterMap id) ∧ l'.Sublist (lines'.filterMap id) := by
  obtain ⟨l, hl, hsub⟩ := @replay_entries sha256 log lines
  cases hbreaks : breaks sha256 log lines with
  | true =>
    refine ⟨l, [], ?_, hsub, List.nil_sublist _⟩
    rw [replay_append_of_broken hbreaks, hl, List.append_nil]
  | false =>
    obtain ⟨l', hl', hsub'⟩ := @replay_entries sha256 (replay sha256 log lines) lines'
    refine ⟨l, l', ?_, hsub, hsub'⟩
    rw [replay_append_of_unbroken hbreaks, hl', hl]

open HashChain in
theorem replay_of_chain {l : List AuditEntry} (h : Chain (format sha256) log.tip l)
    (lines : List (Option AuditEntry)) :
    ∃ l', (replay sha256 log (l.map some ++ lines)).entries = log.entries ++ l ++ l' := by
  induction l generalizing log with
  | nil =>
    obtain ⟨l', hl', -⟩ := @replay_entries sha256 log lines
    exact ⟨l', by rw [List.append_nil]; exact hl'⟩
  | cons e l ih =>
    obtain ⟨hprev, hdigest, hrest⟩ := chain_cons.1 h
    have hprev' : e.prevHash = log.tip := hprev
    have hdigest' : computeEntryHash sha256 e = e.hash := hdigest
    obtain ⟨l', hl'⟩ := @ih { entries := log.entries ++ [e], tip := e.hash } hrest
    refine ⟨l', ?_⟩
    rw [List.map_cons, List.cons_append, replay, if_neg (not_not.2 hprev'),
      if_neg (not_not.2 hdigest'), hl']
    simp

/-! ### What is written -/

/-- The lines of some attempts. -/
def Serde.linesOf (S : Serde) (as : List (Bool × AuditEntry)) : List (Bool × List UInt8) :=
  as.map fun a => (a.1, S.line a.2)

theorem run_sink (l : Live) (rs : List (Bool × Request)) :
    (l.run S sha256 rs).sink = l.sink.writeLines (S.linesOf (attempts sha256 l.log rs)) := by
  induction rs generalizing l with
  | nil => rfl
  | cons r rs ih =>
    rw [Live.run, List.foldl_cons]
    exact ih (l.record S sha256 r.1 r.2)

theorem run_entries (l : Live) (rs : List (Bool × Request)) :
    (l.run S sha256 rs).log.entries =
      l.log.entries ++ (attempts sha256 l.log rs).map Prod.snd := by
  induction rs generalizing l with
  | nil => exact (List.append_nil _).symm
  | cons r rs ih =>
    have hrest := ih (l.record S sha256 r.1 r.2)
    rw [Live.run, List.foldl_cons]
    exact hrest.trans (List.append_cons _ _ _).symm

theorem Linked.run {l : Live} (h : Linked sha256 l.log) (rs : List (Bool × Request)) :
    Linked sha256 (l.run S sha256 rs).log := by
  induction rs generalizing l with
  | nil => exact h
  | cons r rs ih =>
    rw [Live.run, List.foldl_cons]
    exact ih (h.push rfl (computeEntryHash_nextEntry _ _ _ _ _))

theorem linked_openFile (content : List UInt8) : Linked sha256 (openFile S sha256 content) :=
  linked_new.replay _

end Audit
end RustyHand

/-!
## Entries as JSON

The JSON of an `AuditEntry`, with its fields in the order of the struct, and a reader of what is
written so.

* `entryText`, `readEntry`: an entry, and how it is read back;
* `compactJson`: they are as `Serde` asks.
-/

namespace RustyHand
namespace Audit

open JsonText

/-- What an entry starts with. -/
def seqField : List Char := "\x7b\"seq\":".toList

/-- The fields of an entry that are strings. -/
def entryFields : List String :=
  ["timestamp", "agent_id", "action", "detail", "outcome", "prev_hash", "hash"]

/-- An entry as JSON. -/
def entryText (e : AuditEntry) : String :=
  String.ofList (seqField ++ (decimal e.seq.toNat ++ ',' :: members
    [("timestamp", e.timestamp.1), ("agent_id", e.agentId.1), ("action", e.action.display),
      ("detail", e.detail.1), ("outcome", e.outcome.1), ("prev_hash", e.prevHash.1),
      ("hash", e.hash.1)]))

/-- All actions. -/
def allActions : List AuditAction :=
  [.toolInvoke, .capabilityCheck, .agentSpawn, .agentKill, .agentMessage, .memoryAccess,
    .fileAccess,
    .networkAccess, .shellExec, .authAttempt, .wireConnect, .configChange]

/-- The action of a name. -/
def readAction (s : String) : Option AuditAction := allActions.find? fun a => a.display = s

/-- A string that is short enough. -/
def readStr (s : String) : Option Str := if h : s.utf8ByteSize < 2 ^ 63 then some ⟨s, h⟩ else none

/-- The whitespace of JSON. -/
def isJsonSpace (c : Char) : Bool := c = ' ' || c = '\n' || c = '\t' || c = '\r'

/-- The fields of an entry, read. -/
def readFields (seq : ℕ) : List String → Option AuditEntry
  | [timestamp, agentId, action, detail, outcome, prevHash, hash] => do
    let timestamp ← readStr timestamp
    let agentId ← readStr agentId
    let action ← readAction action
    let detail ← readStr detail
    let outcome ← readStr outcome
    let prevHash ← readStr prevHash
    let hash ← readStr hash
    some
      { seq := UInt64.ofNat seq, timestamp := timestamp, agentId := agentId, action := action
        detail := detail, outcome := outcome, prevHash := prevHash, hash := hash }
  | _ => none

/-- An entry, read; nothing but whitespace may follow it. -/
def readEntry (text : String) : Option AuditEntry := do
  let rest ← strip seqField text.toList
  let (seq, rest) ← readDecimal rest
  let rest ← strip [','] rest
  let (fields, rest) ← readMembers 7 rest
  if fields.map Prod.fst = entryFields ∧ rest.all isJsonSpace then
    readFields seq (fields.map Prod.snd)
  else none

theorem readAction_display (a : AuditAction) : readAction a.display = some a := by
  cases a <;> decide

theorem readStr_val (s : Str) : readStr s.1 = some s := dif_pos s.2

/-- An entry with something behind it. -/
theorem readEntry_append (e : AuditEntry) (s : String) :
    readEntry (entryText e ++ s) = if s.toList.all isJsonSpace then some e else none := by
  rw [readEntry, entryText, String.toList_append, String.toList_ofList, List.append_assoc,
    strip_append]
  simp only [bind, Option.bind]
  rw [List.append_assoc, List.cons_append, readDecimal_decimal _ (by decide),
    ← List.singleton_append]
  simp only [strip_append]
  rw [readMembers_members (Nat.lt_succ_self 6)]
  have hfields : readFields e.seq.toNat [e.timestamp.1, e.agentId.1, e.action.display, e.detail.1,
      e.outcome.1, e.prevHash.1, e.hash.1] = some e := by
    simp [readFields, readStr_val, readAction_display]
  by_cases hspace : s.toList.all isJsonSpace = true
  · rw [if_pos hspace]
    dsimp only
    rw [if_pos ⟨rfl, hspace⟩]
    exact hfields
  · rw [if_neg hspace]
    dsimp only
    rw [if_neg fun h => hspace h.2]

theorem isWhitespace_of_isJsonSpace {c : Char} (h : isJsonSpace c = true) :
    Text.isWhitespace c = true := by
  simp only [isJsonSpace, Bool.or_eq_true, decide_eq_true_eq] at h
  rcases h with ((rfl | rfl) | rfl) | rfl <;> decide

/-- JSON, written compactly. -/
def compactJson : Serde where
  toString := entryText
  fromStr := readEntry
  fromStr_toString e := by
    have h := readEntry_append e ""
    rw [String.append_empty] at h
    exact h
  newline e := by
    have hseq : '\n' ∉ seqField := by decide
    rw [entryText, String.toList_ofList]
    simp [hseq, newline_not_mem_decimal, newline_not_mem_members]
  brace e := by
    obtain ⟨cs, hcs⟩ := members_eq_concat [("timestamp", e.timestamp.1), ("agent_id", e.agentId.1),
      ("action", e.action.display), ("detail", e.detail.1), ("outcome", e.outcome.1),
      ("prev_hash", e.prevHash.1), ("hash", e.hash.1)]
    refine ⟨seqField ++ (decimal e.seq.toNat ++ ',' :: cs), ?_⟩
    rw [entryText, String.toList_ofList, hcs]
    simp
  trailing e s h := by
    rw [readEntry_append, if_neg]
    intro hspace
    have hblank : Text.isBlank s = true := List.all_eq_true.2 fun c hc =>
      isWhitespace_of_isJsonSpace (List.all_eq_true.1 hspace c hc)
    rw [h] at hblank
    cases hblank

end Audit
end RustyHand
