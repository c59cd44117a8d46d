import RustyHand.Lib.Framing
import RustyHand.Lib.HashChain

/-!
# The audit log

`AuditLog` of `rusty-hand-runtime/src/audit.rs`, in memory: a hash chain of entries, and the hash at
its end.  SHA-256 is an argument, in hexadecimal.

* `AuditEntry`, `computeEntryHash`;
* `AuditLog`: `new`, `openLines`, `record`, `verifyIntegrity`;
* `Reachable`: the logs that come from these;
* `verifyIntegrity_iff`: which altered lists of entries are found out.
-/

namespace RustyHand
namespace Audit

open Framing HashChain

/-- A string of the program, whose length is below `isize::MAX`. -/
abbrev Str : Type := { s : String // s.utf8ByteSize < 2 ^ 63 }

/-- `AuditAction`. -/
inductive AuditAction
  | toolInvoke
  | capabilityCheck
  | agentSpawn
  | agentKill
  | agentMessage
  | memoryAccess
  | fileAccess
  | networkAccess
  | shellExec
  | authAttempt
  | wireConnect
  | configChange
  deriving DecidableEq

/-- The name of an action. -/
def AuditAction.display : AuditAction → String
  | toolInvoke => "ToolInvoke"
  | capabilityCheck => "CapabilityCheck"
  | agentSpawn => "AgentSpawn"
  | agentKill => "AgentKill"
  | agentMessage => "AgentMessage"
  | memoryAccess => "MemoryAccess"
  | fileAccess => "FileAccess"
  | networkAccess => "NetworkAccess"
  | shellExec => "ShellExec"
  | authAttempt => "AuthAttempt"
  | wireConnect => "WireConnect"
  | configChange => "ConfigChange"

/-- `AuditEntry`. -/
structure AuditEntry where
  seq : UInt64
  timestamp : Str
  agentId : Str
  action : AuditAction
  detail : Str
  outcome : Str
  prevHash : Str
  hash : Str
  deriving DecidableEq

/-- `write_lp`. -/
def writeLp (s : String) : List UInt8 := framed (littleEndian 8) (utf8 s)

/-- What `compute_entry_hash` hashes: all of an entry but its own hash. -/
def AuditEntry.preimage (e : AuditEntry) : List UInt8 :=
  [1] ++ (littleEndian 8 e.seq.toNat ++ (writeLp e.timestamp ++ (writeLp e.agentId ++
    (writeLp e.action.display ++ (writeLp e.detail ++ (writeLp e.outcome ++
      writeLp e.prevHash))))))

/-- The 64 zeros that stand for the hash before the first entry. -/
def genesis : Str := ⟨String.ofList (List.replicate 64 '0'), by decide⟩

/-- `AuditLog`, in memory. -/
structure AuditLog where
  entries : List AuditEntry := []
  tip : Str := genesis

section Code

variable (sha256 : List UInt8 → Str)

/-- `compute_entry_hash`. -/
def computeEntryHash (e : AuditEntry) : Str := sha256 e.preimage

/-- The replay of `open`, over the lines of the file: the entries of those that can be parsed. -/
def replay (log : AuditLog) : List (Option AuditEntry) → AuditLog
  | [] => log
  | none :: lines => replay log lines
  | some e :: lines =>
    if e.prevHash ≠ log.tip then log
    else if computeEntryHash sha256 e ≠ e.hash then log
    else replay { entries := log.entries ++ [e], tip := e.hash } lines

/-- The entry that `record` makes. -/
def nextEntry (log : AuditLog) (timestamp agentId : Str) (action : AuditAction)
    (detail outcome : Str) : AuditEntry :=
  let e : AuditEntry :=
    { seq := UInt64.ofNat log.entries.length, timestamp := timestamp, agentId := agentId
      action := action, detail := detail, outcome := outcome, prevHash := log.tip
      hash := genesis }
  { e with hash := computeEntryHash sha256 e }

/-- `record`, in memory. -/
def record (log : AuditLog) (timestamp agentId : Str) (action : AuditAction)
    (detail outcome : Str) : AuditLog :=
  let e := nextEntry sha256 log timestamp agentId action detail outcome
  { entries := log.entries ++ [e], tip := e.hash }

/-- The walk of `verify_integrity`. -/
def verifyFrom (expectedPrev : Str) : List AuditEntry → Except String Unit
  | [] => .ok ()
  | e :: entries =>
    if e.prevHash ≠ expectedPrev then
      .error ("chain break at seq " ++ toString e.seq.toNat ++ ": expected prev_hash " ++
        expectedPrev.1 ++ " but found " ++ e.prevHash.1)
    else if computeEntryHash sha256 e ≠ e.hash then
      .error ("hash mismatch at seq " ++ toString e.seq.toNat ++ ": expected " ++
        (computeEntryHash sha256 e).1 ++ " but found " ++ e.hash.1)
    else verifyFrom e.hash entries

/-- `verify_integrity`. -/
def verifyIntegrity (log : AuditLog) : Except String Unit := verifyFrom sha256 genesis log.entries

/-- The logs that the program makes: empty, or replayed from a file, and then recorded into. -/
inductive Reachable : AuditLog → Prop
  | new : Reachable {}
  | opened (lines : List (Option AuditEntry)) : Reachable (replay sha256 {} lines)
  | recorded {log : AuditLog} (h : Reachable log) (timestamp agentId : Str) (action : AuditAction)
      (detail outcome : Str) : Reachable (record sha256 log timestamp agentId action detail outcome)

end Code

/-! ### What the hash is taken of -/

theorem display_injective : Function.Injective AuditAction.display := by
  intro a b h
  cases a <;> cases b <;> first | rfl | exact absurd h (by decide)

theorem length_display (a : AuditAction) : a.display.utf8ByteSize < 2 ^ 64 := by
  cases a <;> decide

theorem writeLp_append_inj {s t : String} {r r' : List UInt8} (hs : s.utf8ByteSize < 2 ^ 64)
    (ht : t.utf8ByteSize < 2 ^ 64) (h : writeLp s ++ r = writeLp t ++ r') : s = t ∧ r = r' := by
  have hpow : 256 ^ 8 = 2 ^ 64 := rfl
  obtain ⟨hbytes, hrest⟩ := framed_append_inj (length_littleEndian 8)
    (fun n m (hn : n < 2 ^ 64) (hm : m < 2 ^ 64) => littleEndian_inj (hpow ▸ hn) (hpow ▸ hm))
    (by rwa [length_utf8]) (by rwa [length_utf8]) h
  exact ⟨utf8_injective hbytes, hrest⟩

theorem Str.lt (s : Str) : s.1.utf8ByteSize < 2 ^ 64 := Nat.lt_trans s.2 (by decide)

/-- The hash is taken of all the fields but itself. -/
theorem eq_of_preimage {a b : AuditEntry} (h : a.preimage = b.preimage) (hhash : a.hash = b.hash) :
    a = b := by
  unfold AuditEntry.preimage at h
  obtain ⟨hseq, h⟩ := List.append_inj (List.append_cancel_left h) (by simp)
  obtain ⟨htime, h⟩ := writeLp_append_inj (Str.lt _) (Str.lt _) h
  obtain ⟨hagent, h⟩ := writeLp_append_inj (Str.lt _) (Str.lt _) h
  obtain ⟨haction, h⟩ := writeLp_append_inj (length_display _) (length_display _) h
  obtain ⟨hdetail, h⟩ := writeLp_append_inj (Str.lt _) (Str.lt _) h
  obtain ⟨houtcome, h⟩ := writeLp_append_inj (Str.lt _) (Str.lt _) h
  obtain ⟨hprev, -⟩ := @writeLp_append_inj _ _ [] [] (Str.lt _) (Str.lt _) (by simpa using h)
  have hseq' : a.seq = b.seq :=
    UInt64.toNat_inj.1 (littleEndian_inj (UInt64.toNat_lt _) (UInt64.toNat_lt _) hseq)
  cases a
  cases b
  simp_all [Subtype.ext_iff, display_injective.eq_iff]

/-! ### Logs as hash chains -/

section Chains

variable (sha256 : List UInt8 → Str)

/-- How entries are chained. -/
def format : Format AuditEntry Str where
  prev := AuditEntry.prevHash
  hash := AuditEntry.hash
  digest := computeEntryHash sha256
  genesis := genesis

/-- Every entry names the hash of the one before, and has its own. -/
def Intact (l : List AuditEntry) : Prop := Chain (format sha256) genesis l

/-- The hash at the end of some entries. -/
def endHash (l : List AuditEntry) : Str := tip (format sha256) genesis l

/-- SHA-256 is collision free on what some entries hash, and does not give the genesis hash. -/
structure NoCollision (l : List AuditEntry) : Prop where
  inj : ∀ a ∈ l, ∀ b ∈ l, sha256 a.preimage = sha256 b.preimage → a.preimage = b.preimage
  genesis : ∀ a ∈ l, sha256 a.preimage ≠ genesis

variable {sha256} {log : AuditLog} {l : List AuditEntry}

theorem NoCollision.collisionFree (h : NoCollision sha256 l) : CollisionFree (format sha256) l :=
  ⟨fun a ha b hb hdigest hhash => eq_of_preimage (h.inj a ha b hb hdigest) hhash, h.genesis⟩

theorem NoCollision.mono {l l' : List AuditEntry} (h : NoCollision sha256 l') (hl : l ⊆ l') :
    NoCollision sha256 l :=
  ⟨fun a ha b hb => h.inj a (hl ha) b (hl hb), fun a ha => h.genesis a (hl ha)⟩

theorem verifyFrom_eq_ok {start : Str} :
    verifyFrom sha256 start l = .ok () ↔ Chain (format sha256) start l := by
  induction l generalizing start with
  | nil => simp [verifyFrom]
  | cons e l ih =>
    unfold verifyFrom
    split_ifs with hprev hhash
    · exact iff_of_false nofun fun h => hprev h.1
    · exact iff_of_false nofun fun h => hhash h.2.1
    · rw [ih, chain_cons]
      exact ⟨fun h => ⟨not_not.1 hprev, not_not.1 hhash, h⟩, fun h => h.2.2⟩

/-- A log that is a chain, with the tip at its end. -/
structure Linked (sha256 : List UInt8 → Str) (log : AuditLog) : Prop where
  intact : Intact sha256 log.entries
  tip_eq : log.tip = endHash sha256 log.entries

theorem Linked.push (h : Linked sha256 log) {e : AuditEntry} (hprev : e.prevHash = log.tip)
    (hhash : computeEntryHash sha256 e = e.hash) :
    Linked sha256 { entries := log.entries ++ [e], tip := e.hash } := by
  refine ⟨chain_concat.2 ⟨h.intact, hprev.trans h.tip_eq, hhash⟩, ?_⟩
  simp [endHash, format]

theorem Linked.replay (h : Linked sha256 log) (lines : List (Option AuditEntry)) :
    Linked sha256 (replay sha256 log lines) := by
  induction lines generalizing log with
  | nil => exact h
  | cons line lines ih =>
    cases line with
    | none => exact ih h
    | some e =>
      unfold Audit.replay
      split_ifs with hprev hhash
      · exact h
      · exact h
      · exact ih (h.push (not_not.1 hprev) (not_not.1 hhash))

theorem computeEntryHash_nextEntry (timestamp agentId : Str) (action : AuditAction)
    (detail outcome : Str) :
    computeEntryHash sha256 (nextEntry sha256 log timestamp agentId action detail outcome) =
      (nextEntry sha256 log timestamp agentId action detail outcome).hash := by
  simp only [nextEntry, computeEntryHash, AuditEntry.preimage]

theorem linked_new : Linked sha256 {} := ⟨chain_nil, rfl⟩

theorem Reachable.linked (h : Reachable sha256 log) : Linked sha256 log := by
  induction h with
  | new => exact linked_new
  | opened lines => exact linked_new.replay lines
  | recorded h timestamp agentId action detail outcome ih =>
    exact ih.push rfl (computeEntryHash_nextEntry timestamp agentId action detail outcome)

/-- Other entries are found out if and only if they are not a chain of their own that ends in
another hash than the log. -/
theorem verifyIntegrity_iff (h : Reachable sha256 log) (hne : l ≠ log.entries)
    (hsha : NoCollision sha256 (log.entries ++ l)) :
    (∃ e, verifyIntegrity sha256 { log with entries := l } = .error e) ↔
      ¬ (Intact sha256 l ∧ endHash sha256 l ≠ log.tip) := by
  have hend : Intact sha256 l → endHash sha256 l ≠ log.tip := by
    intro hl htip
    rw [h.linked.tip_eq] at htip
    exact hne (h.linked.intact.unique hl hsha.collisionFree htip.symm).symm
  have hok : verifyIntegrity sha256 { log with entries := l } = .ok () ↔ Intact sha256 l :=
    verifyFrom_eq_ok
  rw [and_iff_left_of_imp hend, ← hok]
  cases verifyIntegrity sha256 { log with entries := l } with
  | ok _ => simp
  | error e => simp

end Chains

/-! ### A forged entry, and a shortened log -/

/-- A string that is short enough, or the genesis hash. -/
def strOf (s : String) : Str := if h : s.utf8ByteSize < 2 ^ 63 then ⟨s, h⟩ else genesis

/-- A hash that only sums the bytes up. -/
def sumHash (bytes : List UInt8) : Str := strOf (toString (bytes.map UInt8.toNat).sum)

/-- A log with one entry. -/
def oneRecord : AuditLog :=
  record sumHash {} (strOf "2026-01-01T00:00:00+00:00") (strOf "ann") .shellExec (strOf "ls")
    (strOf "ok")

/-- The same entry, with another detail. -/
def forged : List AuditEntry := oneRecord.entries.map fun e => { e with detail := strOf "pwd" }

theorem oneRecord_reachable : Reachable sumHash oneRecord := Reachable.new.recorded _ _ _ _ _

theorem utf8_strOf {l : List Char} (h : (String.ofList l).utf8ByteSize < 2 ^ 63) :
    utf8 (strOf (String.ofList l)).1 = l.flatMap String.utf8EncodeChar := by
  rw [strOf, dif_pos h, utf8_ofList]

theorem hashes_forged : (oneRecord.entries ++ forged).map (computeEntryHash sumHash) =
    [strOf "6096", strOf "6205"] := by
  have hgenesis : utf8 genesis.1 = (List.replicate 64 '0').flatMap String.utf8EncodeChar :=
    utf8_ofList _
  show [computeEntryHash sumHash ⟨0, strOf _, strOf _, .shellExec, strOf _, strOf _, genesis, _⟩,
    computeEntryHash sumHash ⟨0, strOf _, strOf _, .shellExec, strOf _, strOf _, genesis, _⟩] = _
  simp only [computeEntryHash, AuditEntry.preimage, writeLp, hgenesis]
  rw [utf8_strOf (by decide), utf8_strOf (by decide),
    utf8_strOf (by decide), utf8_strOf (by decide), utf8_strOf (by decide)]
  decide +kernel

theorem noCollision_forged : NoCollision sumHash (oneRecord.entries ++ forged) where
  inj a ha b hb h := congrArg AuditEntry.preimage (List.inj_on_of_nodup_map
    (f := computeEntryHash sumHash) (hashes_forged ▸ by decide) ha hb h)
  genesis a ha := by
    have h := List.mem_map_of_mem (f := computeEntryHash sumHash) ha
    rw [hashes_forged] at h
    exact ne_of_mem_of_not_mem h (by decide)

theorem forged_ne : forged ≠ oneRecord.entries := by decide

theorem endHash_forged : endHash sumHash forged = oneRecord.tip := by
  rw [oneRecord_reachable.linked.tip_eq, endHash, endHash, tip, tip, forged, List.getLast?_map,
    Option.map_map]
  rfl

theorem verifyIntegrity_forged :
    (∃ e, verifyIntegrity sumHash { oneRecord with entries := forged } = .error e) :=
  (verifyIntegrity_iff oneRecord_reachable forged_ne noCollision_forged).2
    fun h => h.2 endHash_forged

theorem verifyIntegrity_misses :
    ¬ ∀ (sha256 : List UInt8 → Str) (log : AuditLog) (l : List AuditEntry),
      Reachable sha256 log → l ≠ log.entries → NoCollision sha256 (log.entries ++ l) →
      ∃ e, verifyIntegrity sha256 { log with entries := l } = .error e := by
  intro h
  obtain ⟨e, he⟩ := h sumHash oneRecord [] oneRecord_reachable (List.cons_ne_nil _ _).symm
    (noCollision_forged.mono (List.append_subset.2 ⟨List.subset_append_left _ _, nofun⟩))
  cases he

end Audit
end RustyHand
