import RustyHand.Types.Json
import RustyHand.Types.Text

/-!
# The loop guard

`rusty-hand-runtime/src/loop_guard.rs`: the calls of a run of the agent loop are counted by a hash
of the tool and its parameters, and a verdict is given on each.  The hash maps are total functions
with the default of the source's `or_insert`; a count is a `u32`, which starts again at zero when it
is full, as in a release build.  SHA-256 and lower case are the fields of `Hashing`.

* `check`, `recordOutcome`, `getPollBackoff`;
* `totalCalls_check`, `check_circuitBreak_iff`: when the circuit breaks.
-/

namespace RustyHand
namespace LoopGuard

/-- `LoopGuardConfig`. -/
structure LoopGuardConfig where
  warnThreshold : ℕ := 3
  blockThreshold : ℕ := 5
  globalCircuitBreaker : ℕ := 30
  pollMultiplier : ℕ := 3
  outcomeWarnThreshold : ℕ := 2
  outcomeBlockThreshold : ℕ := 3
  pingPongMinRepeats : ℕ := 3
  maxWarningsPerCall : ℕ := 3

/-- `LoopGuardVerdict`. -/
inductive LoopGuardVerdict
  | allow
  | warn (message : String)
  | block (message : String)
  | circuitBreak (message : String)

/-- What the guard takes from other crates: the hexadecimal SHA-256 digest, and `to_lowercase`. -/
structure Hashing where
  sha256 : List UInt8 → String
  toLowercase : String → String

/-- `HISTORY_SIZE`. -/
def historySize : ℕ := 30

/-- `BACKOFF_SCHEDULE_MS`. -/
def backoffScheduleMs : List ℕ := [5000, 10000, 30000, 60000]

/-- `LoopGuard`. -/
structure State where
  config : LoopGuardConfig
  callCounts : String → ℕ := fun _ => 0
  totalCalls : ℕ := 0
  outcomeCounts : String → ℕ := fun _ => 0
  blockedOutcomes : List String := []
  recentCalls : List String := []
  warningsEmitted : String → ℕ := fun _ => 0
  pollCounts : String → ℕ := fun _ => 0
  blockedCalls : ℕ := 0
  hashToTool : String → Option String := fun _ => none

/-- A number as a `u32`. -/
def u32 (n : ℕ) : ℕ := n % 2 ^ 32

/-- One more for a key. -/
def increment (counts : String → ℕ) (key : String) : String → ℕ :=
  fun k => if k = key then u32 (counts key + 1) else counts k

/-! ### Hashes -/

/-- `write_lp`: the length in eight bytes, little end first, and the bytes. -/
def lengthPrefixed (bytes : List UInt8) : List UInt8 :=
  (List.range 8).map (fun i => UInt8.ofNat (bytes.length / 256 ^ i % 256)) ++ bytes

/-- `compute_hash`. -/
def computeHash (h : Hashing) (toolName : String) (params : Json) : String :=
  h.sha256 (1 :: (lengthPrefixed toolName.toUTF8.toList ++
    lengthPrefixed params.toString.toUTF8.toList))

/-- `compute_outcome_hash`. -/
def computeOutcomeHash (h : Hashing) (toolName : String) (params : Json) (result : String) :
    String :=
  h.sha256 (1 :: (lengthPrefixed toolName.toUTF8.toList ++
    lengthPrefixed params.toString.toUTF8.toList ++
    lengthPrefixed (Text.truncateBytes result 1000).toUTF8.toList))

/-! ### Polls -/

/-- The words by which a short command is known for a status check. -/
def pollWords : List String :=
  ["status", "poll", "wait", "watch", "tail", "ps ", "jobs", "pgrep", "docker ps", "kubectl get"]

/-- `is_poll_call`. -/
def isPollCall (h : Hashing) (toolName : String) (params : Json) : Bool :=
  (toolName = "shell_exec" &&
    match (params.get "command").bind Json.asStr with
    | some cmd =>
      decide (cmd.utf8ByteSize < 50) && pollWords.any (Text.containsText (h.toLowercase cmd))
    | none => false) ||
  ["status", "poll", "wait"].any (Text.containsText (h.toLowercase params.toString))

/-! ### Ping-pong -/

/-- The tool of a hash, for a message. -/
def State.toolOf (g : State) (hash : String) : String := (g.hashToTool hash).getD "unknown"

/-- The last `n` recent calls, if there are as many. -/
def State.tail (g : State) (n : ℕ) : List String :=
  if n ≤ g.recentCalls.length then g.recentCalls.drop (g.recentCalls.length - n) else []

/-- `detect_ping_pong_impl`. -/
def State.detectPingPong (g : State) : Option String :=
  let two : Option String :=
    match g.tail 6 with
    | [a, b, c, d, e, f] =>
      if a ≠ b ∧ c = a ∧ d = b ∧ e = a ∧ f = b then
        some ("Ping-pong detected: tools '" ++ g.toolOf a ++ "' and '" ++ g.toolOf b ++
          "' are alternating repeatedly. Break the cycle by trying a different approach.")
      else none
    | _ => none
  let three : Option String :=
    match g.tail 9 with
    | [a, b, c, a', b', c', a'', b'', c''] =>
      if ¬ (a = b ∧ b = c) ∧ a' = a ∧ b' = b ∧ c' = c ∧ a'' = a ∧ b'' = b ∧ c'' = c then
        some ("Ping-pong detected: tools '" ++ g.toolOf a ++ "', '" ++ g.toolOf b ++ "', '" ++
          g.toolOf c ++
          "' are cycling repeatedly. Break the cycle by trying a different approach.")
      else none
    | _ => none
  two.or three

/-- How often the calls, last first, repeat `b`, `a`. -/
def repeatsTwo (a b : String) : List String → ℕ
  | y :: x :: rest => if x = a ∧ y = b then repeatsTwo a b rest + 1 else 0
  | _ => 0

/-- How often the calls, last first, repeat `c`, `b`, `a`. -/
def repeatsThree (a b c : String) : List String → ℕ
  | z :: y :: x :: rest => if x = a ∧ y = b ∧ z = c then repeatsThree a b c rest + 1 else 0
  | _ => 0

/-- `count_ping_pong_repeats`. -/
def State.countPingPongRepeats (g : State) : ℕ :=
  let latest := g.recentCalls.reverse
  let two : ℕ :=
    match latest with
    | b :: a :: _ :: _ :: _ => if a ≠ b then repeatsTwo a b latest else 0
    | _ => 0
  let three : ℕ :=
    match latest with
    | c :: b :: a :: _ :: _ :: _ :: _ =>
      if ¬ (a = b ∧ b = c) then repeatsThree a b c latest else 0
    | _ => 0
  if 2 ≤ two then two else if 2 ≤ three then three else 0

/-! ### Verdicts -/

/-- The ping-pong part of `check`. -/
def checkPingPong (hash : String) (g : State) : LoopGuardVerdict × State :=
  match g.detectPingPong with
  | none => (.allow, g)
  | some message =>
    if g.config.pingPongMinRepeats ≤ g.countPingPongRepeats then
      (.block message, { g with blockedCalls := u32 (g.blockedCalls + 1) })
    else
      let key := "pingpong_" ++ hash
      let g := { g with warningsEmitted := increment g.warningsEmitted key }
      if g.warningsEmitted key ≤ g.config.maxWarningsPerCall then (.warn message, g)
      else (.allow, g)

/-- The call of a hash becomes the latest one. -/
def State.note (g : State) (hash toolName : String) : State :=
  { g with
    hashToTool := fun k =>
      if k = hash then some ((g.hashToTool hash).getD toolName) else g.hashToTool k
    recentCalls :=
      (if historySize ≤ g.recentCalls.length then g.recentCalls.drop 1 else g.recentCalls) ++
        [hash] }

/-- The factor of the thresholds for a call. -/
def State.multiplier (g : State) (h : Hashing) (toolName : String) (params : Json) : ℕ :=
  if isPollCall h toolName params then g.config.pollMultiplier else 1

/-- `check` after the circuit breaker: the call is counted, and its counts are judged. -/
def checkCounts (h : Hashing) (toolName : String) (params : Json) (g : State) :
    LoopGuardVerdict × State :=
  let hash := computeHash h toolName params
  let g := g.note hash toolName
  if hash ∈ g.blockedOutcomes then
    (.block ("Blocked: tool '" ++ toolName ++ "' is returning identical results repeatedly. " ++
        "The current approach is not working — try something different."),
      { g with blockedCalls := u32 (g.blockedCalls + 1) })
  else
    let g := { g with callCounts := increment g.callCounts hash }
    let count := g.callCounts hash
    let multiplier := g.multiplier h toolName params
    if u32 (g.config.blockThreshold * multiplier) ≤ count then
      (.block ("Blocked: tool '" ++ toolName ++ "' called " ++ toString count ++
          " times with identical parameters. " ++
          "Try a different approach or different parameters."),
        { g with blockedCalls := u32 (g.blockedCalls + 1) })
    else if u32 (g.config.warnThreshold * multiplier) ≤ count then
      let g := { g with warningsEmitted := increment g.warningsEmitted hash }
      if g.config.maxWarningsPerCall < g.warningsEmitted hash then
        (.block ("Blocked: tool '" ++ toolName ++ "' called " ++ toString count ++
            " times with identical parameters (warnings exhausted). Try a different approach."),
          { g with blockedCalls := u32 (g.blockedCalls + 1) })
      else
        (.warn ("Warning: tool '" ++ toolName ++ "' has been called " ++ toString count ++
          " times with identical parameters. Consider a different approach."), g)
    else checkPingPong hash g

/-- `check`. -/
def check (h : Hashing) (toolName : String) (params : Json) (g : State) :
    LoopGuardVerdict × State :=
  let g := { g with totalCalls := u32 (g.totalCalls + 1) }
  if g.config.globalCircuitBreaker < g.totalCalls then
    (.circuitBreak ("Circuit breaker: exceeded " ++ toString g.config.globalCircuitBreaker ++
        " total tool calls in this loop. The agent appears to be stuck."),
      { g with blockedCalls := u32 (g.blockedCalls + 1) })
  else checkCounts h toolName params g

/-- `record_outcome`. -/
def recordOutcome (h : Hashing) (toolName : String) (params : Json) (result : String) (g : State) :
    Option String × State :=
  let outcome := computeOutcomeHash h toolName params result
  let g := { g with outcomeCounts := increment g.outcomeCounts outcome }
  let count := g.outcomeCounts outcome
  let note :=
    "Tool '" ++ toolName ++ "' is returning identical results — the approach isn't working."
  if g.config.outcomeBlockThreshold ≤ count then
    (some note,
      { g with blockedOutcomes := computeHash h toolName params :: g.blockedOutcomes })
  else if g.config.outcomeWarnThreshold ≤ count then (some note, g)
  else (none, g)

/-- `get_poll_backoff`. -/
def getPollBackoff (h : Hashing) (toolName : String) (params : Json) (g : State) :
    Option ℕ × State :=
  if isPollCall h toolName params then
    let hash := computeHash h toolName params
    let g := { g with pollCounts := increment g.pollCounts hash }
    let count := g.pollCounts hash
    if count ≤ 1 then (none, g)
    else (some (backoffScheduleMs.getD (count - 2) 60000), g)
  else (none, g)

/-! ### The circuit breaker -/

theorem u32_le (n : ℕ) : u32 n ≤ n := Nat.mod_le _ _

theorem u32_of_lt {n : ℕ} (h : n < 2 ^ 32) : u32 n = n := Nat.mod_eq_of_lt h

/-- Neither the limits nor the number of calls has changed. -/
structure Frame (g g' : State) : Prop where
  config : g'.config = g.config
  totalCalls : g'.totalCalls = g.totalCalls

theorem Frame.trans {g g' g'' : State} (h : Frame g g') (h' : Frame g' g'') : Frame g g'' :=
  ⟨h'.config.trans h.config, h'.totalCalls.trans h.totalCalls⟩

theorem frame_checkPingPong (hash : String) (g : State) : Frame g (checkPingPong hash g).2 := by
  unfold checkPingPong
  split
  · exact ⟨rfl, rfl⟩
  · dsimp only
    split_ifs <;> exact ⟨rfl, rfl⟩

theorem frame_checkCounts (h : Hashing) (toolName : String) (params : Json) (g : State) :
    Frame g (checkCounts h toolName params g).2 := by
  unfold checkCounts
  dsimp only
  split_ifs
  iterate 4 exact ⟨rfl, rfl⟩
  have hframe := frame_checkPingPong (computeHash h toolName params)
    { g.note (computeHash h toolName params) toolName with
      callCounts := increment g.callCounts (computeHash h toolName params) }
  exact ⟨hframe.config, hframe.totalCalls⟩

theorem frame_recordOutcome (h : Hashing) (toolName : String) (params : Json) (result : String)
    (g : State) : Frame g (recordOutcome h toolName params result g).2 := by
  unfold recordOutcome
  dsimp only
  split_ifs <;> exact ⟨rfl, rfl⟩

theorem frame_getPollBackoff (h : Hashing) (toolName : String) (params : Json) (g : State) :
    Frame g (getPollBackoff h toolName params g).2 := by
  unfold getPollBackoff
  dsimp only
  split_ifs <;> exact ⟨rfl, rfl⟩

theorem totalCalls_check (h : Hashing) (toolName : String) (params : Json) (g : State) :
    (check h toolName params g).2.totalCalls = u32 (g.totalCalls + 1) ∧
      (check h toolName params g).2.config = g.config := by
  unfold check
  dsimp only
  split_ifs
  · exact ⟨rfl, rfl⟩
  · have hframe := frame_checkCounts h toolName params
      { g with totalCalls := u32 (g.totalCalls + 1) }
    exact ⟨hframe.totalCalls, hframe.config⟩

theorem checkPingPong_ne_circuitBreak (hash : String) (g : State) (message : String) :
    (checkPingPong hash g).1 ≠ .circuitBreak message := by
  unfold checkPingPong
  split
  · simp
  · dsimp only
    split_ifs <;> simp

theorem checkCounts_ne_circuitBreak (h : Hashing) (toolName : String) (params : Json) (g : State)
    (message : String) : (checkCounts h toolName params g).1 ≠ .circuitBreak message := by
  unfold checkCounts
  dsimp only
  split_ifs
  iterate 4 simp
  exact checkPingPong_ne_circuitBreak _ _ _

/-- The circuit breaks just when the calls of the run exceed the limit. -/
theorem check_circuitBreak_iff (h : Hashing) (toolName : String) (params : Json) (g : State) :
    (∃ message, (check h toolName params g).1 = .circuitBreak message) ↔
      g.config.globalCircuitBreaker < u32 (g.totalCalls + 1) := by
  unfold check
  dsimp only
  split_ifs with hlimit
  · simp [hlimit]
  · simp only [hlimit, iff_false, not_exists]
    exact checkCounts_ne_circuitBreak h toolName params _

end LoopGuard
end RustyHand
