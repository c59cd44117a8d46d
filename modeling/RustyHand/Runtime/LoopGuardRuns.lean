import Mathlib.Data.List.Basic
import Mathlib.Order.Basic
import RustyHand.Runtime.LoopGuard

/-!
# Runs of the loop guard

Calls of `check` and of `record_outcome` one after another, with the verdicts that the checks come
to.

* `Checked`, `check_cases`: what a check does to the counts, by its verdict;
* `Later`: the counts grow, as long as none of them is full;
* `Barred`: a call that is not permitted any more;
* `Guarded`: the limits that the verdicts of a run keep;
* `guarded_run`: they keep them, in a run of fewer than `2 ^ 32` checks.
-/

namespace RustyHand
namespace LoopGuard

/-- A call of the guard. -/
inductive Call
  | check (toolName : String) (params : Json)
  | recordOutcome (toolName : String) (params : Json) (result : String)

def Call.isCheck : Call → Bool
  | check _ _ => true
  | recordOutcome _ _ _ => false

/-- The checks of a run with their verdicts. -/
def verdicts (h : Hashing) : State → List Call → List ((String × Json) × LoopGuardVerdict)
  | _, [] => []
  | g, .check toolName params :: calls =>
    ((toolName, params), (check h toolName params g).1) ::
      verdicts h (check h toolName params g).2 calls
  | g, .recordOutcome toolName params result :: calls =>
    verdicts h (recordOutcome h toolName params result g).2 calls

/-- The tool is executed. -/
def LoopGuardVerdict.permits : LoopGuardVerdict → Bool
  | allow => true
  | warn _ => true
  | _ => false

def LoopGuardVerdict.breaks : LoopGuardVerdict → Bool
  | circuitBreak _ => true
  | _ => false

/-- What a check says that blocks a tool for its outcomes, for the number of its calls, or for the
number of its warnings. -/
inductive BlockedFor (toolName : String) : LoopGuardVerdict → Prop
  | outcomes : BlockedFor toolName (.block ("Blocked: tool '" ++ toolName ++
      "' is returning identical results repeatedly. " ++
      "The current approach is not working — try something different."))
  | count (n : ℕ) : BlockedFor toolName (.block ("Blocked: tool '" ++ toolName ++ "' called " ++
      toString n ++ " times with identical parameters. " ++
      "Try a different approach or different parameters."))
  | warnings (n : ℕ) : BlockedFor toolName (.block ("Blocked: tool '" ++ toolName ++ "' called " ++
      toString n ++
      " times with identical parameters (warnings exhausted). Try a different approach."))

/-- `effective_block`. -/
def State.effectiveBlock (g : State) (h : Hashing) (toolName : String) (params : Json) : ℕ :=
  u32 (g.config.blockThreshold * g.multiplier h toolName params)

/-- `effective_warn`. -/
def State.effectiveWarn (g : State) (h : Hashing) (toolName : String) (params : Json) : ℕ :=
  u32 (g.config.warnThreshold * g.multiplier h toolName params)

/-! ### One check -/

section Check

variable (h : Hashing) (toolName : String) (params : Json) (g : State)

/-- What a check does to the counts of calls and of warnings, by its verdict. -/
inductive Checked (key : String) : LoopGuardVerdict → (String → ℕ) → (String → ℕ) → Prop
  | broken (message : String) : Checked key (.circuitBreak message) g.callCounts g.warningsEmitted
  | outcomes (hmem : key ∈ g.blockedOutcomes) (message : String) :
      Checked key (.block message) g.callCounts g.warningsEmitted
  | count (hfree : key ∉ g.blockedOutcomes)
      (hblock : g.effectiveBlock h toolName params ≤ u32 (g.callCounts key + 1))
      (message : String) :
      Checked key (.block message) (increment g.callCounts key) g.warningsEmitted
  | exhausted (hfree : key ∉ g.blockedOutcomes)
      (hwarn : g.effectiveWarn h toolName params ≤ u32 (g.callCounts key + 1))
      (hmax : g.config.maxWarningsPerCall < u32 (g.warningsEmitted key + 1)) (message : String) :
      Checked key (.block message) (increment g.callCounts key) (increment g.warningsEmitted key)
  | warned (hfree : key ∉ g.blockedOutcomes)
      (hblock : u32 (g.callCounts key + 1) < g.effectiveBlock h toolName params)
      (hmax : u32 (g.warningsEmitted key + 1) ≤ g.config.maxWarningsPerCall) (message : String) :
      Checked key (.warn message) (increment g.callCounts key) (increment g.warningsEmitted key)
  | few (hfree : key ∉ g.blockedOutcomes)
      (hblock : u32 (g.callCounts key + 1) < g.effectiveBlock h toolName params)
      (hwarn : u32 (g.callCounts key + 1) < g.effectiveWarn h toolName params)
      (verdict : LoopGuardVerdict) (hverdict : ¬ BlockedFor toolName verdict)
      (counts warnings : String → ℕ) (hcounts : counts = increment g.callCounts key)
      (hwarnings : warnings = g.warningsEmitted ∨
        ∃ key', warnings = increment g.warningsEmitted key') :
      Checked key verdict counts warnings

theorem head?_append {s t : String} {c : Char} (h : s.toList.head? = some c) :
    (s ++ t).toList.head? = some c := by
  rw [String.toList_append, List.head?_append, h]
  rfl

theorem detectPingPong_not_blockedFor {message : String}
    (hdetect : g.detectPingPong = some message) :
    ¬ BlockedFor toolName (.block message) := by
  have hping : "Ping-pong detected: tools '".toList.head? = some 'P' := by
    rw [String.toList_ofList]
    rfl
  have htool : "Blocked: tool '".toList.head? = some 'B' := by
    rw [String.toList_ofList]
    rfl
  have hstart : message.toList.head? = some 'P' := by
    unfold State.detectPingPong at hdetect
    rcases Option.or_eq_some_iff.1 hdetect with htwo | ⟨-, hthree⟩
    · split at htwo
      · split_ifs at htwo
        rw [← Option.some.inj htwo]
        exact head?_append (head?_append (head?_append (head?_append hping)))
      · cases htwo
    · split at hthree
      · split_ifs at hthree
        rw [← Option.some.inj hthree]
        exact head?_append (head?_append (head?_append (head?_append (head?_append
          (head?_append hping)))))
      · cases hthree
  have hne : message.toList.head? ≠ some 'B' := by
    rw [hstart]
    decide
  intro hblocked
  cases hblocked with
  | outcomes => exact hne (head?_append (head?_append (head?_append htool)))
  | count n =>
    exact hne (head?_append (head?_append (head?_append (head?_append (head?_append htool)))))
  | warnings n => exact hne (head?_append (head?_append (head?_append (head?_append htool))))

theorem blockedFor_block {v : LoopGuardVerdict} (hv : BlockedFor toolName v) :
    ∃ message, v = .block message := by
  cases hv <;> exact ⟨_, rfl⟩

/-- The ping-pong part blocks for none of the reasons of `BlockedFor`, and counts at most one
warning. -/
theorem checkPingPong_spec (key : String) : ¬ BlockedFor toolName (checkPingPong key g).1 ∧
    (checkPingPong key g).2.callCounts = g.callCounts ∧
      ((checkPingPong key g).2.warningsEmitted = g.warningsEmitted ∨
        ∃ key', (checkPingPong key g).2.warningsEmitted = increment g.warningsEmitted key') := by
  have hother : ∀ v : LoopGuardVerdict, v.permits = true → ¬ BlockedFor toolName v := by
    intro v hv hblocked
    obtain ⟨message, rfl⟩ := blockedFor_block toolName hblocked
    cases hv
  unfold checkPingPong
  split
  · exact ⟨hother _ rfl, rfl, Or.inl rfl⟩
  · rename_i message hdetect
    dsimp only
    split_ifs
    · exact ⟨detectPingPong_not_blockedFor toolName g hdetect, rfl, Or.inl rfl⟩
    · exact ⟨hother _ rfl, rfl, Or.inr ⟨_, rfl⟩⟩
    · exact ⟨hother _ rfl, rfl, Or.inr ⟨_, rfl⟩⟩

theorem check_cases : Checked h toolName params g (computeHash h toolName params)
    (check h toolName params g).1 (check h toolName params g).2.callCounts
    (check h toolName params g).2.warningsEmitted := by
  have hself : ∀ counts : String → ℕ, increment counts (computeHash h toolName params)
      (computeHash h toolName params) = u32 (counts (computeHash h toolName params) + 1) :=
    fun counts => if_pos rfl
  unfold check
  dsimp only
  split_ifs
  · exact Checked.broken (g := g) _
  · unfold checkCounts
    dsimp only
    split_ifs with hmem hblock hwarn hmax
    · exact Checked.outcomes (g := g) hmem _
    · exact Checked.count (h := h) (g := g) hmem (by rwa [hself] at hblock) _
    · exact Checked.exhausted (h := h) (g := g) hmem
        (by rwa [hself] at hwarn) (by rwa [hself] at hmax) _
    · exact Checked.warned (h := h) (g := g) hmem
        (by rwa [not_le, hself] at hblock) (by rwa [not_lt, hself] at hmax) _
    · rw [not_le, hself] at hblock hwarn
      obtain ⟨hverdict, hcounts, hwarnings⟩ := checkPingPong_spec toolName
        { g.note (computeHash h toolName params) toolName with
          totalCalls := u32 (g.totalCalls + 1)
          callCounts := increment g.callCounts (computeHash h toolName params) }
        (computeHash h toolName params)
      exact Checked.few (h := h) (g := g) hmem hblock hwarn _ hverdict _ _ hcounts hwarnings

theorem blockedOutcomes_check :
    (check h toolName params g).2.blockedOutcomes = g.blockedOutcomes := by
  unfold check
  dsimp only
  split_ifs
  · rfl
  · unfold checkCounts
    dsimp only
    split_ifs
    iterate 4 rfl
    unfold checkPingPong
    split
    · rfl
    · dsimp only
      split_ifs <;> rfl

end Check

/-! ### Counts that grow -/

/-- The counts have grown, and so have the blocked outcomes. -/
structure Later (g g' : State) : Prop where
  config : g'.config = g.config
  callCounts : ∀ key, g.callCounts key ≤ g'.callCounts key
  warningsEmitted : ∀ key, g.warningsEmitted key ≤ g'.warningsEmitted key
  blockedOutcomes : ∀ key ∈ g.blockedOutcomes, key ∈ g'.blockedOutcomes

/-- No count of a call or of its warnings is more than that of all calls, which has room for `n`
more. -/
structure State.Room (g : State) (n : ℕ) : Prop where
  callCounts : ∀ key, g.callCounts key ≤ g.totalCalls
  warningsEmitted : ∀ key, g.warningsEmitted key ≤ g.totalCalls
  totalCalls : g.totalCalls + n < 2 ^ 32

variable {h : Hashing} {toolName : String} {params : Json} {g : State} {n : ℕ}

theorem increment_of_lt {counts : String → ℕ} {key : String} (hlt : counts key + 1 < 2 ^ 32)
    (key' : String) : counts key' ≤ increment counts key key' ∧
      increment counts key key' ≤ counts key' + 1 := by
  unfold increment
  split_ifs with heq
  · rw [heq, u32_of_lt hlt]
    exact ⟨Nat.le_succ _, le_rfl⟩
  · exact ⟨le_rfl, Nat.le_succ _⟩

theorem check_moves (hroom : g.Room (n + 1)) (key : String) :
    (g.callCounts key ≤ (check h toolName params g).2.callCounts key ∧
      (check h toolName params g).2.callCounts key ≤ g.callCounts key + 1) ∧
    (g.warningsEmitted key ≤ (check h toolName params g).2.warningsEmitted key ∧
      (check h toolName params g).2.warningsEmitted key ≤ g.warningsEmitted key + 1) := by
  have hcounts : ∀ key, g.callCounts key + 1 < 2 ^ 32 := fun key => by
    have hle := hroom.callCounts key
    have hlt := hroom.totalCalls
    omega
  have hwarnings : ∀ key, g.warningsEmitted key + 1 < 2 ^ 32 := fun key => by
    have hle := hroom.warningsEmitted key
    have hlt := hroom.totalCalls
    omega
  have hsame : ∀ m : ℕ, m ≤ m ∧ m ≤ m + 1 := fun m => ⟨le_rfl, Nat.le_succ m⟩
  have hchecked := check_cases h toolName params g
  revert hchecked
  generalize (check h toolName params g).1 = verdict
  generalize (check h toolName params g).2.callCounts = counts
  generalize (check h toolName params g).2.warningsEmitted = warnings
  intro hchecked
  cases hchecked with
  | broken message => exact ⟨hsame _, hsame _⟩
  | outcomes hmem message => exact ⟨hsame _, hsame _⟩
  | count hfree hblock message => exact ⟨increment_of_lt (hcounts _) key, hsame _⟩
  | exhausted hfree hwarn hmax message =>
    exact ⟨increment_of_lt (hcounts _) key, increment_of_lt (hwarnings _) key⟩
  | warned hfree hblock hmax message =>
    exact ⟨increment_of_lt (hcounts _) key, increment_of_lt (hwarnings _) key⟩
  | few hfree hblock hwarn verdict hverdict counts warnings heq hwarned =>
    subst heq
    refine ⟨increment_of_lt (hcounts _) key, ?_⟩
    rcases hwarned with rfl | ⟨key', rfl⟩
    · exact hsame _
    · exact increment_of_lt (hwarnings _) key

theorem later_check (hroom : g.Room (n + 1)) : Later g (check h toolName params g).2 where
  config := (totalCalls_check h toolName params g).2
  callCounts := fun key => (check_moves hroom key).1.1
  warningsEmitted := fun key => (check_moves hroom key).2.1
  blockedOutcomes := fun key hmem => by rwa [blockedOutcomes_check]

theorem totalCalls_of_room (hroom : g.Room (n + 1)) :
    (check h toolName params g).2.totalCalls = g.totalCalls + 1 := by
  have hlt := hroom.totalCalls
  rw [(totalCalls_check h toolName params g).1, u32_of_lt (by omega)]

theorem room_check (hroom : g.Room (n + 1)) : (check h toolName params g).2.Room n where
  callCounts := fun key => by
    rw [totalCalls_of_room hroom]
    exact (check_moves hroom key).1.2.trans (Nat.succ_le_succ (hroom.callCounts key))
  warningsEmitted := fun key => by
    rw [totalCalls_of_room hroom]
    exact (check_moves hroom key).2.2.trans (Nat.succ_le_succ (hroom.warningsEmitted key))
  totalCalls := by
    rw [totalCalls_of_room hroom]
    have hlt := hroom.totalCalls
    omega

theorem recordOutcome_frame (result : String) :
    (recordOutcome h toolName params result g).2.callCounts = g.callCounts ∧
    (recordOutcome h toolName params result g).2.warningsEmitted = g.warningsEmitted ∧
    ∀ key ∈ g.blockedOutcomes,
      key ∈ (recordOutcome h toolName params result g).2.blockedOutcomes := by
  unfold recordOutcome
  dsimp only
  split_ifs
  · exact ⟨rfl, rfl, fun key hmem => List.mem_cons_of_mem _ hmem⟩
  · exact ⟨rfl, rfl, fun key hmem => hmem⟩
  · exact ⟨rfl, rfl, fun key hmem => hmem⟩

theorem later_recordOutcome (result : String) :
    Later g (recordOutcome h toolName params result g).2 := by
  obtain ⟨hcounts, hwarnings, hblocked⟩ := recordOutcome_frame (h := h) (g := g) result
  exact ⟨(frame_recordOutcome h _ _ result g).config, fun key => (congrFun hcounts key).ge,
    fun key => (congrFun hwarnings key).ge, hblocked⟩

theorem room_recordOutcome (hroom : g.Room n) (result : String) :
    (recordOutcome h toolName params result g).2.Room n := by
  obtain ⟨hcounts, hwarnings, -⟩ :=
    recordOutcome_frame (h := h) (g := g) result
  have htotal := (frame_recordOutcome h toolName params result g).totalCalls
  refine ⟨?_, ?_, ?_⟩
  · rw [hcounts, htotal]
    exact hroom.callCounts
  · rw [hwarnings, htotal]
    exact hroom.warningsEmitted
  · rw [htotal]
    exact hroom.totalCalls

/-! ### Calls that are permitted -/

/-- What a check that permits its call has found and counted. -/
theorem check_permits (hroom : g.Room (n + 1)) (hpermits : (check h toolName params g).1.permits) :
    computeHash h toolName params ∉ g.blockedOutcomes ∧
      (check h toolName params g).2.callCounts (computeHash h toolName params) =
        g.callCounts (computeHash h toolName params) + 1 ∧
      g.callCounts (computeHash h toolName params) + 1 < g.effectiveBlock h toolName params ∧
      (g.callCounts (computeHash h toolName params) + 1 < g.effectiveWarn h toolName params ∨
        (check h toolName params g).2.warningsEmitted (computeHash h toolName params) =
          g.warningsEmitted (computeHash h toolName params) + 1 ∧
        g.warningsEmitted (computeHash h toolName params) + 1 ≤ g.config.maxWarningsPerCall) := by
  have hlt := hroom.totalCalls
  have hcount := hroom.callCounts (computeHash h toolName params)
  have hwarning := hroom.warningsEmitted (computeHash h toolName params)
  have hself : ∀ (counts : String → ℕ) (key : String), increment counts key key =
      u32 (counts key + 1) := fun counts key => if_pos rfl
  have hchecked := check_cases h toolName params g
  revert hchecked hpermits
  generalize (check h toolName params g).1 = verdict
  generalize (check h toolName params g).2.callCounts = counts
  generalize (check h toolName params g).2.warningsEmitted = warnings
  intro hpermits hchecked
  cases hchecked with
  | broken message => cases hpermits
  | outcomes hmem message => cases hpermits
  | count hfree hblock message => cases hpermits
  | exhausted hfree hwarn hmax message => cases hpermits
  | warned hfree hblock hmax message =>
    rw [u32_of_lt (by omega)] at hblock hmax
    refine ⟨hfree, ?_, hblock, Or.inr ⟨?_, hmax⟩⟩
    · rw [hself, u32_of_lt (by omega)]
    · rw [hself, u32_of_lt (by omega)]
  | few hfree hblock hwarn verdict hverdict counts warnings heq hwarned =>
    rw [u32_of_lt (by omega)] at hblock hwarn
    refine ⟨hfree, ?_, hblock, Or.inl hwarn⟩
    rw [heq, hself, u32_of_lt (by omega)]

/-- How many more calls of a tool may be permitted. -/
def State.budget (g : State) (h : Hashing) (toolName : String) (params : Json) : ℕ :=
  min (g.effectiveBlock h toolName params - 1 - g.callCounts (computeHash h toolName params))
    ((g.effectiveWarn h toolName params - 1 - g.callCounts (computeHash h toolName params)) +
      (g.config.maxWarningsPerCall - g.warningsEmitted (computeHash h toolName params)))

theorem Later.effective {g' : State} (hlater : Later g g') (h : Hashing) (toolName : String)
    (params : Json) : g'.effectiveBlock h toolName params = g.effectiveBlock h toolName params ∧
      g'.effectiveWarn h toolName params = g.effectiveWarn h toolName params := by
  simp only [State.effectiveBlock, State.effectiveWarn, State.multiplier, hlater.config, and_self]

theorem budget_later {g' : State} (hlater : Later g g') (h : Hashing) (toolName : String)
    (params : Json) : g'.budget h toolName params ≤ g.budget h toolName params := by
  obtain ⟨hblock, hwarn⟩ := hlater.effective h toolName params
  have hcounts := hlater.callCounts (computeHash h toolName params)
  have hwarnings := hlater.warningsEmitted (computeHash h toolName params)
  simp only [State.budget, hblock, hwarn, hlater.config]
  omega

/-- A call that is permitted takes one from the budget. -/
theorem budget_check (hroom : g.Room (n + 1)) (hpermits : (check h toolName params g).1.permits) :
    (check h toolName params g).2.budget h toolName params + 1 ≤ g.budget h toolName params := by
  have hlater : Later g (check h toolName params g).2 := later_check hroom
  obtain ⟨hblock, hwarn⟩ := hlater.effective h toolName params
  obtain ⟨-, hcount, hlt, hwarned⟩ := check_permits hroom hpermits
  have hwarnings := hlater.warningsEmitted (computeHash h toolName params)
  simp only [State.budget, hblock, hwarn, hlater.config, hcount]
  omega

/-! ### Calls that are permitted no more -/

/-- A check of the call does not permit it. -/
def State.Barred (g : State) (h : Hashing) (toolName : String) (params : Json) : Prop :=
  computeHash h toolName params ∈ g.blockedOutcomes ∨
    g.effectiveBlock h toolName params ≤ g.callCounts (computeHash h toolName params) ∨
    g.effectiveWarn h toolName params ≤ g.callCounts (computeHash h toolName params) ∧
      g.config.maxWarningsPerCall ≤ g.warningsEmitted (computeHash h toolName params)

theorem State.Barred.later {g' : State} (hbarred : g.Barred h toolName params)
    (hlater : Later g g') : g'.Barred h toolName params := by
  obtain ⟨hblock, hwarn⟩ := hlater.effective h toolName params
  have hcounts := hlater.callCounts (computeHash h toolName params)
  have hwarnings := hlater.warningsEmitted (computeHash h toolName params)
  rcases hbarred with hmem | hcount | ⟨hcount, hmax⟩
  · exact Or.inl (hlater.blockedOutcomes _ hmem)
  · exact Or.inr (Or.inl (by omega))
  · refine Or.inr (Or.inr ⟨by omega, ?_⟩)
    rw [hlater.config]
    exact hmax.trans hwarnings

theorem State.Barred.not_permits (hbarred : g.Barred h toolName params)
    (hroom : g.Room (n + 1)) : (check h toolName params g).1.permits = false := by
  by_contra hpermits
  obtain ⟨hfree, -, hblock, hwarn⟩ := check_permits hroom (Bool.not_eq_false _ ▸ hpermits)
  rcases hbarred with hmem | hcount | ⟨hcount, hmax⟩
  · exact hfree hmem
  · omega
  · rcases hwarn with hwarn | ⟨-, hwarn⟩ <;> omega

/-- A call that is blocked for its outcomes, its number or its warnings is barred. -/
theorem barred_check (hroom : g.Room (n + 1))
    (hblocked : BlockedFor toolName (check h toolName params g).1) :
    (check h toolName params g).2.Barred h toolName params := by
  have hlater : Later g (check h toolName params g).2 := later_check hroom
  obtain ⟨heffective, heffective'⟩ := hlater.effective h toolName params
  have hconfig := hlater.config
  have hmem' := hlater.blockedOutcomes (computeHash h toolName params)
  have hself : ∀ (counts : String → ℕ) (key : String), increment counts key key =
      u32 (counts key + 1) := fun counts key => if_pos rfl
  unfold State.Barred
  rw [heffective, heffective', hconfig]
  have hchecked := check_cases h toolName params g
  revert hchecked hblocked
  generalize (check h toolName params g).1 = verdict
  generalize (check h toolName params g).2.callCounts = counts
  generalize (check h toolName params g).2.warningsEmitted = warnings
  intro hblocked hchecked
  cases hchecked with
  | broken message => cases hblocked
  | outcomes hmem message => exact Or.inl (hmem' hmem)
  | count hfree hblock message =>
    rw [hself]
    exact Or.inr (Or.inl hblock)
  | exhausted hfree hwarn hmax message =>
    rw [hself, hself]
    exact Or.inr (Or.inr ⟨hwarn, hmax.le⟩)
  | warned hfree hblock hmax message => cases hblocked
  | few hfree hblock hwarn verdict hverdict counts warnings heq hwarned =>
    exact absurd hblocked hverdict

/-! ### Runs -/

/-- The guard with a configuration, before the first call. -/
def State.new (config : LoopGuardConfig) : State := { config }

/-- The most calls of one tool with the same parameters that are permitted. -/
def LoopGuardConfig.permittedMax (config : LoopGuardConfig) (multiplier : ℕ) : ℕ :=
  min (config.blockThreshold * multiplier - 1)
    (config.warnThreshold * multiplier - 1 + config.maxWarningsPerCall)

open Classical in
/-- What the verdicts of a run keep to: how many calls of one tool with the same parameters are
permitted, by the multiplier of their thresholds, how many checks do not break the circuit, and that
a call that is blocked and a circuit that is broken stay so. -/
structure Guarded (h : Hashing) (config : LoopGuardConfig) (bound : ℕ → ℤ)
    (log : List ((String × Json) × LoopGuardVerdict)) : Prop where
  permitted : ∀ toolName params,
    (log.countP fun x => decide (x.1 = (toolName, params)) && x.2.permits : ℤ) ≤
      bound ((State.new config).multiplier h toolName params)
  unbroken : (log.countP fun x => !x.2.breaks) ≤ config.globalCircuitBreaker
  blocked : log.Pairwise fun x y => BlockedFor x.1.1 x.2 → y.1 = x.1 → y.2.permits = false
  broken : log.Pairwise fun x y => x.2.breaks = true → y.2.breaks = true

theorem breaks_iff {v : LoopGuardVerdict} :
    v.breaks = true ↔ ∃ message, v = .circuitBreak message := by
  cases v <;> simp [LoopGuardVerdict.breaks]

/-- Where a run has room, the circuit is broken by a check just when the calls before it were as
many as the limit. -/
theorem breaks_check (hroom : g.Room (n + 1)) :
    (check h toolName params g).1.breaks = true ↔
      g.config.globalCircuitBreaker ≤ g.totalCalls := by
  have hlt := hroom.totalCalls
  rw [breaks_iff, check_circuitBreak_iff, u32_of_lt (by omega), Nat.lt_succ_iff]

variable {calls : List Call}

/-- Room for some calls is room for a check and the rest of them. -/
theorem State.Room.of_check
    (h : g.Room ((Call.check toolName params :: calls).countP Call.isCheck)) :
    g.Room (calls.countP Call.isCheck + 1) := by
  rwa [List.countP_cons_of_pos rfl] at h

theorem State.Room.of_recordOutcome {result : String}
    (h : g.Room ((Call.recordOutcome toolName params result :: calls).countP Call.isCheck)) :
    g.Room (calls.countP Call.isCheck) := by
  rwa [List.countP_cons_of_neg (by simp [Call.isCheck])] at h

open Classical in
theorem permitted_le (hroom : g.Room (calls.countP Call.isCheck)) (toolName : String)
    (params : Json) :
    ((verdicts h g calls).countP fun x => decide (x.1 = (toolName, params)) && x.2.permits) ≤
      g.budget h toolName params := by
  induction calls generalizing g with
  | nil => exact Nat.zero_le _
  | cons call calls ih =>
    cases call with
    | check toolName' params' =>
      have hroom' := hroom.of_check
      have hnext : (check h toolName' params' g).2.Room (calls.countP Call.isCheck) :=
        room_check hroom'
      have hrest := ih hnext
      rw [verdicts, List.countP_cons]
      split_ifs with hcall
      · simp only [Bool.and_eq_true, decide_eq_true_eq] at hcall
        obtain ⟨heq, hpermits⟩ := hcall
        cases heq
        exact (Nat.succ_le_succ hrest).trans (budget_check hroom' hpermits)
      · exact hrest.trans (budget_later (later_check hroom') h toolName params)
    | recordOutcome toolName' params' result =>
      have hroom' := hroom.of_recordOutcome
      rw [verdicts]
      exact (ih (room_recordOutcome hroom' result)).trans
        (budget_later (later_recordOutcome result) h toolName params)

theorem unbroken_le (hroom : g.Room (calls.countP Call.isCheck)) :
    ((verdicts h g calls).countP fun x => !x.2.breaks) ≤
      g.config.globalCircuitBreaker - g.totalCalls := by
  induction calls generalizing g with
  | nil => exact Nat.zero_le _
  | cons call calls ih =>
    cases call with
    | check toolName params =>
      have hroom' := hroom.of_check
      have hnext : (check h toolName params g).2.Room (calls.countP Call.isCheck) :=
        room_check hroom'
      have hrest := ih hnext
      have hbreaks : (check h toolName params g).1.breaks = true ↔ _ := breaks_check hroom'
      rw [(later_check hroom').config, totalCalls_of_room hroom'] at hrest
      rw [verdicts, List.countP_cons]
      split_ifs with hunbroken
      · rw [Bool.not_eq_true'] at hunbroken
        rw [hunbroken] at hbreaks
        have hlt : g.totalCalls < g.config.globalCircuitBreaker :=
          not_le.1 fun hle => Bool.false_ne_true (hbreaks.2 hle)
        omega
      · omega
    | recordOutcome toolName params result =>
      have hroom' := hroom.of_recordOutcome
      have hnext : (recordOutcome h toolName params result g).2.Room
        (calls.countP Call.isCheck) := room_recordOutcome hroom' result
      have hrest := ih hnext
      have hframe := frame_recordOutcome h toolName params result g
      rw [hframe.config, hframe.totalCalls] at hrest
      exact hrest

/-- What keeps, for all that comes later, keeps each of the later checks from something. -/
theorem forall_verdicts {I : State → Prop} {P : (String × Json) × LoopGuardVerdict → Prop}
    (hI : I g) (hroom : g.Room (calls.countP Call.isCheck))
    (hcheck : ∀ (g : State) (n : ℕ) (toolName : String) (params : Json), g.Room (n + 1) → I g →
      P ((toolName, params), (check h toolName params g).1) ∧ I (check h toolName params g).2)
    (houtcome : ∀ (g : State) (toolName : String) (params : Json) (result : String), I g →
      I (recordOutcome h toolName params result g).2) :
    ∀ x ∈ verdicts h g calls, P x := by
  induction calls generalizing g with
  | nil => exact fun x hx => absurd hx List.not_mem_nil
  | cons call calls ih =>
    cases call with
    | check toolName params =>
      have hroom' := hroom.of_check
      obtain ⟨hP, hI'⟩ := hcheck g _ toolName params hroom' hI
      exact List.forall_mem_cons.2 ⟨hP, ih hI' (room_check hroom')⟩
    | recordOutcome toolName params result =>
      have hroom' := hroom.of_recordOutcome
      exact ih (houtcome g toolName params result hI) (room_recordOutcome hroom' result)

/-- A call that is barred is not permitted later. -/
theorem not_permits_of_barred (hbarred : g.Barred h toolName params)
    (hroom : g.Room (calls.countP Call.isCheck)) :
    ∀ x ∈ verdicts h g calls, x.1 = (toolName, params) → x.2.permits = false := by
  refine forall_verdicts (I := fun g => g.Barred h toolName params) hbarred hroom ?_ ?_
  · intro g n toolName' params' hroom hbarred
    refine ⟨fun heq => ?_, hbarred.later (later_check hroom)⟩
    cases heq
    exact hbarred.not_permits hroom
  · exact fun g toolName' params' result hbarred => hbarred.later (later_recordOutcome result)

theorem breaks_of_broken (hbroken : g.config.globalCircuitBreaker ≤ g.totalCalls)
    (hroom : g.Room (calls.countP Call.isCheck)) :
    ∀ x ∈ verdicts h g calls, x.2.breaks = true := by
  refine forall_verdicts (I := fun g => g.config.globalCircuitBreaker ≤ g.totalCalls) hbroken hroom
    ?_ ?_
  · intro g n toolName params hroom hbroken
    refine ⟨(breaks_check hroom).2 hbroken, ?_⟩
    rw [(later_check hroom).config, totalCalls_of_room hroom]
    exact Nat.le_succ_of_le hbroken
  · intro g toolName params result hbroken
    have hframe := frame_recordOutcome h toolName params result g
    rwa [hframe.config, hframe.totalCalls]

/-- A relation of a check to the later ones. -/
theorem pairwise_verdicts {R : (String × Json) × LoopGuardVerdict →
      (String × Json) × LoopGuardVerdict → Prop}
    (hroom : g.Room (calls.countP Call.isCheck))
    (hcheck : ∀ (g : State) (toolName : String) (params : Json) (calls : List Call),
      g.Room (calls.countP Call.isCheck + 1) →
      ∀ y ∈ verdicts h (check h toolName params g).2 calls,
        R ((toolName, params), (check h toolName params g).1) y) :
    (verdicts h g calls).Pairwise R := by
  induction calls generalizing g with
  | nil => exact List.Pairwise.nil
  | cons call calls ih =>
    cases call with
    | check toolName params =>
      have hroom' := hroom.of_check
      exact List.pairwise_cons.2
        ⟨hcheck g toolName params calls hroom', ih (room_check hroom')⟩
    | recordOutcome toolName params result =>
      have hroom' := hroom.of_recordOutcome
      exact ih (room_recordOutcome hroom' result)

theorem room_new (config : LoopGuardConfig) {n : ℕ} (hfew : n < 2 ^ 32) :
    (State.new config).Room n :=
  ⟨fun _ => le_rfl, fun _ => le_rfl, by simpa [State.new] using hfew⟩

theorem budget_new (config : LoopGuardConfig) (h : Hashing) (toolName : String) (params : Json) :
    (State.new config).budget h toolName params ≤
      config.permittedMax ((State.new config).multiplier h toolName params) := by
  have hblock := u32_le (config.blockThreshold * (State.new config).multiplier h toolName params)
  have hwarn := u32_le (config.warnThreshold * (State.new config).multiplier h toolName params)
  simp only [State.budget, State.effectiveBlock, State.effectiveWarn, LoopGuardConfig.permittedMax]
  simp only [State.new] at hblock hwarn ⊢
  omega

/-! ### Limits that are not kept -/

/-- A digest that is the bytes themselves, and texts that are in lower case. -/
def plainHashing : Hashing where
  sha256 bytes := String.ofList (bytes.map fun b => Char.ofNat b.toNat)
  toLowercase s := s

theorem plainHashing_injective : Function.Injective plainHashing.sha256 := by
  intro bytes bytes' heq
  have hchars : ∀ b : UInt8, (Char.ofNat b.toNat).toNat = b.toNat := fun b => by
    have hvalid : b.toNat.isValidChar := Or.inl (b.toNat_lt.trans (by decide))
    rw [Char.ofNat, dif_pos hvalid]
    rfl
  have hinj : Function.Injective fun b : UInt8 => Char.ofNat b.toNat := fun b b' h => by
    have hnat := congrArg Char.toNat h
    rw [hchars, hchars] at hnat
    exact UInt8.toNat_inj.1 hnat
  exact hinj.list_map (String.ofList_injective heq)

/-- The states of a run of the same check. -/
def checkedAgain (h : Hashing) (toolName : String) (params : Json) (n : ℕ) (g : State) : State :=
  (fun g => (check h toolName params g).2)^[n] g

theorem totalCalls_checkedAgain (h : Hashing) (toolName : String) (params : Json) (g : State)
    (hg : g.totalCalls < 2 ^ 32) (n : ℕ) :
    (checkedAgain h toolName params n g).totalCalls = u32 (g.totalCalls + n) ∧
      (checkedAgain h toolName params n g).config = g.config := by
  induction n with
  | zero => exact ⟨(u32_of_lt hg).symm, rfl⟩
  | succ n ih =>
    obtain ⟨htotal, hconfig⟩ := totalCalls_check h toolName params
      (checkedAgain h toolName params n g)
    rw [checkedAgain, Function.iterate_succ_apply', ← checkedAgain, htotal, hconfig, ih.1, ih.2]
    refine ⟨?_, rfl⟩
    rw [u32, u32, u32, Nat.mod_add_mod, Nat.add_assoc]

theorem mem_verdicts_replicate (n : ℕ) (g : State) :
    ((toolName, params), (check h toolName params (checkedAgain h toolName params n g)).1) ∈
      verdicts h g (List.replicate (n + 1) (.check toolName params)) := by
  induction n generalizing g with
  | zero => exact List.mem_cons_self
  | succ n ih =>
    rw [List.replicate_succ, verdicts]
    exact List.mem_cons_of_mem _ (ih _)

/-- Where the count of all calls is full it starts again at zero, and the circuit is not broken. -/
theorem not_guarded_of_full (h : Hashing) (toolName : String) (params : Json)
    (config : LoopGuardConfig) (bound : ℕ → ℤ) {n : ℕ} (hn : n + 1 = 2 ^ 32)
    (hlimit : config.globalCircuitBreaker = 0) :
    ¬ Guarded h config bound
      (verdicts h (State.new config) (List.replicate (n + 1) (.check toolName params))) := by
  intro hguarded
  have hzero : (State.new config).totalCalls = 0 := rfl
  obtain ⟨htotal, hconfig⟩ := totalCalls_checkedAgain h toolName params (State.new config)
    (by rw [hzero]; decide) n
  have hunbroken : (check h toolName params
      (checkedAgain h toolName params n (State.new config))).1.breaks = false := by
    rw [← Bool.not_eq_true, breaks_iff, check_circuitBreak_iff, hconfig, htotal, hzero,
      Nat.zero_add]
    have hsame : u32 n = n := u32_of_lt (by omega)
    have hfull : u32 (n + 1) = 0 := by rw [hn]; rfl
    rw [hsame, hfull]
    exact Nat.not_lt_zero _
  have hpos : 0 < (verdicts h (State.new config)
      (List.replicate (n + 1) (.check toolName params))).countP fun x => !x.2.breaks :=
    List.countP_pos_iff.2 ⟨_, mem_verdicts_replicate n _, by simpa using hunbroken⟩
  have hle := hguarded.unbroken
  omega

/-- A guard that warns at once, and once. -/
def warnsAtOnce : LoopGuardConfig := { warnThreshold := 0, maxWarningsPerCall := 1 }

/-- With a threshold of zero one warning more is permitted than the difference of the thresholds
says, and after `2 ^ 32` checks the broken circuit is closed again. -/
theorem guarded_fails :
    (¬ ∀ h : Hashing, Function.Injective h.sha256 →
        ∀ (config : LoopGuardConfig) (calls : List Call),
      calls.countP Call.isCheck < 2 ^ 32 →
        Guarded h config (fun m => min (config.blockThreshold * m - 1)
          (config.warnThreshold * m - 1 + config.maxWarningsPerCall))
          (verdicts h (State.new config) calls)) ∧
      ¬ ∀ h : Hashing, Function.Injective h.sha256 → ∀ (config : LoopGuardConfig)
        (calls : List Call), Guarded h config (fun m => config.permittedMax m)
          (verdicts h (State.new config) calls) := by
  constructor
  · intro hall
    have hpermitted := (hall plainHashing plainHashing_injective warnsAtOnce [.check "t" .null]
      (by decide)).permitted "t" .null
    have hpermits : (check plainHashing "t" .null (State.new warnsAtOnce)).1.permits = true := by
      decide +kernel
    have hmultiplier : (State.new warnsAtOnce).multiplier plainHashing "t" .null = 1 := by
      decide
    rw [hmultiplier, verdicts, verdicts, List.countP_cons_of_pos (by simpa using hpermits)]
      at hpermitted
    revert hpermitted
    decide
  · intro hall
    obtain ⟨n, hn⟩ : ∃ n, n + 1 = 2 ^ 32 := ⟨2 ^ 32 - 1, by decide⟩
    exact not_guarded_of_full plainHashing "t" .null { globalCircuitBreaker := 0 } _ hn rfl
      (hall plainHashing plainHashing_injective _ _)

/-! ### The limits -/

/-- A run of fewer than `2 ^ 32` checks keeps to the limits. -/
theorem guarded_run (h : Hashing) (config : LoopGuardConfig) (calls : List Call)
    (hfew : calls.countP Call.isCheck < 2 ^ 32) :
    Guarded h config (fun m => config.permittedMax m) (verdicts h (State.new config) calls) where
  permitted := fun toolName params => Int.ofNat_le.2
    ((permitted_le (room_new config hfew) toolName params).trans
      (budget_new config h toolName params))
  unbroken := (unbroken_le (room_new config hfew)).trans (Nat.sub_le _ _)
  blocked := pairwise_verdicts (room_new config hfew) fun _ _ _ _ hroom y hy hblocked =>
    not_permits_of_barred (barred_check hroom hblocked) (room_check hroom) y hy
  broken := pairwise_verdicts (room_new config hfew)
      fun g toolName params _ hroom y hy hbreaks => by
    refine breaks_of_broken ?_ (room_check hroom) y hy
    rw [(later_check hroom).config, totalCalls_of_room hroom]
    exact Nat.le_succ_of_le ((breaks_check hroom).1 hbreaks)

theorem guarded_run_once : Guarded plainHashing {} (fun m => ({} : LoopGuardConfig).permittedMax m)
    (verdicts plainHashing (State.new {}) [.check "t" .null]) :=
  guarded_run plainHashing {} [.check "t" .null] (by decide)

end LoopGuard
end RustyHand
