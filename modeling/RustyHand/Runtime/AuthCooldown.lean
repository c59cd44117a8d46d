import RustyHand.Lib.Runs
import RustyHand.Lib.Table
import Mathlib.Algebra.Order.Ring.Nat
import Mathlib.Data.List.Induction

/-!
# The circuit breaker of the providers

`rusty-hand-runtime/src/auth_cooldown.rs`: `check`, `record_success`, `record_failure`,
`record_probe_result` and `get_state`.  Times are in nanoseconds, and a call reads the clock once.
A call to a provider is checked before it and recorded when its result is there; which check and
which record belong to one call is what `Op` says, the breaker does not know.  The backoff in
floating point is a function of the exponent.

* `ProviderCooldown`, with what it is called for;
* `Event`, `step`, `outstanding`: calls at their times, and the probes without a result;
* `SingleProbe`: in a cooldown a probe in each interval, after it one at a time;
* `Spaced`: what the times of the calls have to do for it;
* `singleProbe_iff_spaced`: a check leaves no trace, so that they have to do it all.
-/

namespace RustyHand
namespace AuthCooldown

/-! ### The breaker -/

/-- `Duration::from_secs`. -/
def fromSecs (secs : ℕ) : ℕ := secs * 10 ^ 9

/-- `u32::saturating_add(1)`. -/
def saturatingSucc (n : ℕ) : ℕ := min (n + 1) (2 ^ 32 - 1)

/-- `CooldownConfig`; `backoff` and `billingBackoff` are the base times the power of the multiplier,
in seconds. -/
structure CooldownConfig where
  backoff : ℕ → ℕ := fun exponent => 60 * 5 ^ exponent
  maxCooldownSecs : ℕ := 3600
  maxExponent : ℕ := 3
  billingBackoff : ℕ → ℕ := fun exponent => 18000 * 2 ^ exponent
  billingMaxCooldownSecs : ℕ := 86400
  failureWindowSecs : ℕ := 86400
  probeEnabled : Bool := true
  probeIntervalSecs : ℕ := 30

/-- `CircuitState`. -/
inductive CircuitState
  | closed
  | open
  | halfOpen
  deriving DecidableEq

/-- `ProviderState`. -/
structure ProviderState where
  errorCount : ℕ := 0
  isBilling : Bool := false
  cooldownStart : Option ℕ := none
  cooldownDuration : ℕ := 0
  lastProbe : Option ℕ := none
  totalErrorsInWindow : ℕ := 0
  windowStart : Option ℕ := none

/-- `CooldownVerdict`. -/
inductive CooldownVerdict
  | allow
  | allowProbe
  | reject (reason : String) (retryAfterSecs : ℕ)
  deriving DecidableEq

/-- `calculate_cooldown`. -/
def calculateCooldown (config : CooldownConfig) (errorCount : ℕ) (isBilling : Bool) : ℕ :=
  if isBilling then
    fromSecs (min (config.billingBackoff (min (errorCount - 1) 10)) config.billingMaxCooldownSecs)
  else
    fromSecs (min (config.backoff (min (errorCount - 1) config.maxExponent))
      config.maxCooldownSecs)

namespace ProviderState

/-- `check`, of a provider with a state. -/
def check (config : CooldownConfig) (now : ℕ) (state : ProviderState) : CooldownVerdict :=
  match state.cooldownStart with
  | none => .allow
  | some start =>
    let elapsed := now - start
    if elapsed < state.cooldownDuration then
      let probeOk := match state.lastProbe with
        | some last => decide (fromSecs config.probeIntervalSecs ≤ now - last)
        | none => true
      if config.probeEnabled && probeOk then .allowProbe
      else
        .reject ((if state.isBilling then "billing" else "error") ++ " cooldown (" ++
          toString state.errorCount ++ " errors)") ((state.cooldownDuration - elapsed) / 10 ^ 9)
    else .allowProbe

/-- `get_state`, of a provider with a state. -/
def getState (now : ℕ) (state : ProviderState) : CircuitState :=
  match state.cooldownStart with
  | none => .closed
  | some start =>
    if now - start < state.cooldownDuration then .open
    else if 0 < state.errorCount then .halfOpen
    else .closed

/-- `record_success`. -/
def recordSuccess (state : ProviderState) : ProviderState :=
  { state with
    errorCount := 0
    isBilling := false
    cooldownStart := none
    cooldownDuration := 0
    lastProbe := none }

/-- The failure window of `record_failure`. -/
def manageWindow (config : CooldownConfig) (now : ℕ) (state : ProviderState) : ProviderState :=
  match state.windowStart with
  | some start =>
    if fromSecs config.failureWindowSecs ≤ now - start then
      { state with totalErrorsInWindow := 0, windowStart := some now }
    else state
  | none => { state with windowStart := some now }

/-- `record_failure`. -/
def recordFailure (config : CooldownConfig) (now : ℕ) (isBilling : Bool) (state : ProviderState) :
    ProviderState :=
  let state := state.manageWindow config now
  let errorCount := saturatingSucc state.errorCount
  { state with
    errorCount := errorCount
    totalErrorsInWindow := saturatingSucc state.totalErrorsInWindow
    isBilling := isBilling
    cooldownStart := some now
    cooldownDuration := calculateCooldown config errorCount isBilling
    lastProbe := some now }

/-- `record_probe_result` of a probe that has failed. -/
def extendCooldown (config : CooldownConfig) (now : ℕ) (state : ProviderState) : ProviderState :=
  let errorCount := saturatingSucc state.errorCount
  { state with
    lastProbe := some now
    errorCount := errorCount
    cooldownStart := some now
    cooldownDuration := calculateCooldown config errorCount state.isBilling }

end ProviderState

/-- `ProviderCooldown`. -/
structure ProviderCooldown where
  config : CooldownConfig
  states : List (String × ProviderState) := []

namespace ProviderCooldown

/-- The state of a provider. -/
def state (b : ProviderCooldown) (provider : String) : Option ProviderState :=
  (Table.lookup Prod.fst provider b.states).map Prod.snd

/-- The state of a provider changed. -/
def modify (b : ProviderCooldown) (provider : String) (f : ProviderState → ProviderState) :
    ProviderCooldown :=
  { b with states := Table.modify Prod.fst provider (Prod.map id f) b.states }

/-- `check`. -/
def check (b : ProviderCooldown) (now : ℕ) (provider : String) : CooldownVerdict :=
  match b.state provider with
  | none => .allow
  | some state => state.check b.config now

/-- `get_state`. -/
def getState (b : ProviderCooldown) (now : ℕ) (provider : String) : CircuitState :=
  match b.state provider with
  | none => .closed
  | some state => state.getState now

/-- `record_success`. -/
def recordSuccess (b : ProviderCooldown) (provider : String) : ProviderCooldown :=
  b.modify provider ProviderState.recordSuccess

/-- `record_failure`. -/
def recordFailure (b : ProviderCooldown) (now : ℕ) (provider : String) (isBilling : Bool) :
    ProviderCooldown :=
  { b with
    states := Table.upsert Prod.fst
      (provider, ((b.state provider).getD {}).recordFailure b.config now isBilling) b.states }

/-- `record_probe_result`. -/
def recordProbeResult (b : ProviderCooldown) (now : ℕ) (provider : String) (success : Bool) :
    ProviderCooldown :=
  if success then b.recordSuccess provider
  else b.modify provider (ProviderState.extendCooldown b.config now)

end ProviderCooldown

/-! ### Calls at their times -/

/-- What is called, and for which call to the provider. -/
inductive Op
  | check (call : ℕ)
  | recordSuccess (call : ℕ)
  | recordFailure (call : ℕ) (isBilling : Bool)
  | recordProbeResult (call : ℕ) (success : Bool)

structure Event where
  time : ℕ
  provider : String
  op : Op

/-- Is a call to the provider checked? -/
def Event.Checks (provider : String) (e : Event) : Prop :=
  e.provider = provider ∧ ∃ call, e.op = .check call

/-- Is a result of the provider recorded? -/
def Event.Records (provider : String) (e : Event) : Prop :=
  e.provider = provider ∧ ∀ call, e.op ≠ .check call

/-- The breaker after an event. -/
def step (b : ProviderCooldown) (e : Event) : ProviderCooldown :=
  match e.op with
  | .check _ => b
  | .recordSuccess _ => b.recordSuccess e.provider
  | .recordFailure _ isBilling => b.recordFailure e.time e.provider isBilling
  | .recordProbeResult _ success => b.recordProbeResult e.time e.provider success

/-- The breaker after some events. -/
def after (config : CooldownConfig) (events : List Event) : ProviderCooldown :=
  Runs.run step { config := config } events

/-- The probes of a provider without a result, after an event. -/
def track (provider : String) (b : ProviderCooldown) (calls : List ℕ) (e : Event) : List ℕ :=
  if e.provider = provider then
    match e.op with
    | .check call => if b.check e.time provider = .allowProbe then call :: calls else calls
    | .recordSuccess call => calls.erase call
    | .recordFailure call _ => calls.erase call
    | .recordProbeResult call _ => calls.erase call
  else calls

/-- The probes of a provider without a result, after some events. -/
def outstanding (config : CooldownConfig) (provider : String) (events : List Event) : List ℕ :=
  (Runs.run (fun (w : ProviderCooldown × List ℕ) e => (step w.1 e, track provider w.1 w.2 e))
    ({ config := config }, []) events).2

/-- Between the events before and those after. -/
def Between (before after : List Event) (now : ℕ) : Prop :=
  (∀ e ∈ before, e.time ≤ now) ∧ ∀ e ∈ after, now ≤ e.time

/-- The circuit of a provider lets one probe through in an interval while it is open, and has one
outstanding while it is half open. -/
structure SingleProbe (config : CooldownConfig) (provider : String) (events : List Event) :
    Prop where
  whileOpen : ∀ before c mid d rest, events = before ++ c :: (mid ++ d :: rest) →
    c.Checks provider → d.Checks provider →
    (after config before).check c.time provider = .allowProbe →
    (after config before).getState c.time provider = .open →
    (after config (before ++ c :: mid)).check d.time provider = .allowProbe →
    (after config (before ++ c :: mid)).getState d.time provider = .open →
    c.time + fromSecs config.probeIntervalSecs ≤ d.time
  whileHalfOpen : ∀ before rest now, events = before ++ rest → Between before rest now →
    (after config before).getState now provider = .halfOpen →
    (outstanding config provider before).length ≤ 1

/-- The circuit is open and the last failure is an interval ago. -/
def Due (b : ProviderCooldown) (now : ℕ) (provider : String) : Prop :=
  b.config.probeEnabled = true ∧ b.getState now provider = .open ∧
    ∃ state last, b.state provider = some state ∧ state.lastProbe = some last ∧
      last + fromSecs b.config.probeIntervalSecs ≤ now

/-- How the calls have to come: in a cooldown, checks that are due and have no result between them
are an interval apart; when a cooldown is over, at most one probe is outstanding; and a check after
that comes when none is. -/
structure Spaced (config : CooldownConfig) (provider : String) (events : List Event) : Prop where
  during : ∀ before c mid d rest, events = before ++ c :: (mid ++ d :: rest) →
    c.Checks provider → d.Checks provider → (∀ e ∈ mid, ¬ e.Records provider) →
    Due (after config before) c.time provider →
    (after config (before ++ c :: mid)).getState d.time provider = .open →
    c.time + fromSecs config.probeIntervalSecs ≤ d.time
  atEnd : ∀ before rest state start, events = before ++ rest →
    (after config before).state provider = some state → state.cooldownStart = some start →
    Between before rest (start + state.cooldownDuration) →
    (outstanding config provider before).length ≤ 1
  afterEnd : ∀ before c rest, events = before ++ c :: rest → c.Checks provider →
    (after config before).getState c.time provider = .halfOpen →
    outstanding config provider before = []

/-! ### What an event changes -/

variable {config : CooldownConfig} {provider : String} {events : List Event} {e : Event}
variable {b : ProviderCooldown}

/-- What a record makes of the state of its provider. -/
def recordState (config : CooldownConfig) (e : Event) (state : Option ProviderState) :
    Option ProviderState :=
  match e.op with
  | .check _ => state
  | .recordSuccess _ => state.map ProviderState.recordSuccess
  | .recordFailure _ isBilling => some ((state.getD {}).recordFailure config e.time isBilling)
  | .recordProbeResult _ success =>
    if success then state.map ProviderState.recordSuccess
    else state.map (ProviderState.extendCooldown config e.time)

theorem state_modify_self (b : ProviderCooldown) (provider : String)
    (f : ProviderState → ProviderState) :
    (b.modify provider f).state provider = (b.state provider).map f := by
  have hkey (p : String × ProviderState) : (Prod.map id f p).1 = p.1 := rfl
  have hmodify := Table.lookup_modify hkey provider b.states
  show Option.map Prod.snd (Table.lookup Prod.fst provider (Table.modify _ _ _ _)) = _
  rw [hmodify, ProviderCooldown.state, Option.map_map, Option.map_map]
  rfl

theorem state_modify_other (b : ProviderCooldown) (f : ProviderState → ProviderState)
    {other : String} (h : provider ≠ other) :
    (b.modify other f).state provider = b.state provider :=
  congrArg (Option.map Prod.snd)
    (Table.lookup_modify_of_ne (f := Prod.map id f) (fun _ => rfl) h b.states)

theorem step_config (b : ProviderCooldown) (e : Event) : (step b e).config = b.config := by
  unfold step
  cases e.op with
  | check call => rfl
  | recordSuccess call => rfl
  | recordFailure call isBilling => rfl
  | recordProbeResult call success => cases success <;> rfl

/-- **A step** changes the state of its provider, and there only by a record. -/
theorem state_step (b : ProviderCooldown) (e : Event) : (step b e).state provider =
    if e.provider = provider then recordState b.config e (b.state provider)
    else b.state provider := by
  split_ifs with he
  · subst he
    unfold step recordState
    cases e.op with
    | check call => rfl
    | recordSuccess call => exact state_modify_self b _ _
    | recordFailure call isBilling =>
      show Option.map Prod.snd (Table.lookup _ _ (Table.upsert _ _ _)) = _
      rw [Table.lookup_upsert, if_pos rfl]
      rfl
    | recordProbeResult call success =>
      cases success with
      | true => exact state_modify_self b _ _
      | false => exact state_modify_self b _ _
  · have hne : provider ≠ e.provider := fun h => he h.symm
    unfold step
    cases e.op with
    | check call => rfl
    | recordSuccess call => exact state_modify_other b _ hne
    | recordFailure call isBilling =>
      show Option.map Prod.snd (Table.lookup _ _ (Table.upsert _ _ _)) = _
      rw [Table.lookup_upsert, if_neg hne]
      rfl
    | recordProbeResult call success =>
      cases success with
      | true => exact state_modify_other b _ hne
      | false => exact state_modify_other b _ hne

theorem state_step_of_not_records (h : ¬ e.Records provider) :
    (step b e).state provider = b.state provider := by
  rw [state_step]
  split_ifs with he
  · unfold recordState
    cases hop : e.op with
    | check call => rfl
    | recordSuccess call => exact absurd ⟨he, by simp [hop]⟩ h
    | recordFailure call isBilling => exact absurd ⟨he, by simp [hop]⟩ h
    | recordProbeResult call success => exact absurd ⟨he, by simp [hop]⟩ h
  · rfl

/-- A record after which the circuit is not closed has begun the cooldown, and holds back the next
probe from then on. -/
theorem recordState_tripped {start : ℕ} {old : Option ProviderState} {new : ProviderState}
    (he : e.Records provider) (h : recordState config e old = some new)
    (hstart : new.cooldownStart = some start) :
    start = e.time ∧ new.lastProbe = some start ∧ 0 < new.errorCount := by
  have hpos : ∀ n, 0 < saturatingSucc n := by
    intro n
    unfold saturatingSucc
    omega
  unfold recordState at h
  cases hop : e.op with
  | check call => exact absurd hop (he.2 call)
  | recordSuccess call =>
    rw [hop] at h
    obtain ⟨state, -, rfl⟩ := Option.map_eq_some_iff.1 h
    cases hstart
  | recordFailure call isBilling =>
    rw [hop] at h
    cases Option.some.inj h
    obtain rfl := Option.some.inj hstart
    exact ⟨rfl, rfl, hpos _⟩
  | recordProbeResult call success =>
    rw [hop] at h
    cases success with
    | true =>
      obtain ⟨state, -, rfl⟩ := Option.map_eq_some_iff.1 h
      cases hstart
    | false =>
      obtain ⟨state, -, rfl⟩ := Option.map_eq_some_iff.1 h
      obtain rfl := Option.some.inj hstart
      exact ⟨rfl, rfl, hpos _⟩

/-! ### Runs -/

theorem after_append (events events' : List Event) :
    after config (events ++ events') = Runs.run step (after config events) events' :=
  Runs.run_append _ _ _ _

theorem after_concat (events : List Event) (e : Event) :
    after config (events ++ [e]) = step (after config events) e := after_append _ _

theorem after_config (events : List Event) : (after config events).config = config := by
  induction events using List.reverseRecOn with
  | nil => rfl
  | append_singleton events e ih => rw [after_concat, step_config, ih]

theorem state_after_mid {mid : List Event} (hmid : ∀ e ∈ mid, ¬ e.Records provider)
    (events : List Event) :
    (after config (events ++ mid)).state provider = (after config events).state provider := by
  induction mid using List.reverseRecOn with
  | nil => rw [List.append_nil]
  | append_singleton mid e ih =>
    rw [← List.append_assoc, after_concat, state_step_of_not_records
      (hmid e (List.mem_append_right _ (List.mem_singleton.2 rfl)))]
    exact ih fun e' he' => hmid e' (List.mem_append_left _ he')

theorem outstanding_concat (events : List Event) (e : Event) :
    outstanding config provider (events ++ [e]) =
      track provider (after config events) (outstanding config provider events) e := by
  have hfst : ∀ (l : List Event) (w : ProviderCooldown × List ℕ),
      (Runs.run (fun (w : ProviderCooldown × List ℕ) e => (step w.1 e, track provider w.1 w.2 e))
        w l).1 = Runs.run step w.1 l := by
    intro l
    induction l with
    | nil => exact fun _ => rfl
    | cons e l ih => exact fun w => ih (step w.1 e, track provider w.1 w.2 e)
  unfold outstanding
  rw [Runs.run_append, Runs.run_cons, Runs.run_nil]
  show track provider _ _ e = _
  rw [hfst]
  rfl

/-- What holds of a provider in a cooldown: the last failure began it, and no probe since then is
remembered. -/
structure Tripped (provider : String) (events : List Event) (state : ProviderState) (start : ℕ) :
    Prop where
  lastProbe : state.lastProbe = some start
  errorCount : 0 < state.errorCount
  began : ∃ e ∈ events, e.time = start
  last : ∀ e ∈ events, e.Records provider → e.time ≤ start

theorem tripped_of_start {state : ProviderState} {start : ℕ}
    (hsorted : events.Pairwise fun e e' => e.time ≤ e'.time)
    (hstate : (after config events).state provider = some state)
    (hstart : state.cooldownStart = some start) : Tripped provider events state start := by
  induction events using List.reverseRecOn with
  | nil => cases hstate
  | append_singleton events e ih =>
    obtain ⟨hsorted', -, hlast⟩ := List.pairwise_append.1 hsorted
    by_cases he : e.Records provider
    · rw [after_concat, state_step, if_pos he.1] at hstate
      obtain ⟨rfl, hprobe, hcount⟩ := recordState_tripped he hstate hstart
      refine ⟨hprobe, hcount, ⟨e, List.mem_append_right _ (List.mem_singleton.2 rfl), rfl⟩, ?_⟩
      intro e' he' _
      rcases List.mem_append.1 he' with he' | he'
      · exact hlast e' he' e (List.mem_singleton.2 rfl)
      · rw [List.mem_singleton.1 he']
    · rw [after_concat, state_step_of_not_records he] at hstate
      obtain ⟨hprobe, hcount, ⟨e', he', htime⟩, hrecords⟩ := ih hsorted' hstate
      refine ⟨hprobe, hcount, ⟨e', List.mem_append_left _ he', htime⟩, ?_⟩
      intro e'' he'' hrec
      rcases List.mem_append.1 he'' with he'' | he''
      · exact hrecords e'' he'' hrec
      · rw [List.mem_singleton.1 he''] at hrec
        exact absurd hrec he

/-! ### Verdicts -/

theorem getState_of_start {now start : ℕ} {state : ProviderState}
    (hstate : b.state provider = some state) (hstart : state.cooldownStart = some start) :
    b.getState now provider = if now - start < state.cooldownDuration then .open
      else if 0 < state.errorCount then .halfOpen else .closed := by
  simp only [ProviderCooldown.getState, hstate, ProviderState.getState, hstart]

/-- A circuit that is not closed is in a cooldown, or behind one. -/
theorem exists_start {now : ℕ} (h : b.getState now provider ≠ .closed) :
    ∃ state start, b.state provider = some state ∧ state.cooldownStart = some start := by
  cases hstate : b.state provider with
  | none => exact absurd (by simp only [ProviderCooldown.getState, hstate]) h
  | some state =>
    cases hstart : state.cooldownStart with
    | none =>
      refine absurd ?_ h
      simp only [ProviderCooldown.getState, hstate, ProviderState.getState, hstart]
    | some start => exact ⟨state, start, rfl, hstart⟩

theorem getState_eq_open_iff {now : ℕ} : b.getState now provider = .open ↔
    ∃ state start, b.state provider = some state ∧ state.cooldownStart = some start ∧
      now - start < state.cooldownDuration := by
  constructor
  · intro h
    obtain ⟨state, start, hstate, hstart⟩ := exists_start (b := b) (by rw [h]; decide)
    refine ⟨state, start, hstate, hstart, ?_⟩
    rw [getState_of_start hstate hstart] at h
    by_contra helapsed
    rw [if_neg helapsed] at h
    split_ifs at h
  · rintro ⟨state, start, hstate, hstart, helapsed⟩
    rw [getState_of_start hstate hstart, if_pos helapsed]

theorem getState_eq_halfOpen_iff {now : ℕ} : b.getState now provider = .halfOpen ↔
    ∃ state start, b.state provider = some state ∧ state.cooldownStart = some start ∧
      state.cooldownDuration ≤ now - start ∧ 0 < state.errorCount := by
  constructor
  · intro h
    obtain ⟨state, start, hstate, hstart⟩ := exists_start (b := b) (by rw [h]; decide)
    refine ⟨state, start, hstate, hstart, ?_⟩
    rw [getState_of_start hstate hstart] at h
    split_ifs at h with helapsed hcount
    exact ⟨Nat.le_of_not_lt helapsed, hcount⟩
  · rintro ⟨state, start, hstate, hstart, hover, hcount⟩
    rw [getState_of_start hstate hstart, if_neg (Nat.not_lt.2 hover), if_pos hcount]

/-- A half-open circuit lets every call through as a probe. -/
theorem check_of_halfOpen {now : ℕ} (h : b.getState now provider = .halfOpen) :
    b.check now provider = .allowProbe := by
  obtain ⟨state, start, hstate, hstart, hover, -⟩ := getState_eq_halfOpen_iff.1 h
  unfold ProviderCooldown.check ProviderState.check
  rw [hstate]
  dsimp only
  rw [hstart]
  exact if_neg (Nat.not_lt.2 hover)

/-- An open circuit lets a call through as a probe just where one is due. -/
theorem check_of_open {now : ℕ} (hsorted : events.Pairwise fun e e' => e.time ≤ e'.time)
    (hnow : ∀ e ∈ events, e.time ≤ now)
    (hopen : (after config events).getState now provider = .open) :
    (after config events).check now provider = .allowProbe ↔
      Due (after config events) now provider := by
  obtain ⟨state, start, hstate, hstart, helapsed⟩ := getState_eq_open_iff.1 hopen
  have htripped := tripped_of_start hsorted hstate hstart
  obtain ⟨e, he, htime⟩ := htripped.began
  have hle : start ≤ now := htime ▸ hnow e he
  have hcheck : (after config events).check now provider = .allowProbe ↔
      config.probeEnabled = true ∧ fromSecs config.probeIntervalSecs ≤ now - start := by
    unfold ProviderCooldown.check ProviderState.check
    simp only [hstate, hstart, htripped.lastProbe, after_config, if_pos helapsed]
    split_ifs with hdue
    · simpa using hdue
    · simpa using hdue
  rw [hcheck, Due, after_config]
  constructor
  · rintro ⟨henabled, hdue⟩
    exact ⟨henabled, hopen, state, start, hstate, htripped.lastProbe, by omega⟩
  · rintro ⟨henabled, -, state', last, hstate', hlast, hdue⟩
    obtain rfl := Option.some.inj (hstate.symm.trans hstate')
    obtain rfl := Option.some.inj (htripped.lastProbe.symm.trans hlast)
    exact ⟨henabled, by omega⟩

/-! ### While the circuit is open -/

theorem Event.Checks.not_records (h : e.Checks provider) : ¬ e.Records provider := by
  obtain ⟨-, call, hop⟩ := h
  exact fun hrec => hrec.2 call hop

theorem sorted_split {before rest : List Event}
    (hsorted : (before ++ e :: rest).Pairwise fun e e' => e.time ≤ e'.time) :
    before.Pairwise (fun e e' => e.time ≤ e'.time) ∧ (∀ e' ∈ before, e'.time ≤ e.time) ∧
      ∀ e' ∈ rest, e.time ≤ e'.time := by
  obtain ⟨hbefore, hrest, hcross⟩ := List.pairwise_append.1 hsorted
  exact ⟨hbefore, fun e' he' => hcross e' he' e List.mem_cons_self,
    (List.pairwise_cons.1 hrest).1⟩

theorem sorted_split_again {before mid rest : List Event} {c d : Event}
    (hsorted : (before ++ c :: (mid ++ d :: rest)).Pairwise fun e e' => e.time ≤ e'.time) :
    (before ++ c :: mid).Pairwise (fun e e' => e.time ≤ e'.time) ∧
      ∀ e ∈ before ++ c :: mid, e.time ≤ d.time := by
  rw [← List.cons_append, ← List.append_assoc] at hsorted
  obtain ⟨hmid, hmidD, -⟩ := sorted_split hsorted
  exact ⟨hmid, hmidD⟩

theorem whileOpen_of_during (hsorted : events.Pairwise fun e e' => e.time ≤ e'.time)
    (h : Spaced config provider events) {before mid rest : List Event} {c d : Event}
    (hevents : events = before ++ c :: (mid ++ d :: rest)) (hc : c.Checks provider)
    (hd : d.Checks provider)
    (hcprobe : (after config before).check c.time provider = .allowProbe)
    (hcopen : (after config before).getState c.time provider = .open)
    (hdprobe : (after config (before ++ c :: mid)).check d.time provider = .allowProbe)
    (hdopen : (after config (before ++ c :: mid)).getState d.time provider = .open) :
    c.time + fromSecs config.probeIntervalSecs ≤ d.time := by
  obtain ⟨hbefore, hbeforeC, hafterC⟩ := sorted_split (hevents ▸ hsorted)
  obtain ⟨hmid, hmidD⟩ := sorted_split_again (hevents ▸ hsorted)
  by_cases hrecords : ∀ e ∈ mid, ¬ e.Records provider
  · exact h.during before c mid d rest hevents hc hd hrecords
      ((check_of_open hbefore hbeforeC hcopen).1 hcprobe) hdopen
  · -- a record between them begins the cooldown again, which holds back the next probe
    push Not at hrecords
    obtain ⟨r, hr, hrec⟩ := hrecords
    obtain ⟨state, start, hstate, hstart, -⟩ := getState_eq_open_iff.1 hdopen
    have htripped := tripped_of_start hmid hstate hstart
    obtain ⟨-, -, state', last, hstate', hlast, hdue⟩ :=
      (check_of_open hmid hmidD hdopen).1 hdprobe
    obtain rfl := Option.some.inj (hstate.symm.trans hstate')
    obtain rfl := Option.some.inj (htripped.lastProbe.symm.trans hlast)
    rw [after_config] at hdue
    have hstartR : r.time ≤ start :=
      htripped.last r (List.mem_append_right _ (List.mem_cons_of_mem c hr)) hrec
    have hrC : c.time ≤ r.time := hafterC r (List.mem_append_left _ hr)
    omega

theorem during_of_whileOpen (hsorted : events.Pairwise fun e e' => e.time ≤ e'.time)
    (h : SingleProbe config provider events) {before mid rest : List Event} {c d : Event}
    (hevents : events = before ++ c :: (mid ++ d :: rest)) (hc : c.Checks provider)
    (hd : d.Checks provider) (hmid : ∀ e ∈ mid, ¬ e.Records provider)
    (hdue : Due (after config before) c.time provider)
    (hdopen : (after config (before ++ c :: mid)).getState d.time provider = .open) :
    c.time + fromSecs config.probeIntervalSecs ≤ d.time := by
  obtain ⟨hbefore, hbeforeC, hafterC⟩ := sorted_split (hevents ▸ hsorted)
  obtain ⟨hsortedD, hbeforeD⟩ := sorted_split_again (hevents ▸ hsorted)
  have hquiet : ∀ e ∈ c :: mid, ¬ e.Records provider := by
    intro e he
    rcases List.mem_cons.1 he with rfl | he
    · exact hc.not_records
    · exact hmid e he
  have hle : c.time ≤ d.time := hafterC d (List.mem_append_right _ List.mem_cons_self)
  have hdueD : Due (after config (before ++ c :: mid)) d.time provider := by
    obtain ⟨henabled, -, state, last, hstate, hlast, hlate⟩ := hdue
    rw [after_config] at henabled hlate
    rw [← state_after_mid hquiet] at hstate
    refine ⟨by rwa [after_config], hdopen, state, last, hstate, hlast, ?_⟩
    rw [after_config]
    omega
  exact h.whileOpen before c mid d rest hevents hc hd
    ((check_of_open hbefore hbeforeC hdue.2.1).2 hdue) hdue.2.1
    ((check_of_open hsortedD hbeforeD hdopen).2 hdueD) hdopen

/-! ### While the circuit is half open -/

theorem track_check (calls : List ℕ) (he : e.Checks provider)
    (hprobe : b.check e.time provider = .allowProbe) :
    ∃ call, track provider b calls e = call :: calls := by
  obtain ⟨rfl, call, hop⟩ := he
  refine ⟨call, ?_⟩
  rw [track, if_pos rfl, hop]
  exact if_pos hprobe

theorem track_other {calls : List ℕ} (hrec : ¬ e.Records provider) (hcheck : ¬ e.Checks provider) :
    track provider b calls e = calls := by
  refine if_neg fun he => ?_
  by_cases hop : ∃ call, e.op = .check call
  · exact hcheck ⟨he, hop⟩
  · exact hrec ⟨he, fun call h => hop ⟨call, h⟩⟩

theorem atEnd_of_whileHalfOpen (hsorted : events.Pairwise fun e e' => e.time ≤ e'.time)
    (h : SingleProbe config provider events) {before rest : List Event} {state : ProviderState}
    {start : ℕ} (hevents : events = before ++ rest)
    (hstate : (after config before).state provider = some state)
    (hstart : state.cooldownStart = some start)
    (hbetween : Between before rest (start + state.cooldownDuration)) :
    (outstanding config provider before).length ≤ 1 := by
  have hbefore := (List.pairwise_append.1 (hevents ▸ hsorted)).1
  refine h.whileHalfOpen before rest _ hevents hbetween (getState_eq_halfOpen_iff.2 ?_)
  exact ⟨state, start, hstate, hstart, by omega,
    (tripped_of_start hbefore hstate hstart).errorCount⟩

theorem afterEnd_of_whileHalfOpen (hsorted : events.Pairwise fun e e' => e.time ≤ e'.time)
    (h : SingleProbe config provider events) {before rest : List Event} {c : Event}
    (hevents : events = before ++ c :: rest) (hc : c.Checks provider)
    (hhalf : (after config before).getState c.time provider = .halfOpen) :
    outstanding config provider before = [] := by
  obtain ⟨-, hbeforeC, hafterC⟩ := sorted_split (hevents ▸ hsorted)
  have hstep : after config (before ++ [c]) = after config before := by
    obtain ⟨-, call, hop⟩ := hc
    rw [after_concat, step, hop]
  have hbetween : Between (before ++ [c]) rest c.time := by
    refine ⟨fun e he => ?_, hafterC⟩
    rcases List.mem_append.1 he with he | he
    · exact hbeforeC e he
    · rw [List.mem_singleton.1 he]
  have hone := h.whileHalfOpen (before ++ [c]) rest c.time (by rw [hevents, List.append_assoc]; rfl)
    hbetween (by rw [hstep]; exact hhalf)
  obtain ⟨call, htrack⟩ := track_check (outstanding config provider before) hc
    (check_of_halfOpen hhalf)
  rw [outstanding_concat, htrack, List.length_cons] at hone
  exact List.length_eq_zero_iff.1 (by omega)

theorem whileHalfOpen_of_spaced (hsorted : events.Pairwise fun e e' => e.time ≤ e'.time)
    (h : Spaced config provider events) {before rest : List Event} {now : ℕ}
    (hevents : events = before ++ rest) (hbetween : Between before rest now)
    (hhalf : (after config before).getState now provider = .halfOpen) :
    (outstanding config provider before).length ≤ 1 := by
  induction before using List.reverseRecOn generalizing rest now with
  | nil => exact Nat.zero_le 1
  | append_singleton before e ih =>
    obtain ⟨state, start, hstate, hstart, hover, hcount⟩ := getState_eq_halfOpen_iff.1 hhalf
    have hbefore := (List.pairwise_append.1 (hevents ▸ hsorted)).1
    have htripped := tripped_of_start hbefore hstate hstart
    have hle : start ≤ now := by
      obtain ⟨e', he', htime⟩ := htripped.began
      exact htime ▸ hbetween.1 e' he'
    by_cases hend : e.time ≤ start + state.cooldownDuration
    · -- the cooldown ends behind the last event
      refine h.atEnd (before ++ [e]) rest state start hevents hstate hstart ⟨fun e' he' => ?_, ?_⟩
      · rcases List.mem_append.1 he' with he' | he'
        · have hlast := (List.pairwise_append.1 hbefore).2.2 e' he' e (List.mem_singleton.2 rfl)
          exact hlast.trans hend
        · rwa [List.mem_singleton.1 he']
      · intro e' he'
        have hnow := hbetween.2 e' he'
        omega
    · -- the circuit was half open already when the last event came
      have hevents' : events = before ++ e :: rest := by rw [hevents, List.append_assoc]; rfl
      obtain ⟨-, hbeforeE, hafterE⟩ := sorted_split (hevents' ▸ hsorted)
      have hrec : ¬ e.Records provider := by
        intro hrec
        have hlast := htripped.last e (List.mem_append_right _ (List.mem_singleton.2 rfl)) hrec
        omega
      have hhalf' : (after config before).getState e.time provider = .halfOpen := by
        rw [after_concat, state_step_of_not_records hrec] at hstate
        exact getState_eq_halfOpen_iff.2 ⟨state, start, hstate, hstart, by omega, hcount⟩
      rw [outstanding_concat]
      by_cases hcheck : e.Checks provider
      · obtain ⟨call, htrack⟩ := track_check (outstanding config provider before) hcheck
          (check_of_halfOpen hhalf')
        rw [htrack, h.afterEnd before e rest hevents' hcheck hhalf']
        exact le_rfl
      · rw [track_other hrec hcheck]
        refine ih hevents' ⟨hbeforeE, fun e' he' => ?_⟩ hhalf'
        rcases List.mem_cons.1 he' with rfl | he'
        · exact le_rfl
        · exact hafterE e' he'

/-- **The probes of a provider** are single just where the calls come spaced: of what the breaker
lets through it remembers nothing, so only a recorded failure holds a probe back. -/
theorem singleProbe_iff_spaced (config : CooldownConfig) (provider : String) (events : List Event)
    (hsorted : events.Pairwise fun e e' => e.time ≤ e'.time) :
    SingleProbe config provider events ↔ Spaced config provider events := by
  constructor
  · intro h
    refine ⟨?_, ?_, ?_⟩
    · intro before c mid d rest hevents hc hd hmid hdue hdopen
      exact during_of_whileOpen hsorted h hevents hc hd hmid hdue hdopen
    · intro before rest state start hevents hstate hstart hbetween
      exact atEnd_of_whileHalfOpen hsorted h hevents hstate hstart hbetween
    · intro before c rest hevents hc hhalf
      exact afterEnd_of_whileHalfOpen hsorted h hevents hc hhalf
  · intro h
    refine ⟨?_, ?_⟩
    · intro before c mid d rest hevents hc hd hcprobe hcopen hdprobe hdopen
      exact whileOpen_of_during hsorted h hevents hc hd hcprobe hcopen hdprobe hdopen
    · intro before rest now hevents hbetween hhalf
      exact whileHalfOpen_of_spaced hsorted h hevents hbetween hhalf

/-- A failure, and then three checks: two in the cooldown and one after it. -/
def storm : List Event :=
  [⟨0, "anthropic", .recordFailure 0 false⟩, ⟨30 * 10 ^ 9, "anthropic", .check 1⟩,
    ⟨31 * 10 ^ 9, "anthropic", .check 2⟩, ⟨61 * 10 ^ 9, "anthropic", .check 3⟩]

/-- All three are let through as probes, the first two within a second. -/
theorem storm_not_singleProbe : ¬ SingleProbe {} "anthropic" storm := by
  intro h
  have hspaced := h.whileOpen [⟨0, "anthropic", .recordFailure 0 false⟩]
    ⟨30 * 10 ^ 9, "anthropic", .check 1⟩ [] ⟨31 * 10 ^ 9, "anthropic", .check 2⟩
    [⟨61 * 10 ^ 9, "anthropic", .check 3⟩] rfl ⟨rfl, 1, rfl⟩ ⟨rfl, 2, rfl⟩ (by decide) (by decide)
    (by decide) (by decide)
  exact absurd hspaced (by decide)

/-- After a failure, one check in the cooldown is a single probe. -/
theorem singleProbe_iff_spaced_failure :
    SingleProbe {} "anthropic" [⟨0, "anthropic", .recordFailure 0 false⟩,
        ⟨30 * 10 ^ 9, "anthropic", .check 1⟩] ↔
      Spaced {} "anthropic" [⟨0, "anthropic", .recordFailure 0 false⟩,
        ⟨30 * 10 ^ 9, "anthropic", .check 1⟩] :=
  singleProbe_iff_spaced {} "anthropic" _ (by decide)

end AuthCooldown
end RustyHand
