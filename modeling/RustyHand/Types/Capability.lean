import RustyHand.Lib.Float64
import RustyHand.Lib.Glob
import RustyHand.Types.Text

/-!
# Capabilities

`rusty-hand-types/src/capability.rs`: what an agent may be granted, when a grant covers a required
capability, and the check that a child asks for no more than its parent has.
-/

namespace RustyHand

open Float64

/-- `Capability`. -/
inductive Capability
  | fileRead (pattern : String)
  | fileWrite (pattern : String)
  | netConnect (pattern : String)
  | netListen (port : UInt16)
  | toolInvoke (id : String)
  | toolAll
  | llmQuery (pattern : String)
  | llmMaxTokens (max : UInt64)
  | agentSpawn
  | agentMessage (pattern : String)
  | agentKill (pattern : String)
  | memoryRead (pattern : String)
  | memoryWrite (pattern : String)
  | shellExec (pattern : String)
  | envRead (pattern : String)
  | ofpDiscover
  | ofpConnect (pattern : String)
  | ofpAdvertise
  | econSpend (max : F64)
  | econEarn
  | econTransfer (pattern : String)
  deriving DecidableEq

namespace Capability

/-- `glob_matches`, on characters; only the first `*` of a pattern is a wildcard, and a `*` at its
start or end goes before one in the middle. -/
def globMatchesChars (pattern value : List Char) : Bool :=
  if pattern = ['*'] then true
  else if pattern = value then true
  else
    match pattern with
    | '*' :: suffix => suffix.isSuffixOf value
    | _ =>
      if pattern.getLast? = some '*' then pattern.dropLast.isPrefixOf value
      else if '*' ∈ pattern then
        let before := pattern.takeWhile (· ≠ '*')
        let after := (pattern.dropWhile (· ≠ '*')).tail
        before.isPrefixOf value && after.isSuffixOf value &&
          decide (Text.byteLength before + Text.byteLength after ≤ Text.byteLength value)
      else false

/-- `glob_matches`. -/
def globMatches (pattern value : String) : Bool := globMatchesChars pattern.toList value.toList

/-- `capability_matches`. -/
def capabilityMatches (granted required : Capability) : Bool :=
  match granted, required with
  | toolAll, toolInvoke _ => true
  | fileRead pattern, fileRead path => globMatches pattern path
  | fileWrite pattern, fileWrite path => globMatches pattern path
  | netConnect pattern, netConnect host => globMatches pattern host
  | toolInvoke grantedId, toolInvoke requiredId => grantedId = requiredId || grantedId = "*"
  | llmQuery pattern, llmQuery model => globMatches pattern model
  | agentMessage pattern, agentMessage target => globMatches pattern target
  | agentKill pattern, agentKill target => globMatches pattern target
  | memoryRead pattern, memoryRead scope => globMatches pattern scope
  | memoryWrite pattern, memoryWrite scope => globMatches pattern scope
  | shellExec pattern, shellExec cmd => globMatches pattern cmd
  | envRead pattern, envRead var => globMatches pattern var
  | ofpConnect pattern, ofpConnect peer => globMatches pattern peer
  | econTransfer pattern, econTransfer target => globMatches pattern target
  | agentSpawn, agentSpawn => true
  | ofpDiscover, ofpDiscover => true
  | ofpAdvertise, ofpAdvertise => true
  | econEarn, econEarn => true
  | netListen grantedPort, netListen requiredPort => grantedPort = requiredPort
  | llmMaxTokens grantedMax, llmMaxTokens requiredMax => requiredMax ≤ grantedMax
  | econSpend grantedMax, econSpend requiredAmount => grantedMax.ge requiredAmount
  | _, _ => false

/-- The denial of `validate_capability_inheritance`, which names the child's capability: "Privilege
escalation denied: child requests … but parent does not have a matching grant". -/
structure EscalationDenied where
  childCap : Capability
  deriving DecidableEq

/-- `validate_capability_inheritance`. -/
def validateCapabilityInheritance (parentCaps : List Capability) :
    List Capability → Except EscalationDenied Unit
  | [] => .ok ()
  | childCap :: rest =>
    if parentCaps.any fun parentCap => capabilityMatches parentCap childCap then
      validateCapabilityInheritance parentCaps rest
    else .error ⟨childCap⟩

theorem validateCapabilityInheritance_eq_ok {parentCaps childCaps : List Capability} :
    validateCapabilityInheritance parentCaps childCaps = .ok () ↔
      ∀ c ∈ childCaps, ∃ p ∈ parentCaps, capabilityMatches p c = true := by
  induction childCaps with
  | nil => simp [validateCapabilityInheritance]
  | cons c cs ih =>
    rw [validateCapabilityInheritance, List.forall_mem_cons, ← ih, ← List.any_eq_true]
    split <;> simp_all

end Capability
end RustyHand

/-!
## When a grant contains another

`validate_capability_inheritance` compares the text of a child's pattern with the parent's pattern,
as if it were one of the values the pattern is meant for.  Whether the parent then allows all that
the child is allowed is a question about two patterns: `Covers` answers it, and
`inheritance_sound_iff` says for which lists of grants the check is enough.
-/

namespace RustyHand
namespace Capability

open HolePattern Float64

/-! ### Globs are patterns with one hole -/

/-- What a glob matches. -/
def patternOf (glob : List Char) : Pattern Char :=
  match glob with
  | '*' :: suffix => .hole [] suffix
  | _ =>
    if glob.getLast? = some '*' then .hole glob.dropLast []
    else if '*' ∈ glob then
      .hole (glob.takeWhile (· ≠ '*')) (glob.dropWhile (· ≠ '*')).tail
    else .exact glob

theorem takeWhile_append_star {glob : List Char} (h : '*' ∈ glob) :
    glob = glob.takeWhile (· ≠ '*') ++ '*' :: (glob.dropWhile (· ≠ '*')).tail := by
  induction glob with
  | nil => simp at h
  | cons c cs ih =>
    by_cases hc : c = '*'
    · simp [hc]
    · have hmem : '*' ∈ cs := by
        rcases List.mem_cons.1 h with h | h
        · exact absurd h.symm hc
        · exact h
      simpa [hc] using ih hmem

theorem patternOf_star (suffix : List Char) : patternOf ('*' :: suffix) = .hole [] suffix := rfl

theorem patternOf_of_ne {glob : List Char} (h : glob.head? ≠ some '*') : patternOf glob =
    if glob.getLast? = some '*' then .hole glob.dropLast []
    else if '*' ∈ glob then
      .hole (glob.takeWhile (· ≠ '*')) (glob.dropWhile (· ≠ '*')).tail
    else .exact glob := by
  unfold patternOf
  split
  · exact absurd rfl h
  · rfl

theorem patternOf_matches_self (glob : List Char) : (patternOf glob).Matches glob := by
  by_cases hhead : glob.head? = some '*'
  · obtain ⟨suffix, rfl⟩ := List.head?_eq_some_iff.1 hhead
    exact ⟨List.nil_prefix, List.suffix_cons .., by simp⟩
  rw [patternOf_of_ne hhead]
  split_ifs with hlast hstar
  · refine ⟨List.dropLast_prefix glob, List.nil_suffix, ?_⟩
    simp
  · refine Pattern.matches_hole_iff.2 ⟨['*'], ?_⟩
    conv_lhs => rw [takeWhile_append_star hstar]
    simp
  · rfl

theorem globMatchesChars_of_ne {glob value : List Char} (h : glob.head? ≠ some '*')
    (hself : glob ≠ value) : globMatchesChars glob value =
      if glob.getLast? = some '*' then glob.dropLast.isPrefixOf value
      else if '*' ∈ glob then
        (glob.takeWhile (· ≠ '*')).isPrefixOf value &&
          (glob.dropWhile (· ≠ '*')).tail.isSuffixOf value &&
          decide (Text.byteLength (glob.takeWhile (· ≠ '*')) +
            Text.byteLength (glob.dropWhile (· ≠ '*')).tail ≤ Text.byteLength value)
      else false := by
  have hstar : glob ≠ ['*'] := by
    rintro rfl
    exact h rfl
  rw [globMatchesChars, if_neg hstar, if_neg hself]
  rintro suffix rfl
  exact h rfl

theorem globMatchesChars_iff {glob value : List Char} :
    globMatchesChars glob value = true ↔ (patternOf glob).Matches value := by
  by_cases hself : glob = value
  · subst hself
    simp [globMatchesChars, patternOf_matches_self]
  by_cases hhead : glob.head? = some '*'
  · obtain ⟨suffix, rfl⟩ := List.head?_eq_some_iff.1 hhead
    rw [patternOf_star, globMatchesChars, if_neg hself]
    by_cases hall : suffix = []
    · simp [hall, Pattern.Matches]
    · have hlen : suffix <:+ value → suffix.length ≤ value.length := List.IsSuffix.length_le
      simpa [hall, Pattern.Matches] using hlen
  rw [patternOf_of_ne hhead, globMatchesChars_of_ne hhead hself]
  by_cases hlast : glob.getLast? = some '*'
  · have hlen : glob.dropLast <+: value → glob.dropLast.length ≤ value.length :=
      List.IsPrefix.length_le
    simpa [hlast, Pattern.Matches] using hlen
  by_cases hmem : '*' ∈ glob
  · simp only [hlast, hmem, if_true, if_false, Bool.and_eq_true, List.isPrefixOf_iff_prefix,
      List.isSuffixOf_iff_suffix, decide_eq_true_eq, Pattern.Matches, and_assoc]
    exact and_congr_right fun hpre => and_congr_right fun hsuf =>
      Text.byteLength_add_le_iff hpre hsuf
  · simp only [hlast, hmem, if_false, Pattern.Matches, Bool.false_eq_true, false_iff]
    exact fun h => hself h.symm

/-- The pattern of a glob. -/
def globPattern (glob : String) : Pattern Char := patternOf glob.toList

theorem globMatches_iff {glob value : String} :
    globMatches glob value = true ↔ (globPattern glob).Matches value.toList :=
  globMatchesChars_iff

/-! ### Capabilities with a glob -/

/-- The kinds of capability whose value is a glob. -/
inductive GlobKind
  | fileRead | fileWrite | netConnect | llmQuery | agentMessage | agentKill | memoryRead
  | memoryWrite | shellExec | envRead | ofpConnect | econTransfer
  deriving DecidableEq

/-- The capability of a kind for a glob. -/
def GlobKind.cap : GlobKind → String → Capability
  | .fileRead => Capability.fileRead
  | .fileWrite => Capability.fileWrite
  | .netConnect => Capability.netConnect
  | .llmQuery => Capability.llmQuery
  | .agentMessage => Capability.agentMessage
  | .agentKill => Capability.agentKill
  | .memoryRead => Capability.memoryRead
  | .memoryWrite => Capability.memoryWrite
  | .shellExec => Capability.shellExec
  | .envRead => Capability.envRead
  | .ofpConnect => Capability.ofpConnect
  | .econTransfer => Capability.econTransfer

/-- The kind and the glob of a capability that has one. -/
def glob? : Capability → Option (GlobKind × String)
  | fileRead s => some (.fileRead, s)
  | fileWrite s => some (.fileWrite, s)
  | netConnect s => some (.netConnect, s)
  | llmQuery s => some (.llmQuery, s)
  | agentMessage s => some (.agentMessage, s)
  | agentKill s => some (.agentKill, s)
  | memoryRead s => some (.memoryRead, s)
  | memoryWrite s => some (.memoryWrite, s)
  | shellExec s => some (.shellExec, s)
  | envRead s => some (.envRead, s)
  | ofpConnect s => some (.ofpConnect, s)
  | econTransfer s => some (.econTransfer, s)
  | netListen _ | toolInvoke _ | toolAll | llmMaxTokens _ | agentSpawn | ofpDiscover
  | ofpAdvertise | econSpend _ | econEarn => none

theorem glob?_eq_some_iff {c : Capability} {k : GlobKind} {s : String} :
    c.glob? = some (k, s) ↔ c = k.cap s := by
  constructor
  · intro h
    cases c <;> cases h <;> rfl
  · rintro rfl
    cases k <;> rfl

theorem matches_cap_iff {g : Capability} {k : GlobKind} {s : String} :
    capabilityMatches g (k.cap s) = true ↔ ∃ p, g = k.cap p ∧ globMatches p s = true := by
  constructor
  · intro h
    cases k <;> cases g <;> first | exact ⟨_, rfl, h⟩ | cases h
  · rintro ⟨p, rfl, h⟩
    cases k <;> exact h

theorem cap_matches_iff {r : Capability} {k : GlobKind} {s : String} :
    capabilityMatches (k.cap s) r = true ↔ ∃ v, r = k.cap v ∧ globMatches s v = true := by
  constructor
  · intro h
    cases k <;> cases r <;> first | exact ⟨_, rfl, h⟩ | cases h
  · rintro ⟨v, rfl, h⟩
    cases k <;> exact h

theorem cap_injective {k k' : GlobKind} {s s' : String} (h : k.cap s = k'.cap s') :
    k = k' ∧ s = s' := by
  have := glob?_eq_some_iff.2 h
  rw [glob?_eq_some_iff.2 rfl] at this
  simpa using this

theorem toolInvoke_matches_iff {grantedId requiredId : String} :
    capabilityMatches (toolInvoke grantedId) (toolInvoke requiredId) = true ↔
      grantedId = requiredId ∨ grantedId = "*" := by
  show (decide (grantedId = requiredId) || decide (grantedId = "*")) = true ↔ _
  rw [Bool.or_eq_true, decide_eq_true_eq, decide_eq_true_eq]

/-- Grants without a glob are compared soundly. -/
theorem matches_trans_of_no_glob {g c r : Capability} (hc : c.glob? = none)
    (hgc : capabilityMatches g c = true) (hcr : capabilityMatches c r = true) :
    capabilityMatches g r = true := by
  -- what is left are the grants of one kind, and `toolAll`
  cases c <;> try (cases hc; done)
  all_goals cases g <;> try cases hgc
  all_goals cases r <;> first | rfl | cases hcr | skip
  case netListen.netListen.netListen =>
    exact decide_eq_true ((of_decide_eq_true hgc).trans (of_decide_eq_true hcr))
  case toolInvoke.toolInvoke.toolInvoke =>
    rw [toolInvoke_matches_iff] at hgc hcr ⊢
    rcases hgc with rfl | hstar
    · exact hcr
    · exact Or.inr hstar
  case llmMaxTokens.llmMaxTokens.llmMaxTokens =>
    exact decide_eq_true (UInt64.le_trans (of_decide_eq_true hcr) (of_decide_eq_true hgc))
  case econSpend.econSpend.econSpend => exact F64.ge_trans hgc hcr

/-! ### Covering -/

/-- A grant contains another: by its pattern, or by the check itself where there is no pattern. -/
def Covers (p c : Capability) : Prop :=
  match p.glob?, c.glob? with
  | some (k, s), some (k', s') => k = k' ∧ (globPattern s).Covers (globPattern s')
  | _, _ => capabilityMatches p c = true

theorem covers_cap_iff {p : Capability} {k : GlobKind} {s : String} :
    p.Covers (k.cap s) ↔ ∃ s', p = k.cap s' ∧ (globPattern s').Covers (globPattern s) := by
  have hglob : (k.cap s).glob? = some (k, s) := glob?_eq_some_iff.2 rfl
  unfold Covers
  rw [hglob]
  cases hp : p.glob? with
  | none =>
    have hne : ∀ s', p ≠ k.cap s' := by
      rintro s' rfl
      rw [glob?_eq_some_iff.2 rfl] at hp
      cases hp
    simp [matches_cap_iff, hne]
  | some e =>
    obtain ⟨k', s'⟩ := e
    obtain rfl := glob?_eq_some_iff.1 hp
    constructor
    · rintro ⟨rfl, hcov⟩
      exact ⟨s', rfl, hcov⟩
    · rintro ⟨s'', heq, hcov⟩
      obtain ⟨rfl, rfl⟩ := cap_injective heq
      exact ⟨rfl, hcov⟩

/-- What a contained grant allows, the grant allows. -/
theorem Covers.matches {p c r : Capability} (hpc : p.Covers c)
    (hcr : capabilityMatches c r = true) : capabilityMatches p r = true := by
  cases hc : c.glob? with
  | none =>
    refine matches_trans_of_no_glob hc ?_ hcr
    rw [Covers, hc] at hpc
    cases hp : p.glob? <;> rw [hp] at hpc <;> exact hpc
  | some e =>
    obtain ⟨k, s⟩ := e
    obtain rfl := glob?_eq_some_iff.1 hc
    obtain ⟨s', rfl, hcov⟩ := covers_cap_iff.1 hpc
    obtain ⟨v, rfl, hv⟩ := cap_matches_iff.1 hcr
    exact cap_matches_iff.2 ⟨v, rfl, globMatches_iff.2 (hcov.matches (globMatches_iff.1 hv))⟩

/-- The check itself takes a contained grant for one that is granted. -/
theorem Covers.matches_self {p c : Capability} (h : p.Covers c) :
    capabilityMatches p c = true := by
  cases hc : c.glob? with
  | none =>
    rw [Covers, hc] at h
    cases hp : p.glob? <;> rw [hp] at h <;> exact h
  | some e =>
    obtain ⟨k, s⟩ := e
    obtain rfl := glob?_eq_some_iff.1 hc
    apply h.matches
    exact cap_matches_iff.2 ⟨s, rfl, globMatches_iff.2 (patternOf_matches_self _)⟩

theorem covers_of_no_glob {p c : Capability} (hc : c.glob? = none)
    (h : capabilityMatches p c = true) : p.Covers c := by
  unfold Covers
  rw [hc]
  cases p.glob? <;> exact h

theorem Covers.trans {p q c : Capability} (hpq : p.Covers q) (hqc : q.Covers c) : p.Covers c := by
  cases hc : c.glob? with
  | none => exact covers_of_no_glob hc (hpq.matches hqc.matches_self)
  | some e =>
    obtain ⟨k, s⟩ := e
    obtain rfl := glob?_eq_some_iff.1 hc
    obtain ⟨s', rfl, hinner⟩ := covers_cap_iff.1 hqc
    obtain ⟨s'', rfl, houter⟩ := covers_cap_iff.1 hpq
    exact covers_cap_iff.2 ⟨s'', rfl, houter.trans hinner⟩

/-! ### Lists of grants -/

/-- All that the grants `cs` allow, the grants `ps` allow. -/
def Contains (ps cs : List Capability) : Prop :=
  ∀ r, (∃ c ∈ cs, capabilityMatches c r = true) → ∃ p ∈ ps, capabilityMatches p r = true

/-- The longest glob of a list of grants. -/
def longestGlob (ps : List Capability) : ℕ :=
  (ps.map fun p => ((p.glob?.map fun e => e.2.length).getD 0)).foldr max 0

/-- The grants cover the grant `c` together: they allow what fills its hole with at most twice
their longest glob and one more character.  A list needs as many grants as there are characters
to do that without one that covers `c` by itself. -/
def CoverTogether (ps : List Capability) (c : Capability) : Prop :=
  Text.scalarCount ≤ ps.length ∧ ∀ k s a b, c = GlobKind.cap k s → globPattern s = .hole a b →
    ∀ w : List Char, w.length ≤ 2 * longestGlob ps + 1 →
      ∃ p ∈ ps, capabilityMatches p (k.cap (String.ofList (a ++ w ++ b))) = true

/-- A grant that the grants `ps` contain, as far as it has a pattern at all. -/
def SafeGrant (ps : List Capability) (c : Capability) : Prop :=
  c.glob? = none ∨ (∃ p ∈ ps, p.Covers c) ∨ CoverTogether ps c

/-- The patterns of one kind in a list of grants. -/
def patternsOf (k : GlobKind) (ps : List Capability) : List (Pattern Char) :=
  ps.filterMap fun p => p.glob?.bind fun e => if e.1 = k then some (globPattern e.2) else none

theorem mem_patternsOf {k : GlobKind} {ps : List Capability} {q : Pattern Char} :
    q ∈ patternsOf k ps ↔ ∃ s, k.cap s ∈ ps ∧ globPattern s = q := by
  simp only [patternsOf, List.mem_filterMap, Option.bind_eq_some_iff, Prod.exists]
  constructor
  · rintro ⟨p, hp, k', s, hglob, hq⟩
    split at hq
    · obtain rfl : k' = k := ‹_›
      obtain rfl := glob?_eq_some_iff.1 hglob
      exact ⟨s, hp, Option.some.inj hq⟩
    · cases hq
  · rintro ⟨s, hs, rfl⟩
    exact ⟨_, hs, k, s, glob?_eq_some_iff.2 rfl, if_pos rfl⟩

theorem matches_iff_patternsOf {k : GlobKind} {ps : List Capability} {v : String} :
    (∃ p ∈ ps, capabilityMatches p (k.cap v) = true) ↔
      ∃ q ∈ patternsOf k ps, q.Matches v.toList := by
  constructor
  · rintro ⟨p, hp, hm⟩
    obtain ⟨s, rfl, hs⟩ := matches_cap_iff.1 hm
    exact ⟨_, mem_patternsOf.2 ⟨s, hp, rfl⟩, globMatches_iff.1 hs⟩
  · rintro ⟨q, hq, hm⟩
    obtain ⟨s, hs, rfl⟩ := mem_patternsOf.1 hq
    exact ⟨_, hs, matches_cap_iff.2 ⟨s, rfl, globMatches_iff.2 hm⟩⟩

theorem size_globPattern_le (s : String) : (globPattern s).size ≤ s.length := by
  rw [globPattern, ← String.length_toList]
  generalize s.toList = glob
  by_cases hhead : glob.head? = some '*'
  · obtain ⟨suffix, rfl⟩ := List.head?_eq_some_iff.1 hhead
    rw [patternOf_star, Pattern.size]
    simp
  rw [patternOf_of_ne hhead]
  split_ifs with hlast hstar
  · simp [Pattern.size]
  · have := congrArg List.length (takeWhile_append_star hstar)
    rw [List.length_append, List.length_cons] at this
    rw [Pattern.size, Nat.max_le]
    omega
  · exact le_rfl

theorem size_le_longestGlob {k : GlobKind} {ps : List Capability} {q : Pattern Char}
    (hq : q ∈ patternsOf k ps) : q.size ≤ longestGlob ps := by
  obtain ⟨s, hs, rfl⟩ := mem_patternsOf.1 hq
  refine (size_globPattern_le s).trans ?_
  have hglob : (k.cap s).glob? = some (k, s) := glob?_eq_some_iff.2 rfl
  unfold longestGlob
  clear hq
  induction ps with
  | nil => simp at hs
  | cons p ps ih =>
    rw [List.map_cons, List.foldr_cons]
    rcases List.mem_cons.1 hs with rfl | hs
    · rw [hglob]
      exact le_max_left ..
    · exact (ih hs).trans (le_max_right ..)

theorem coverTogether_contains {ps : List Capability} {k : GlobKind} {s : String}
    {a b : List Char} (hs : globPattern s = .hole a b) (h : CoverTogether ps (k.cap s)) :
    ∀ v : String, globMatches s v = true → ∃ p ∈ ps, capabilityMatches p (k.cap v) = true := by
  intro v hv
  rw [globMatches_iff, hs] at hv
  refine matches_iff_patternsOf.2 (Pattern.union_of_bounded (fun q hq => size_le_longestGlob hq)
    (fun w hw => ?_) v.toList hv)
  have := matches_iff_patternsOf.1 (h.2 k s a b rfl hs w hw)
  simpa using this

theorem SafeGrant.contains {ps : List Capability} {c r : Capability} (h : SafeGrant ps c)
    (hchecked : ∃ p ∈ ps, capabilityMatches p c = true) (hr : capabilityMatches c r = true) :
    ∃ p ∈ ps, capabilityMatches p r = true := by
  obtain ⟨p, hp, hpc⟩ := hchecked
  cases hc : c.glob? with
  | none => exact ⟨p, hp, matches_trans_of_no_glob hc hpc hr⟩
  | some e =>
    obtain ⟨k, s⟩ := e
    obtain rfl := glob?_eq_some_iff.1 hc
    rcases h with hnone | ⟨q, hq, hcov⟩ | htogether
    · rw [hc] at hnone
      cases hnone
    · exact ⟨q, hq, hcov.matches hr⟩
    · obtain ⟨v, rfl, hv⟩ := cap_matches_iff.1 hr
      cases hs : globPattern s with
      | exact t =>
        -- without a star the grant allows its own value only
        have hself := globMatches_iff.1 (show globMatches s s = true by simp [globMatches_iff,
          globPattern, patternOf_matches_self])
        rw [globMatches_iff, hs] at hv
        rw [hs] at hself
        obtain rfl : v = s := String.toList_inj.1 (Eq.trans hv (Eq.symm hself))
        exact ⟨p, hp, hpc⟩
      | hole a b => exact coverTogether_contains hs htogether v hv

theorem safeGrant_of_contains {ps : List Capability} {c : Capability}
    (h : ∀ r, capabilityMatches c r = true → ∃ p ∈ ps, capabilityMatches p r = true) :
    SafeGrant ps c := by
  cases hc : c.glob? with
  | none => exact Or.inl hc
  | some e =>
    obtain ⟨k, s⟩ := e
    obtain rfl := glob?_eq_some_iff.1 hc
    by_cases hlen : Text.scalarCount ≤ ps.length
    · refine Or.inr (Or.inr ⟨hlen, fun k' s' a b heq hs w _ => ?_⟩)
      obtain ⟨rfl, rfl⟩ := cap_injective heq
      refine h _ (cap_matches_iff.2 ⟨_, rfl, globMatches_iff.2 ?_⟩)
      rw [hs, Pattern.matches_hole_iff]
      exact ⟨w, by simp⟩
    · have hunion : ∀ v, (globPattern s).Matches v → ∃ q ∈ patternsOf k ps, q.Matches v := by
        intro v hv
        have := matches_iff_patternsOf.1 (h (k.cap (String.ofList v)) (cap_matches_iff.2
          ⟨_, rfl, globMatches_iff.2 (by simpa using hv)⟩))
        simpa using this
      have hcount : (patternsOf k ps).length ≤ ps.length := List.length_filterMap_le ..
      obtain ⟨q, hq, hcov⟩ := Pattern.exists_covers_of_union
        (fun l hl => Text.exists_char_not_mem (by omega)) hunion
      obtain ⟨s', hs', rfl⟩ := mem_patternsOf.1 hq
      exact Or.inr (Or.inl ⟨_, hs', covers_cap_iff.2 ⟨s', rfl, hcov⟩⟩)

/-- **When the inheritance check is enough.**  What an accepted child may do, its parent may do,
exactly when every pattern grant of the child lies within one pattern grant of the parent. -/
theorem inheritance_sound_iff (parentCaps childCaps : List Capability) :
    (validateCapabilityInheritance parentCaps childCaps = .ok () →
        Contains parentCaps childCaps) ↔
      (validateCapabilityInheritance parentCaps childCaps ≠ .ok () ∨
        ∀ c ∈ childCaps, SafeGrant parentCaps c) := by
  rw [imp_iff_not_or]
  refine or_congr_right' fun hok => ?_
  have hchecked := validateCapabilityInheritance_eq_ok.1 (not_not.1 hok)
  constructor
  · intro hcontains c hc
    exact safeGrant_of_contains fun r hr => hcontains r ⟨c, hc, hr⟩
  · rintro hsafe r ⟨c, hc, hr⟩
    exact (hsafe c hc).contains (hchecked c hc) hr

/-- The check takes the second star of the parent's glob and the star of the child's for the same
character. -/
theorem inheritance_escalates : ¬ ∀ parentCaps childCaps : List Capability,
    validateCapabilityInheritance parentCaps childCaps = .ok () →
      Contains parentCaps childCaps := by
  intro hall
  obtain ⟨p, hp, hm⟩ := hall [fileRead "*x*"] [fileRead "foox*"] (by decide)
    (fileRead "foox.key") ⟨_, List.mem_singleton_self _, by decide⟩
  obtain rfl := List.mem_singleton.1 hp
  exact absurd hm (by decide)

end Capability
end RustyHand
