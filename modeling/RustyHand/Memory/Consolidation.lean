import RustyHand.Lib.Float64
import RustyHand.Lib.GroupMerge
import Mathlib.Algebra.BigOperators.Group.List.Basic
import Mathlib.Algebra.Ring.Int.Defs
import Mathlib.Data.List.Dedup
import Mathlib.Data.Prod.Lex
import Mathlib.Data.String.Basic

/-!
# Memory consolidation

`consolidate` of `rusty-hand-memory/src/consolidation.rs`, in one transaction that does not fail.
The order of rows in a table is that in which they were inserted.  The sum of access counts wraps,
as in a release build.

* `Row`, `Memories`: the table `memories`;
* `decayOld`, `mergeExactDuplicates`, `consolidate`: the function;
* `merging`, `members_consolidate`: every group of duplicates is collapsed;
* `LosesNothing`, `consolidate_losesNothing_iff`.
-/

namespace RustyHand
namespace Consolidation

open GroupMerge Float64

/-- A row of `memories`. -/
structure Row where
  id : String
  agentId : String
  content : String
  scope : String
  confidence : F64
  accessedAt : String
  accessCount : Int64
  deleted : Bool := false
  embedding : Option (List UInt8) := none

/-- The table: `id` is its primary key. -/
structure Memories where
  rows : List Row
  unique : Table.UniqueKeys Row.id rows

/-- What the duplicates of a memory share: agent, scope and content. -/
abbrev Triple : Type := String × String × String

/-- `ConsolidationReport`, without the time it took. -/
structure ConsolidationReport where
  memoriesMerged : ℕ
  memoriesDecayed : ℕ

namespace Row

/-- Agent, scope and content. -/
def triple (r : Row) : Triple := (r.agentId, r.scope, r.content)

/-- `deleted = 0`. -/
def live (r : Row) : Bool := !r.deleted

/-- The place of a row under `ORDER BY confidence DESC, accessed_at DESC, id ASC`; a column holds no
NaN. -/
def rank (r : Row) : ℤ ×ₗ Stringᵒᵈ ×ₗ String :=
  toLex (-(r.confidence.key?.getD 0), toLex (OrderDual.toDual r.accessedAt, r.id))

end Row

/-- `f64::MIN`. -/
def f64Min : F64 := ⟨0xFFEFFFFFFFFFFFFF⟩

/-- The largest confidence. -/
def maxConf (group : List Row) : F64 :=
  group.foldl (fun conf r => if conf.ge r.confidence then conf else r.confidence) f64Min

/-- The latest access. -/
def latestAccessed (group : List Row) : String :=
  group.foldl (fun latest r => max latest r.accessedAt) ""

/-- What the survivor of a group is set to. -/
def absorb (group : List Row) (r : Row) : Row :=
  { r with confidence := maxConf group, accessCount := (group.map Row.accessCount).sum
           accessedAt := latestAccessed group }

/-- What the others are set to. -/
def retire (r : Row) : Row := { r with deleted := true }

/-- `0.1`. -/
def floor : F64 := ⟨0x3FB999999999999A⟩

/-- The memories whose confidence is reduced. -/
def decays (cutoff : String) (r : Row) : Bool :=
  r.live && r.accessedAt < cutoff && !floor.ge r.confidence

/-- The confidence of old memories is reduced: `decay` is `MAX(0.1, confidence * ?1)`. -/
def decayOld (decay : F64 → F64) (cutoff : String) (r : Row) : Row :=
  if decays cutoff r then { r with confidence := decay r.confidence } else r

/-- The live rows of a triple, in their order. -/
def groupRows (t : Triple) (rows : List Row) : List Row :=
  (rows.filter fun r => r.live && r.triple = t).insertionSort fun r s => r.rank ≤ s.rank

/-- One group is merged; the number of rows that are merged away grows. -/
def mergeGroup (state : List Row × ℕ) (t : Triple) : List Row × ℕ :=
  match groupRows t state.1 with
  | survivor :: loser :: losers =>
    let rows := Table.modify Row.id survivor.id (absorb (survivor :: loser :: losers)) state.1
    ((loser :: losers).foldl (fun rows r => Table.modify Row.id r.id retire rows) rows,
      state.2 + (loser :: losers).length)
  | _ => state

/-- The triples of more than one live row. -/
def duplicated (rows : List Row) : List Triple :=
  let triples := (rows.filter Row.live).map Row.triple
  triples.dedup.filter fun t => 1 < triples.count t

/-- `merge_exact_duplicates`. -/
def mergeExactDuplicates (rows : List Row) : List Row × ℕ :=
  (duplicated rows).foldl mergeGroup (rows, 0)

/-! ### Groups are collapsed -/

/-- Duplicates are merged into their first row. -/
def merging : Merge Row String Triple (ℤ ×ₗ Stringᵒᵈ ×ₗ String) where
  key := Row.id
  live := Row.live
  group := Row.triple
  rank := Row.rank
  absorb := absorb
  retire := retire
  key_absorb _ _ := rfl
  live_absorb _ _ := rfl
  group_absorb _ _ := rfl
  key_retire _ := rfl
  live_retire _ := rfl

theorem mergeGroup_fst (state : List Row × ℕ) (t : Triple) :
    (mergeGroup state t).1 = merging.merge t state.1 := by
  have hsorted : merging.sorted (merging.members t state.1) = groupRows t state.1 := rfl
  rw [mergeGroup, Merge.merge, hsorted]
  cases groupRows t state.1 with
  | nil => rfl
  | cons survivor rest =>
    cases rest with
    | nil => rfl
    | cons loser losers => rfl

theorem mergeExactDuplicates_fst (rows : List Row) :
    (mergeExactDuplicates rows).1 = merging.mergeAll (duplicated rows) rows := by
  have hfold : ∀ (ts : List Triple) (state : List Row × ℕ),
      (ts.foldl mergeGroup state).1 = merging.mergeAll ts state.1 := by
    intro ts
    induction ts with
    | nil => exact fun _ => rfl
    | cons t ts ih =>
      intro state
      rw [List.foldl_cons, ih, mergeGroup_fst]
      rfl
  exact hfold _ _

theorem decayOld_id (decay : F64 → F64) (cutoff : String) (r : Row) :
    (decayOld decay cutoff r).id = r.id := by
  unfold decayOld
  split_ifs <;> rfl

theorem uniqueKeys_decayOld (decay : F64 → F64) (cutoff : String) {rows : List Row}
    (h : Table.UniqueKeys Row.id rows) :
    Table.UniqueKeys Row.id (rows.map (decayOld decay cutoff)) :=
  h.map (decayOld_id decay cutoff)

/-- `consolidate`. -/
def consolidate (decay : F64 → F64) (cutoff : String) (m : Memories) :
    ConsolidationReport × Memories :=
  let decayed := m.rows.map (decayOld decay cutoff)
  let merged := mergeExactDuplicates decayed
  have hunique : Table.UniqueKeys Row.id merged.1 := by
    have hdecayed : Table.UniqueKeys merging.key decayed :=
      uniqueKeys_decayOld decay cutoff m.unique
    have hmerged := Merge.uniqueKeys_mergeAll hdecayed (duplicated decayed)
    rwa [← mergeExactDuplicates_fst] at hmerged
  (⟨merged.2, m.rows.countP (decays cutoff)⟩, ⟨merged.1, hunique⟩)

/-- The live rows of a triple. -/
def liveRows (t : Triple) (rows : List Row) : List Row :=
  rows.filter fun r => r.live && r.triple = t

variable {decay : F64 → F64} {cutoff : String} {t : Triple} {rows : List Row} {r : Row}

/-- All triples of more than one live row are merged. -/
theorem mem_duplicated (h : 1 < (liveRows t rows).length) : t ∈ duplicated rows := by
  have hcount : ((rows.filter Row.live).map Row.triple).count t = (liveRows t rows).length := by
    rw [List.count_eq_countP, List.countP_map, List.countP_eq_length_filter, List.filter_filter,
      liveRows]
    refine congrArg _ (List.filter_congr fun r _ => ?_)
    rw [Function.comp_apply, beq_eq_decide, Bool.and_comm]
  refine List.mem_filter.2 ⟨List.mem_dedup.2 (List.count_pos_iff.1 ?_), ?_⟩
  · omega
  · rw [hcount]
    exact decide_eq_true h

theorem liveRows_decayOld (decay : F64 → F64) (cutoff : String) (t : Triple) (rows : List Row) :
    liveRows t (rows.map (decayOld decay cutoff)) =
      (liveRows t rows).map (decayOld decay cutoff) := by
  unfold liveRows
  rw [List.filter_map]
  refine congrArg _ (List.filter_congr fun r _ => ?_)
  show ((decayOld decay cutoff r).live && (decayOld decay cutoff r).triple = t) = _
  unfold decayOld
  split_ifs <;> rfl

/-- Every group of duplicates is collapsed, and nothing else changes. -/
theorem liveRows_consolidate (decay : F64 → F64) (cutoff : String) (m : Memories) (t : Triple) :
    liveRows t (consolidate decay cutoff m).2.rows =
      merging.collapse ((liveRows t m.rows).map (decayOld decay cutoff)) := by
  rw [← liveRows_decayOld]
  have hall : ∀ t, 1 < (merging.members t (m.rows.map (decayOld decay cutoff))).length →
      t ∈ duplicated (m.rows.map (decayOld decay cutoff)) := fun t h => mem_duplicated h
  show merging.members t (mergeExactDuplicates (m.rows.map (decayOld decay cutoff))).1 = _
  rw [mergeExactDuplicates_fst]
  exact Merge.members_mergeAll_of_forall (uniqueKeys_decayOld decay cutoff m.unique) hall t

/-! ### What is kept -/

/-- The accesses of some rows. -/
def accesses (rows : List Row) : ℤ := (rows.map fun r => r.accessCount.toInt).sum

/-- No two live rows share a triple, the triples are those that there were, each with all of its
accesses, and with an embedding if it had one. -/
structure LosesNothing (before after : List Row) : Prop where
  distinct : ∀ t, (liveRows t after).length ≤ 1
  triples : ∀ t, liveRows t after = [] ↔ liveRows t before = []
  accessed : ∀ t, accesses (liveRows t after) = accesses (liveRows t before)
  embedded : ∀ t, (∃ r ∈ liveRows t before, r.embedding ≠ none) →
    ∃ r ∈ liveRows t after, r.embedding ≠ none

/-- The accesses of every triple fit into 64 bits. -/
def CountsFit (rows : List Row) : Prop :=
  ∀ t, -2 ^ 63 ≤ accesses (liveRows t rows) ∧ accesses (liveRows t rows) < 2 ^ 63

/-- If a live row of a triple has an embedding, then the first one has. -/
def EmbeddingFirst (rows : List Row) : Prop :=
  ∀ t, (∃ r ∈ liveRows t rows, r.embedding ≠ none) →
    ∃ r ∈ liveRows t rows, r.embedding ≠ none ∧ ∀ s ∈ liveRows t rows, r.rank ≤ s.rank

theorem toInt_sum (counts : List Int64) :
    counts.sum.toInt = (counts.map Int64.toInt).sum.bmod (2 ^ 64) := by
  induction counts with
  | nil => rfl
  | cons n counts ih =>
    rw [List.sum_cons, Int64.toInt_add, ih, List.map_cons, List.sum_cons, Int.add_bmod_bmod]

theorem accesses_perm {group group' : List Row} (h : group.Perm group') :
    accesses group = accesses group' := (h.map _).sum_eq

theorem accesses_bmod_of_length_le {group : List Row} (h : group.length ≤ 1) :
    (accesses group).bmod (2 ^ 64) = accesses group := by
  cases group with
  | nil => rfl
  | cons r rest =>
    cases rest with
    | nil =>
      have hone : accesses [r] = r.accessCount.toInt := by simp [accesses]
      rw [hone]
      exact Int64.toInt_bmod _
    | cons s rest =>
      simp only [List.length_cons] at h
      omega

theorem accesses_collapse (group : List Row) :
    accesses (merging.collapse group) = (accesses group).bmod (2 ^ 64) := by
  rcases merging.collapse_cases group with
    ⟨hlen, hcollapse⟩ | ⟨first, second, others, hsorted, hcollapse⟩
  · rw [hcollapse, accesses_bmod_of_length_le hlen]
  · have hperm : (first :: second :: others).Perm group := hsorted ▸ Merge.sorted_perm group
    have hone : ∀ r : Row, accesses [r] = r.accessCount.toInt := fun r => by simp [accesses]
    rw [hcollapse, hone, ← accesses_perm hperm, accesses, ← Function.comp_def Int64.toInt,
      ← List.map_map]
    exact toInt_sum _

theorem bmod_eq_self_iff (n : ℤ) : n.bmod (2 ^ 64) = n ↔ -2 ^ 63 ≤ n ∧ n < 2 ^ 63 := by
  constructor
  · intro h
    have hle := @Int.le_bmod n (2 ^ 64) (by decide)
    have hlt := @Int.bmod_lt n (2 ^ 64) (by decide)
    rw [h] at hle hlt
    omega
  · rintro ⟨hle, hlt⟩
    exact Int.bmod_eq_of_le (by omega) (by omega)

theorem embedded_collapse_iff {group : List Row} (hunique : Table.UniqueKeys Row.id group) :
    (∃ r ∈ merging.collapse group, r.embedding ≠ none) ↔
      ∃ r ∈ group, r.embedding ≠ none ∧ ∀ s ∈ group, r.rank ≤ s.rank := by
  have hinj : ∀ r ∈ group, ∀ s ∈ group, r.rank = s.rank → r = s := fun r hr s hs hrank =>
    hunique.eq hr hs (congrArg (fun k => (ofLex (ofLex k).2).2) hrank)
  rcases merging.collapse_cases group with
    ⟨hlen, hcollapse⟩ | ⟨first, second, others, hsorted, hcollapse⟩
  · rw [hcollapse]
    have hone : ∀ r ∈ group, ∀ s ∈ group, r = s := by
      intro r hr s hs
      obtain ⟨a, ha⟩ : ∃ a, group = [a] :=
        List.length_eq_one_iff.1 (Nat.le_antisymm hlen (List.length_pos_of_mem hr))
      rw [ha] at hr hs
      rw [List.mem_singleton.1 hr, List.mem_singleton.1 hs]
    exact exists_congr fun r => and_congr_right fun hr =>
      (and_iff_left fun s hs => (congrArg Row.rank (hone r hr s hs)).le).symm
  · have hfirst : first ∈ group :=
      (Merge.sorted_perm group).mem_iff.1 (hsorted ▸ List.mem_cons_self)
    rw [hcollapse]
    constructor
    · rintro ⟨r, hr, hembedding⟩
      obtain rfl := List.mem_singleton.1 hr
      exact ⟨first, hfirst, hembedding, fun s hs => Merge.first_le hsorted hs⟩
    · rintro ⟨r, hr, hembedding, hle⟩
      have hsame := hinj r hr first hfirst
        (le_antisymm (hle first hfirst) (Merge.first_le hsorted hr))
      exact ⟨_, List.mem_singleton_self _, hsame ▸ hembedding⟩

theorem accesses_decayOld (group : List Row) :
    accesses (group.map (decayOld decay cutoff)) = accesses group := by
  rw [accesses, accesses, List.map_map]
  refine congrArg _ (List.map_congr_left fun r _ => ?_)
  rw [Function.comp_apply, decayOld]
  split_ifs <;> rfl

theorem embedding_decayOld (r : Row) : (decayOld decay cutoff r).embedding = r.embedding := by
  unfold decayOld
  split_ifs <;> rfl

theorem exists_embedding_decayOld (group : List Row) :
    (∃ r ∈ group.map (decayOld decay cutoff), r.embedding ≠ none) ↔
      ∃ r ∈ group, r.embedding ≠ none := by
  constructor
  · rintro ⟨r, hr, hembedding⟩
    obtain ⟨s, hs, rfl⟩ := List.mem_map.1 hr
    exact ⟨s, hs, embedding_decayOld s ▸ hembedding⟩
  · rintro ⟨r, hr, hembedding⟩
    exact ⟨_, List.mem_map_of_mem hr, (embedding_decayOld r).symm ▸ hembedding⟩

/-- Nothing is lost exactly if the accesses of every triple fit into 64 bits and, in the order after
the decay, the first row of a triple has an embedding whenever one of its rows has. -/
theorem consolidate_losesNothing_iff (decay : F64 → F64) (cutoff : String) (m : Memories) :
    LosesNothing m.rows (consolidate decay cutoff m).2.rows ↔
      CountsFit m.rows ∧ EmbeddingFirst (m.rows.map (decayOld decay cutoff)) := by
  have haccesses : ∀ t, accesses (liveRows t (consolidate decay cutoff m).2.rows) =
      (accesses (liveRows t m.rows)).bmod (2 ^ 64) := fun t => by
    rw [liveRows_consolidate, accesses_collapse, accesses_decayOld]
  have hembedded : ∀ t, (∃ r ∈ liveRows t (consolidate decay cutoff m).2.rows,
        r.embedding ≠ none) ↔ ∃ r ∈ liveRows t (m.rows.map (decayOld decay cutoff)),
      r.embedding ≠ none ∧ ∀ s ∈ liveRows t (m.rows.map (decayOld decay cutoff)),
        r.rank ≤ s.rank := fun t => by
    have hunique := (uniqueKeys_decayOld decay cutoff m.unique).sublist
      ((List.filter_sublist (p := fun r => r.live && r.triple = t)).map Row.id)
    rw [liveRows_consolidate, ← liveRows_decayOld]
    exact embedded_collapse_iff hunique
  have hsource : ∀ t, (∃ r ∈ liveRows t m.rows, r.embedding ≠ none) ↔
      ∃ r ∈ liveRows t (m.rows.map (decayOld decay cutoff)), r.embedding ≠ none := fun t => by
    rw [liveRows_decayOld, exists_embedding_decayOld]
  constructor
  · intro h
    refine ⟨fun t => (bmod_eq_self_iff _).1 ?_, fun t ht => (hembedded t).1 ?_⟩
    · rw [← haccesses, h.accessed]
    · exact h.embedded t ((hsource t).2 ht)
  · rintro ⟨hfit, hfirst⟩
    refine ⟨fun t => ?_, fun t => ?_, fun t => ?_, fun t ht => ?_⟩
    · rw [liveRows_consolidate]
      exact Merge.length_collapse_le _
    · rw [liveRows_consolidate, Merge.collapse_eq_nil_iff, List.map_eq_nil_iff]
    · rw [haccesses, (bmod_eq_self_iff _).2 (hfit t)]
    · exact (hembedded t).2 (hfirst t ((hsource t).1 ht))

/-- Two rows of one memory, of which only the one that was accessed first has an embedding. -/
def twice : Memories where
  rows := [
    { id := "a", agentId := "hand", content := "The sky is blue.", scope := "episodic"
      confidence := ⟨0x3FF0000000000000⟩, accessedAt := "2026-01-01T00:00:00+00:00"
      accessCount := 2, embedding := some [0, 0, 128, 63] },
    { id := "b", agentId := "hand", content := "The sky is blue.", scope := "episodic"
      confidence := ⟨0x3FF0000000000000⟩, accessedAt := "2026-01-02T00:00:00+00:00"
      accessCount := 3 }]
  unique := by
    unfold Table.UniqueKeys
    decide

/-- The row that stays is the one without an embedding. -/
theorem consolidate_loses_embedding :
    ¬ ∀ (decay : F64 → F64) (cutoff : String) (m : Memories),
      LosesNothing m.rows (consolidate decay cutoff m).2.rows := by
  intro h
  have hhad : ∃ r ∈ liveRows ("hand", "episodic", "The sky is blue.") twice.rows,
      r.embedding ≠ none := by decide
  have hleft : ∀ r ∈ liveRows ("hand", "episodic", "The sky is blue.")
      (consolidate id "2026-01-01T00:00:00+00:00" twice).2.rows, r.embedding = none := by
    decide
  obtain ⟨r, hr, hembedding⟩ := (h id "2026-01-01T00:00:00+00:00" twice).embedded _ hhad
  exact hembedding (hleft r hr)

end Consolidation
end RustyHand
