import Mathlib.Data.List.Nodup
import Mathlib.Logic.Function.Basic

/-!
# Matching one list into another

* `Matches`: every entry of one list has an entry of another, no two the same;
* `matches_iff`: where the entries of the other list have different keys, this is to say that the
  keys of the first are different and that each entry has one.
-/

namespace Matching

variable {α β κ : Type*}

/-- The entries of `l` are matched to entries of `l'`, no two to the same. -/
def Matches (R : α → β → Prop) (l : List α) (l' : List β) : Prop :=
  ∃ f : Fin l.length → Fin l'.length, Function.Injective f ∧ ∀ i, R l[i] l'[f i]

variable {R : α → β → Prop} {l : List α} {l' : List β}

/-- A matching by keys that are different in the second list. -/
theorem matches_iff {key : α → κ} {key' : β → κ} (hkey : ∀ a b, R a b → key a = key' b)
    (hnodup : (l'.map key').Nodup) :
    Matches R l l' ↔ (l.map key).Nodup ∧ ∀ a ∈ l, ∃ b ∈ l', R a b := by
  constructor
  · rintro ⟨f, hf, hR⟩
    refine ⟨?_, fun a ha => ?_⟩
    · rw [List.nodup_iff_injective_get]
      intro i j hij
      have hi : (i : ℕ) < l.length := by simpa using i.2
      have hj : (j : ℕ) < l.length := by simpa using j.2
      have hequal : key l[i] = key l[j] := by simpa using hij
      have hfi := hkey _ _ (hR ⟨i, hi⟩)
      have hfj := hkey _ _ (hR ⟨j, hj⟩)
      have hfij : f ⟨i, hi⟩ = f ⟨j, hj⟩ := by
        have hsame : key' l'[f ⟨i, hi⟩] = key' l'[f ⟨j, hj⟩] := hfi.symm.trans (hequal.trans hfj)
        have hinj := List.nodup_iff_injective_get.1 hnodup
        have := @hinj ⟨f ⟨i, hi⟩, by simp⟩ ⟨f ⟨j, hj⟩, by simp⟩ (by simpa using hsame)
        exact Fin.ext (by simpa using this)
      exact Fin.ext (by simpa using hf hfij)
    · obtain ⟨i, hi, rfl⟩ := List.getElem_of_mem ha
      exact ⟨_, List.getElem_mem _, hR ⟨i, hi⟩⟩
  · rintro ⟨hl, hR⟩
    have hchoice : ∀ i : Fin l.length, ∃ j : Fin l'.length, R l[i] l'[j] := by
      intro i
      obtain ⟨b, hb, hab⟩ := hR l[i] (List.getElem_mem _)
      obtain ⟨j, hj, rfl⟩ := List.getElem_of_mem hb
      exact ⟨⟨j, hj⟩, hab⟩
    obtain ⟨f, hf⟩ := Classical.axiomOfChoice hchoice
    refine ⟨f, fun i j hij => ?_, hf⟩
    have hequal : key l[i] = key l[j] := by
      rw [hkey _ _ (hf i), hkey _ _ (hf j), hij]
    have hinj := List.nodup_iff_injective_get.1 hl
    have := @hinj ⟨i, by simp⟩ ⟨j, by simp⟩ (by simpa using hequal)
    exact Fin.ext (by simpa using this)

end Matching
