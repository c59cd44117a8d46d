import Mathlib.Data.List.Basic

/-!
# The life of a work item

An item is posted, perhaps for one agent, is taken by an agent, and is done by that agent with a
result.

* `Item`, `Act`, `step`: the states of an item, and what an agent may do to it;
* `Life`: a list of acts that an item goes through;
* `Life.of_none`: the acts of a whole life, in their order.
-/

namespace WorkItem

variable {α ρ : Type*} [DecidableEq α]

/-- An item. -/
inductive Item (α ρ : Type*)
  | posted (assignee : Option α)
  | taken (agent : α)
  | done (agent : α) (result : ρ)

/-- What an agent does to an item. -/
inductive Act (α ρ : Type*)
  | post (assignee : Option α)
  | take
  | finish (result : ρ)

/-- The item after the act of an agent, if the agent may do it. -/
def step (agent : α) : Act α ρ → Option (Item α ρ) → Option (Item α ρ)
  | .post assignee, none => some (.posted assignee)
  | .take, some (.posted none) => some (.taken agent)
  | .take, some (.posted (some assignee)) => if assignee = agent then some (.taken agent) else none
  | .finish result, some (.taken taker) => if taker = agent then some (.done agent result) else none
  | _, _ => none

/-- From one state of an item to another by acts of agents that may do them. -/
inductive Life : Option (Item α ρ) → List (α × Act α ρ) → Option (Item α ρ) → Prop
  | refl (x : Option (Item α ρ)) : Life x [] x
  | cons {x : Option (Item α ρ)} {y : Item α ρ} {z : Option (Item α ρ)} {agent : α} {act : Act α ρ}
      {acts : List (α × Act α ρ)} (h : step agent act x = some y) (hrest : Life (some y) acts z) :
      Life x ((agent, act) :: acts) z

theorem Life.trans {x y z : Option (Item α ρ)} {acts acts' : List (α × Act α ρ)}
    (h : Life x acts y) (h' : Life y acts' z) : Life x (acts ++ acts') z := by
  induction h with
  | refl x => exact h'
  | cons hstep _ ih => exact .cons hstep (ih h')

theorem Life.of_done {agent : α} {result : ρ} {acts : List (α × Act α ρ)} {x : Option (Item α ρ)}
    (h : Life (some (.done agent result)) acts x) : acts = [] ∧ x = some (.done agent result) := by
  cases h with
  | refl x => exact ⟨rfl, rfl⟩
  | cons hstep _ => rename_i act _ _; cases act <;> cases hstep

/-- An item that is taken stays with its agent, who finishes it at most once. -/
theorem Life.of_taken {agent : α} {acts : List (α × Act α ρ)} {x : Option (Item α ρ)}
    (h : Life (some (.taken agent)) acts x) :
    acts = [] ∧ x = some (.taken agent) ∨
      ∃ result, acts = [(agent, .finish result)] ∧ x = some (.done agent result) := by
  cases h with
  | refl x => exact .inl ⟨rfl, rfl⟩
  | @cons _ _ _ agent' act _ hstep hrest =>
    cases act with
    | post assignee => cases hstep
    | take => cases hstep
    | finish result =>
      rw [step] at hstep
      split_ifs at hstep with hagent
      subst hagent
      obtain rfl := Option.some.inj hstep
      obtain ⟨rfl, rfl⟩ := hrest.of_done
      exact .inr ⟨result, rfl, rfl⟩

/-- The acts of a whole life: a post, a take by the agent that the item is for, and its result. -/
theorem Life.of_none {acts : List (α × Act α ρ)} {x : Option (Item α ρ)} (h : Life none acts x) :
    acts = [] ∨ ∃ poster assignee, (acts = [(poster, .post assignee)] ∨
      ∃ agent, (∀ a, assignee = some a → a = agent) ∧
        (acts = [(poster, .post assignee), (agent, .take)] ∨
          ∃ result, acts = [(poster, .post assignee), (agent, .take),
              (agent, .finish result)])) := by
  cases h with
  | refl x => exact .inl rfl
  | @cons _ _ _ poster act _ hstep hrest =>
    cases act with
    | take => cases hstep
    | finish result => cases hstep
    | post assignee =>
      obtain rfl := Option.some.inj hstep
      refine .inr ⟨poster, assignee, ?_⟩
      cases hrest with
      | refl x => exact .inl rfl
      | @cons _ y _ agent act _ hstep hrest =>
        cases act with
        | post assignee' => cases hstep
        | finish result => cases assignee <;> cases hstep
        | take =>
          have htaken : (∀ a, assignee = some a → a = agent) ∧
              some (.taken agent) = some y := by
            cases assignee with
            | none => exact ⟨fun a ha => (by cases ha), hstep⟩
            | some a =>
              rw [step] at hstep
              split_ifs at hstep with ha
              exact ⟨fun b hb => (Option.some.inj hb).symm.trans ha, hstep⟩
          obtain ⟨hfor, htaken⟩ := htaken
          obtain rfl := Option.some.inj htaken
          refine .inr ⟨agent, hfor, ?_⟩
          obtain ⟨rfl, -⟩ | ⟨result, rfl, -⟩ := hrest.of_taken
          · exact .inl rfl
          · exact .inr ⟨result, rfl⟩

theorem life_append_iff {x z : Option (Item α ρ)} {acts acts' : List (α × Act α ρ)} :
    Life x (acts ++ acts') z ↔ ∃ y, Life x acts y ∧ Life y acts' z := by
  refine ⟨fun h => ?_, fun ⟨y, h, h'⟩ => h.trans h'⟩
  induction acts generalizing x with
  | nil => exact ⟨x, .refl x, h⟩
  | cons act acts ih =>
    cases h with
    | cons hstep hrest =>
      obtain ⟨y, hy, hz⟩ := ih hrest
      exact ⟨y, .cons hstep hy, hz⟩

theorem Life.unique {x y z : Option (Item α ρ)} {acts : List (α × Act α ρ)} (h : Life x acts y)
    (h' : Life x acts z) : y = z := by
  induction h with
  | refl x =>
    cases h' with
    | refl x => rfl
  | cons hstep _ ih =>
    cases h' with
    | cons hstep' hrest' =>
      obtain rfl := Option.some.inj (hstep.symm.trans hstep')
      exact ih hrest'

end WorkItem
