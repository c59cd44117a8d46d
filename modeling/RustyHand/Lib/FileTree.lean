import Mathlib.Data.List.Basic
import Mathlib.Data.List.Infix

/-!
# File trees with symbolic links

A tree of directories, files and symbolic links, and how an operating system walks a path through
it.  A location is the list of names that leads to it from the root; a walk starts at a location,
goes through the components of a path, and follows at most a given number of links on its way.

* `FileTree`, `walk`, `Outcome`;
* a location that a walk finds is a real directory or file, not a link (`walk_found`);
* walking names from a directory either meets no link and ends where the names say, or it is the
  walk of the target of the first link met (`walk_names`, `walk_link`, `location_walk_names`).
-/

namespace FileTree

variable {N : Type*}

/-- A component of a path. -/
inductive Component (N : Type*)
  | cur
  | parent
  | name (n : N)
  deriving DecidableEq

/-- The target of a link. -/
structure Target (N : Type*) where
  absolute : Bool
  comps : List (Component N)
  deriving DecidableEq

theorem Component.exists_names {comps : List (Component N)}
    (h : ∀ c ∈ comps, ∃ n, c = .name n) : ∃ names : List N, comps = names.map .name := by
  induction comps with
  | nil => exact ⟨[], rfl⟩
  | cons c comps ih =>
    obtain ⟨n, rfl⟩ := h c List.mem_cons_self
    obtain ⟨names, rfl⟩ := ih fun c hc => h c (List.mem_cons_of_mem _ hc)
    exact ⟨n :: names, rfl⟩

/-- What stands at a location. -/
inductive Node (N : Type*)
  | dir
  | file
  | link (target : Target N)
  deriving DecidableEq

/-- A tree: the root is a directory, and what exists stands in a directory. -/
structure LinkTree (N : Type*) where
  node : List N → Option (Node N)
  root : node [] = some .dir
  parent : ∀ loc n, node (loc ++ [n]) ≠ none → node loc = some .dir

/-- The end of a walk: an existing location; the place in a directory where the last component
could be created; or an error. -/
inductive Outcome (N : Type*)
  | found (loc : List N)
  | missing (loc : List N)
  | notFound
  | notDirectory
  | tooManyLinks
  deriving DecidableEq

namespace Outcome

/-- The location that is read, written or created. -/
def location? : Outcome N → Option (List N)
  | found loc | missing loc => some loc
  | notFound | notDirectory | tooManyLinks => none

end Outcome

/-- Where the target of a link found in the directory `loc` starts. -/
def Target.start (t : Target N) (loc : List N) : List N := if t.absolute then [] else loc

namespace LinkTree

/-- The finite tree of some entries. -/
def ofEntries [DecidableEq N] (entries : List (List N × Node N))
    (root : entries.lookup [] = some .dir)
    (parents : ∀ e ∈ entries, e.1 = [] ∨ entries.lookup e.1.dropLast = some .dir) : LinkTree N where
  node loc := entries.lookup loc
  root := root
  parent loc n h := by
    obtain ⟨node, hnode⟩ := Option.ne_none_iff_exists'.1 h
    have hmem : (loc ++ [n], node) ∈ entries := by
      clear root parents h
      induction entries with
      | nil => cases hnode
      | cons e entries ih =>
        obtain ⟨key, value⟩ := e
        rw [List.lookup_cons] at hnode
        split at hnode
        · rename_i heq
          rw [beq_iff_eq] at heq
          cases hnode
          rw [heq]
          exact List.mem_cons_self
        · exact List.mem_cons_of_mem _ (ih hnode)
    rcases parents _ hmem with hnil | hdir
    · simp at hnil
    · simpa using hdir

variable (fs : LinkTree N)

/-- A walk that leaves links to `onLink`. -/
def walkWith (onLink : List N → Target N → List (Component N) → Outcome N) :
    List (Component N) → List N → Outcome N
  | [], loc => .found loc
  | c :: rest, loc =>
    match fs.node loc with
    | some .dir =>
      match c with
      | .cur => walkWith onLink rest loc
      | .parent => walkWith onLink rest loc.dropLast
      | .name n =>
        match fs.node (loc ++ [n]) with
        | none => if rest.isEmpty then .missing (loc ++ [n]) else .notFound
        | some (.link t) => onLink loc t rest
        | some .dir | some .file => walkWith onLink rest (loc ++ [n])
    | _ => .notDirectory

/-- The walk through the components from a location, with a budget of links. -/
def walk : ℕ → List (Component N) → List N → Outcome N
  | 0 => fs.walkWith fun _ _ _ => .tooManyLinks
  | budget + 1 => fs.walkWith fun loc t rest => walk budget (t.comps ++ rest) (t.start loc)

variable {fs} {budget : ℕ} {loc : List N} {n : N} {rest : List (Component N)}

/-- A directory or a file, not a link. -/
def Real (fs : LinkTree N) (loc : List N) : Prop :=
  fs.node loc = some .dir ∨ fs.node loc = some .file

/-! ### Steps -/

section Steps

attribute [local simp] walkWith walk

@[simp] theorem walk_nil : fs.walk budget [] loc = .found loc := by
  cases budget <;> rfl

theorem walk_cur (h : fs.node loc = some .dir) :
    fs.walk budget (.cur :: rest) loc = fs.walk budget rest loc := by
  cases budget <;> simp [h]

theorem walk_parent (h : fs.node loc = some .dir) :
    fs.walk budget (.parent :: rest) loc = fs.walk budget rest loc.dropLast := by
  cases budget <;> simp [h]

theorem walk_name (h : fs.node loc = some .dir) (hn : fs.Real (loc ++ [n])) :
    fs.walk budget (.name n :: rest) loc = fs.walk budget rest (loc ++ [n]) := by
  rcases hn with hn | hn <;> cases budget <;> simp [h, hn]

theorem walk_name_missing (h : fs.node loc = some .dir) (hn : fs.node (loc ++ [n]) = none) :
    fs.walk budget (.name n :: rest) loc =
      if rest.isEmpty then .missing (loc ++ [n]) else .notFound := by
  cases budget <;> simp [h, hn]

theorem walk_name_link {t : Target N} (h : fs.node loc = some .dir)
    (hn : fs.node (loc ++ [n]) = some (.link t)) :
    fs.walk (budget + 1) (.name n :: rest) loc =
      fs.walk budget (t.comps ++ rest) (t.start loc) := by
  simp [h, hn]

theorem walk_zero_link {t : Target N} (h : fs.node loc = some .dir)
    (hn : fs.node (loc ++ [n]) = some (.link t)) :
    fs.walk 0 (.name n :: rest) loc = .tooManyLinks := by
  simp [h, hn]

theorem walk_notDirectory {c : Component N} (h : fs.node loc ≠ some .dir) :
    fs.walk budget (c :: rest) loc = .notDirectory := by
  cases hnode : fs.node loc with
  | none => cases budget <;> simp [hnode]
  | some node =>
    cases node with
    | dir => exact absurd hnode h
    | file => cases budget <;> simp [hnode]
    | link t => cases budget <;> simp [hnode]

end Steps

/-! ### Real locations -/

/-- What lies on the way to something that exists is a directory. -/
theorem dir_of_append {more : List N} (hmore : more ≠ [])
    (h : fs.node (loc ++ more) ≠ none) : fs.node loc = some .dir := by
  induction more using List.reverseRecOn with
  | nil => exact absurd rfl hmore
  | append_singleton more n ih =>
    rw [← List.append_assoc] at h
    have hdir := fs.parent _ n h
    by_cases hnil : more = []
    · simpa [hnil] using hdir
    · apply ih hnil
      rw [hdir]
      exact Option.some_ne_none _

theorem dir_dropLast (h : fs.node loc = some .dir) : fs.node loc.dropLast = some .dir := by
  rcases List.eq_nil_or_concat loc with rfl | ⟨front, n, rfl⟩
  · exact h
  · rw [List.concat_eq_append] at h ⊢
    rw [List.dropLast_concat]
    apply fs.parent front n
    rw [h]
    exact Option.some_ne_none _

theorem dir_start {t : Target N} (h : fs.node loc = some .dir) :
    fs.node (t.start loc) = some .dir := by
  unfold Target.start
  split
  · exact fs.root
  · exact h

/-- One step of a walk: on to a real location, to the target of a link, or the walk ends without
having found anything. -/
theorem walk_cons_cases (budget : ℕ) (hloc : fs.Real loc) (c : Component N) :
    (∃ loc', fs.Real loc' ∧ ∀ rest, fs.walk budget (c :: rest) loc = fs.walk budget rest loc') ∨
      (∃ (t : Target N) (left : ℕ), budget = left + 1 ∧ fs.Real (t.start loc) ∧
        ∀ rest, fs.walk budget (c :: rest) loc = fs.walk left (t.comps ++ rest) (t.start loc)) ∨
      ∀ rest l, fs.walk budget (c :: rest) loc ≠ .found l := by
  by_cases hdir : fs.node loc = some .dir
  · cases c with
    | cur => exact Or.inl ⟨loc, hloc, fun _ => walk_cur hdir⟩
    | parent => exact Or.inl ⟨_, Or.inl (dir_dropLast hdir), fun _ => walk_parent hdir⟩
    | name n =>
      cases hn : fs.node (loc ++ [n]) with
      | none =>
        refine Or.inr (Or.inr fun rest l => ?_)
        rw [walk_name_missing hdir hn]
        split <;> simp
      | some node =>
        cases node with
        | dir => exact Or.inl ⟨_, Or.inl hn, fun _ => walk_name hdir (Or.inl hn)⟩
        | file => exact Or.inl ⟨_, Or.inr hn, fun _ => walk_name hdir (Or.inr hn)⟩
        | link t =>
          cases budget with
          | zero =>
            refine Or.inr (Or.inr fun rest l => ?_)
            rw [walk_zero_link hdir hn]
            simp
          | succ left =>
            exact Or.inr (Or.inl ⟨t, left, rfl, Or.inl (dir_start hdir),
              fun _ => walk_name_link hdir hn⟩)
  · refine Or.inr (Or.inr fun rest l => ?_)
    rw [walk_notDirectory hdir]
    simp

/-- **The rule for walks that find something**: by steps, from the end of the components back; a
link spends one unit of the budget and puts its target in front. -/
theorem found_induction {P : ℕ → List (Component N) → List N → Prop} {l : List N}
    (nil : ∀ budget, fs.Real l → P budget [] l)
    (step : ∀ (budget : ℕ) (c : Component N) (rest : List (Component N)) (loc loc' : List N),
      (∀ more, fs.walk budget (c :: more) loc = fs.walk budget more loc') →
        P budget rest loc' → P budget (c :: rest) loc)
    (link : ∀ (left : ℕ) (c : Component N) (rest : List (Component N)) (loc : List N)
      (t : Target N), (∀ more, fs.walk (left + 1) (c :: more) loc =
        fs.walk left (t.comps ++ more) (t.start loc)) →
      P left (t.comps ++ rest) (t.start loc) → P (left + 1) (c :: rest) loc)
    {comps : List (Component N)} (hloc : fs.Real loc) (h : fs.walk budget comps loc = .found l) :
    P budget comps loc := by
  -- the target of a link may be longer than what is left, so the budget goes first
  induction budget using Nat.strong_induction_on generalizing comps loc with
  | h budget ihBudget =>
    induction comps generalizing loc with
    | nil =>
      rw [walk_nil] at h
      cases h
      exact nil budget hloc
    | cons c rest ih =>
      rcases walk_cons_cases budget hloc c with
        ⟨loc', hloc', heq⟩ | ⟨t, left, rfl, hstart, heq⟩ | hne
      · exact step budget c rest loc loc' heq (ih hloc' (heq rest ▸ h))
      · exact link left c rest loc t heq
          (ihBudget left (Nat.lt_succ_self _) hstart (heq rest ▸ h))
      · exact absurd h (hne rest l)

theorem walk_found {comps : List (Component N)} {l : List N} (hloc : fs.Real loc)
    (h : fs.walk budget comps loc = .found l) : fs.Real l := by
  refine found_induction (P := fun _ _ _ => fs.Real l) ?_ ?_ ?_ hloc h
  · exact fun _ hl => hl
  · exact fun _ _ _ _ _ _ hl => hl
  · exact fun _ _ _ _ _ _ hl => hl

/-- A walk that finds something goes on from there, with what is left of the budget. -/
theorem walk_append {comps : List (Component N)} {l : List N} (hloc : fs.Real loc)
    (h : fs.walk budget comps loc = .found l) :
    ∃ left, ∀ more, fs.walk budget (comps ++ more) loc = fs.walk left more l := by
  refine found_induction (P := fun budget comps loc =>
    ∃ left, ∀ more, fs.walk budget (comps ++ more) loc = fs.walk left more l) ?_ ?_ ?_ hloc h
  · exact fun budget _ => ⟨budget, fun _ => rfl⟩
  · rintro budget c rest loc loc' heq ⟨left, hleft⟩
    exact ⟨left, fun more => by rw [List.cons_append, heq, hleft]⟩
  · rintro left c rest loc t heq ⟨left', hleft⟩
    exact ⟨left', fun more => by rw [List.cons_append, heq, ← List.append_assoc, hleft]⟩

/-- A walk that finds something has found something wherever it was on its way. -/
theorem walk_found_of_append {comps more : List (Component N)} {l : List N} (hloc : fs.Real loc)
    (h : fs.walk budget (comps ++ more) loc = .found l) :
    ∃ l', fs.walk budget comps loc = .found l' := by
  refine found_induction (P := fun budget all loc =>
    ∀ comps, all = comps ++ more → ∃ l', fs.walk budget comps loc = .found l')
    ?_ ?_ ?_ hloc h comps rfl
  · intro budget _ comps hall
    obtain ⟨rfl, -⟩ := List.append_eq_nil_iff.1 hall.symm
    exact ⟨l, walk_nil⟩
  · intro budget c rest loc loc' heq ih comps hall
    cases comps with
    | nil => exact ⟨loc, walk_nil⟩
    | cons d comps =>
      obtain ⟨rfl, rfl⟩ := List.cons.inj hall
      rw [heq]
      exact ih comps rfl
  · intro left c rest loc t heq ih comps hall
    cases comps with
    | nil => exact ⟨loc, walk_nil⟩
    | cons d comps =>
      obtain ⟨rfl, rfl⟩ := List.cons.inj hall
      rw [heq]
      exact ih (t.comps ++ comps) (List.append_assoc ..).symm

/-- A walk whose last component is not a name ends in a directory. -/
theorem dir_of_walk {comps : List (Component N)} {c : Component N} {l : List N}
    (hloc : fs.Real loc) (hc : ∀ n, c ≠ .name n)
    (h : fs.walk budget (comps ++ [c]) loc = .found l) : fs.node l = some .dir := by
  obtain ⟨l', hl'⟩ := walk_found_of_append hloc h
  obtain ⟨left, hleft⟩ := walk_append hloc hl'
  rw [hleft] at h
  by_cases hdir : fs.node l' = some .dir
  · cases c with
    | cur =>
      rw [walk_cur hdir, walk_nil] at h
      cases h
      exact hdir
    | parent =>
      rw [walk_parent hdir, walk_nil] at h
      cases h
      exact dir_dropLast hdir
    | name n => exact absurd rfl (hc n)
  · rw [walk_notDirectory hdir] at h
    cases h

/-! ### Names -/

/-- A walk down real directories. -/
theorem walk_names {names : List N} (h : fs.node (loc ++ names) = some .dir) :
    fs.walk budget (names.map .name ++ rest) loc = fs.walk budget rest (loc ++ names) := by
  induction names generalizing loc with
  | nil => simp
  | cons n names ih =>
    have hsplit : loc ++ n :: names = (loc ++ [n]) ++ names := by simp
    have hdir : fs.node loc = some .dir := by
      apply dir_of_append (List.cons_ne_nil n names)
      rw [h]
      exact Option.some_ne_none _
    have hnext : fs.node (loc ++ [n]) = some .dir := by
      by_cases hnil : names = []
      · simpa [hnil] using h
      · apply dir_of_append hnil
        rw [← hsplit, h]
        exact Option.some_ne_none _
    rw [List.map_cons, List.cons_append, walk_name hdir (Or.inl hnext), hsplit]
    apply ih
    rw [← hsplit]
    exact h

/-- A walk down real directories that meets a link. -/
theorem walk_link {pre post : List N} {t : Target N} (hdir : fs.node (loc ++ pre) = some .dir)
    (hlink : fs.node (loc ++ pre ++ [n]) = some (.link t)) :
    fs.walk (budget + 1) ((pre ++ n :: post).map .name) loc =
      fs.walk budget (t.comps ++ post.map .name) (t.start (loc ++ pre)) := by
  rw [List.map_append, List.map_cons, walk_names hdir, walk_name_link hdir hlink]

/-- A walk of names ends where the names say, or goes on at the target of the first link met. -/
theorem location_walk_names {names : List N} {l : List N}
    (h : (fs.walk budget (names.map .name) loc).location? = some l) :
    l = loc ++ names ∨ ∃ (pre : List N) (n : N) (post : List N) (t : Target N) (left : ℕ),
      names = pre ++ n :: post ∧ budget = left + 1 ∧ fs.node (loc ++ pre) = some .dir ∧
        fs.node (loc ++ pre ++ [n]) = some (.link t) ∧
      (fs.walk left (t.comps ++ post.map .name) (t.start (loc ++ pre))).location? = some l := by
  induction names generalizing loc with
  | nil =>
    rw [List.map_nil, walk_nil] at h
    left
    simpa [Outcome.location?, eq_comm] using h
  | cons n names ih =>
    rw [List.map_cons] at h
    by_cases hdir : fs.node loc = some .dir
    · cases hn : fs.node (loc ++ [n]) with
      | none =>
        rw [walk_name_missing hdir hn] at h
        split at h
        · rename_i hnil
          have hnil' : names = [] := by simpa using hnil
          left
          simpa [Outcome.location?, hnil', eq_comm] using h
        · cases h
      | some node =>
        -- a real component is passed, a link is the first one met
        have hpass : fs.Real (loc ++ [n]) → l = loc ++ n :: names ∨
            ∃ (pre : List N) (n' : N) (post : List N) (t : Target N) (left : ℕ),
              n :: names = pre ++ n' :: post ∧ budget = left + 1 ∧
              fs.node (loc ++ pre) = some .dir ∧
              fs.node (loc ++ pre ++ [n']) = some (.link t) ∧
              (fs.walk left (t.comps ++ post.map .name) (t.start (loc ++ pre))).location? =
                some l := by
          intro hreal
          rw [walk_name hdir hreal] at h
          rcases ih h with rfl | ⟨pre, n', post, t, left, rfl, hbudget, hpre, hlink, hl⟩
          · exact Or.inl (by simp)
          · refine Or.inr ⟨n :: pre, n', post, t, left, rfl, hbudget, ?_⟩
            have hsplit : loc ++ n :: pre = (loc ++ [n]) ++ pre := by simp
            rw [hsplit]
            exact ⟨hpre, hlink, hl⟩
        cases node with
        | dir => exact hpass (Or.inl hn)
        | file => exact hpass (Or.inr hn)
        | link t =>
          cases budget with
          | zero =>
            rw [walk_zero_link hdir hn] at h
            cases h
          | succ left =>
            rw [walk_name_link hdir hn] at h
            refine Or.inr
              ⟨[], n, names, t, left, rfl, rfl, by simpa using hdir, by simpa using hn, ?_⟩
            simpa using h
    · rw [walk_notDirectory hdir] at h
      cases h

theorem walk_real (h : fs.Real loc) :
    fs.walk budget (loc.map .name ++ rest) [] = fs.walk budget rest loc := by
  rcases h with hdir | hfile
  · have hdir' : fs.node ([] ++ loc) = some .dir := hdir
    exact walk_names hdir'
  · rcases List.eq_nil_or_concat loc with rfl | ⟨front, n, rfl⟩
    · rw [fs.root] at hfile
      cases hfile
    · rw [List.concat_eq_append] at hfile ⊢
      have hfront : fs.node ([] ++ front) = some .dir := by
        apply fs.parent front n
        rw [hfile]
        exact Option.some_ne_none _
      rw [List.map_append, List.append_assoc, walk_names hfront]
      exact walk_name hfront (Or.inr hfile)

/-- Below the location `loc`, the names `tail` meet a link, and what the link leads to, with the
names behind it, lies outside `root`. -/
def LinkLeadsOut (fs : LinkTree N) (budget : ℕ) (root loc tail : List N) : Prop :=
  ∃ (pre : List N) (n : N) (post : List N) (t : Target N) (left : ℕ) (l : List N),
    tail = pre ++ n :: post ∧ budget = left + 1 ∧ fs.node (loc ++ pre) = some .dir ∧
    fs.node (loc ++ pre ++ [n]) = some (.link t) ∧
    (fs.walk left (t.comps ++ post.map .name) (t.start (loc ++ pre))).location? = some l ∧
    ¬ root <+: l

theorem not_linkLeadsOut_nil (budget : ℕ) (root loc : List N) :
    ¬ fs.LinkLeadsOut budget root loc [] := by
  rintro ⟨pre, n, post, -, -, -, hnil, -⟩
  cases pre <;> cases hnil

/-- Below a real location within `root`, only a link leads out of `root`. -/
theorem leadsOut_iff {root tail : List N} (hloc : fs.Real loc) (hroot : root <+: loc ++ tail) :
    (∃ l, (fs.walk budget ((loc ++ tail).map .name) []).location? = some l ∧ ¬ root <+: l) ↔
      fs.LinkLeadsOut budget root loc tail := by
  rw [List.map_append, walk_real hloc]
  constructor
  · rintro ⟨l, hl, hout⟩
    rcases location_walk_names hl with rfl | ⟨pre, n, post, t, left, rfl, hbudget, hpre, hlink, hl⟩
    · exact absurd hroot hout
    · exact ⟨pre, n, post, t, left, l, rfl, hbudget, hpre, hlink, hl, hout⟩
  · rintro ⟨pre, n, post, t, left, l, rfl, rfl, hpre, hlink, hl, hout⟩
    exact ⟨l, by rw [walk_link hpre hlink]; exact hl, hout⟩

end LinkTree
end FileTree
