import RustyHand.Lib.UnixPath

/-!
# The workspace sandbox

`rusty-hand-runtime/src/workspace_sandbox.rs`: the resolution of the paths that an agent's file
tools are given, and when what they let through stays inside the workspace.
-/

namespace RustyHand
namespace WorkspaceSandbox

open FileTree UnixPath

/-! ### The code -/

/-- The error of a path with a `..` component. -/
def traversalDenied : String := "Path traversal denied: '..' components are forbidden"

/-- The error of a path that leads out of the workspace. -/
def accessDenied (userPath : String) : String :=
  "Access denied: path '" ++ userPath ++ "' resolves outside workspace"

/-- The candidate path: relative paths are taken below the workspace root. -/
def candidate (userPath : String) (workspaceRoot : Path) : Path :=
  let path := Path.ofString userPath
  if path.absolute then path else workspaceRoot.join path

/-- The canonical candidate, or the candidate below its canonical parent for new files. -/
def canonCandidate (os : Os) (candidate : Path) : Except String Path :=
  if os.fileExists candidate then
    (os.canonicalize candidate).mapError ("Failed to resolve path: " ++ ·)
  else
    match candidate.parent with
    | none => .error "Invalid path: no parent directory"
    | some parent =>
      match candidate.fileName with
      | none => .error "Invalid path: no filename"
      | some filename =>
        match os.canonicalize parent with
        | .error e => .error ("Failed to resolve parent directory: " ++ e)
        | .ok canonParent => .ok (canonParent.join (Path.relative [.name filename]))

/-- The deepest ancestor that exists on disk, the path itself included. -/
def deepestExisting (os : Os) (path : Path) : Option Path :=
  if os.fileExists path then some path
  else
    match _hparent : path.parent with
    | none => none
    | some parent => deepestExisting os parent
termination_by path.comps.length
decreasing_by
  unfold Path.parent at _hparent
  split at _hparent
  · cases _hparent
  · rename_i hne
    cases _hparent
    have hne' : path.comps ≠ [] := by simpa using hne
    have := List.length_pos_iff.2 hne'
    rw [List.length_dropLast]
    omega

/-- The canonical form of the deepest existing ancestor, with the rest of the candidate behind
it. -/
def canonExisting (os : Os) (candidate : Path) : Except String Path :=
  match deepestExisting os candidate with
  | none => .error "Invalid path: no existing ancestor"
  | some existing =>
    match os.canonicalize existing with
    | .error e => .error ("Failed to resolve path: " ++ e)
    | .ok canonExisting =>
      match candidate.stripBase existing with
      | none => .error "Invalid path: failed to derive non-existent tail"
      | some tail =>
        if tail.isEmpty then .ok canonExisting
        else .ok (canonExisting.join (Path.relative tail))

/-- What both resolvers share: the checks before and after the path is made canonical. -/
def checked (os : Os) (canonical : Path → Except String Path) (userPath : String)
    (workspaceRoot : Path) : Except String Path :=
  if (Path.ofString userPath).hasParentDir then .error traversalDenied
  else
    match os.canonicalize workspaceRoot with
    | .error e => .error ("Failed to resolve workspace root: " ++ e)
    | .ok canonRoot =>
      match canonical (candidate userPath workspaceRoot) with
      | .error e => .error e
      | .ok resolved =>
        if resolved.startsWith canonRoot then .ok resolved else .error (accessDenied userPath)

/-- `resolve_sandbox_path`. -/
def resolveSandboxPath (os : Os) (userPath : String) (workspaceRoot : Path) :
    Except String Path :=
  checked os (canonCandidate os) userPath workspaceRoot

/-- `resolve_sandbox_path_allow_missing`. -/
def resolveSandboxPathAllowMissing (os : Os) (userPath : String) (workspaceRoot : Path) :
    Except String Path :=
  checked os (canonExisting os) userPath workspaceRoot

/-! ### What is let through -/

variable {os : Os} {userPath : String} {workspaceRoot p : Path}

theorem startsWith_ofLocation {a b : List String} :
    (Path.ofLocation a).startsWith (Path.ofLocation b) = true ↔ b <+: a := by
  simp only [Path.startsWith, Path.ofLocation, decide_true, Bool.true_and,
    List.isPrefixOf_iff_prefix]
  exact List.prefix_map_iff_of_injective fun _ _ h => Component.name.inj h

theorem join_relative (loc names : List String) :
    (Path.ofLocation loc).join (Path.relative (names.map .name)) =
      Path.ofLocation (loc ++ names) := by
  simp [Path.join, Path.ofLocation, Path.relative, Path.isEmpty]

theorem checked_eq_ok_iff {canonical : Path → Except String Path} :
    checked os canonical userPath workspaceRoot = .ok p ↔
      (Path.ofString userPath).hasParentDir = false ∧
        canonical (candidate userPath workspaceRoot) = .ok p ∧
        ∃ root, os.resolve workspaceRoot = .found root ∧
          p.startsWith (Path.ofLocation root) = true := by
  unfold checked
  cases (Path.ofString userPath).hasParentDir with
  | true => simp
  | false =>
    cases hroot : os.canonicalize workspaceRoot with
    | error e =>
      simp only [Bool.false_eq_true, if_false, reduceCtorEq, true_and, false_iff, not_and,
        not_exists]
      intro _ root hfound
      have := Os.canonicalize_eq_ok_iff.2 ⟨root, hfound, rfl⟩
      rw [hroot] at this
      cases this
    | ok canonRoot =>
      obtain ⟨root, hfound, rfl⟩ := Os.canonicalize_eq_ok_iff.1 hroot
      cases canonical (candidate userPath workspaceRoot) with
      | error e => simp
      | ok resolved =>
        by_cases hin : resolved.startsWith (Path.ofLocation root) = true
        · simp only [Bool.false_eq_true, if_false, hin, if_true, true_and, hfound,
            Outcome.found.injEq, exists_eq_left']
          exact ⟨by rintro ⟨⟩; exact ⟨rfl, hin⟩, fun h => h.1⟩
        · simp only [Bool.false_eq_true, if_false, hin, reduceCtorEq, true_and, hfound,
            Outcome.found.injEq, exists_eq_left', false_iff, not_and]
          rintro ⟨⟩
          exact hin

/-- `resolve_sandbox_path` makes an existing candidate canonical, and otherwise puts the file name
behind the canonical parent. -/
theorem canonCandidate_cases {c : Path} (h : canonCandidate os c = .ok p) :
    (∃ loc, os.resolve c = .found loc ∧ p = Path.ofLocation loc) ∨
      os.fileExists c = false ∧ ∃ parent filename dir, c.parent = some parent ∧
        c.fileName = some filename ∧ os.resolve parent = .found dir ∧
        p = Path.ofLocation (dir ++ [filename]) := by
  unfold canonCandidate at h
  split at h
  · cases hc : os.canonicalize c with
    | error e =>
      rw [hc] at h
      cases h
    | ok canonical =>
      rw [hc] at h
      cases h
      exact Or.inl (Os.canonicalize_eq_ok_iff.1 hc)
  · rename_i hexists
    split at h
    · cases h
    rename_i parent hparent
    split at h
    · cases h
    rename_i filename hname
    split at h
    · cases h
    rename_i canonParent hcanon
    cases h
    obtain ⟨dir, hdir, rfl⟩ := Os.canonicalize_eq_ok_iff.1 hcanon
    exact Or.inr ⟨by simpa using hexists, parent, filename, dir, hparent, hname, hdir,
      join_relative dir [filename]⟩

theorem canonCandidate_new {c parent : Path} {filename : String} {dir : List String}
    (hexists : os.fileExists c = false) (hparent : c.parent = some parent)
    (hname : c.fileName = some filename) (hdir : os.resolve parent = .found dir) :
    canonCandidate os c = .ok (Path.ofLocation (dir ++ [filename])) := by
  have hcanon := Os.canonicalize_eq_ok_iff.2 ⟨dir, hdir, rfl⟩
  rw [canonCandidate, hexists, hparent, hname]
  simp only [Bool.false_eq_true, if_false, hcanon]
  exact congrArg Except.ok (join_relative dir [filename])

/-- `resolve_sandbox_path_allow_missing` puts the rest behind the canonical form of the deepest
existing ancestor. -/
theorem canonExisting_cases {c : Path} (h : canonExisting os c = .ok p) :
    ∃ existing dir tail, deepestExisting os c = some existing ∧
      os.resolve existing = .found dir ∧ c.stripBase existing = some tail ∧
      p = if tail.isEmpty then Path.ofLocation dir
        else (Path.ofLocation dir).join (Path.relative tail) := by
  unfold canonExisting at h
  split at h
  · cases h
  rename_i existing hexisting
  split at h
  · cases h
  rename_i canonical hcanon
  split at h
  · cases h
  rename_i tail htail
  obtain ⟨dir, hdir, rfl⟩ := Os.canonicalize_eq_ok_iff.1 hcanon
  refine ⟨existing, dir, tail, hexisting, hdir, htail, ?_⟩
  split at h
  · rename_i hnil
    cases h
    rw [if_pos hnil]
  · rename_i hnil
    cases h
    rw [if_neg hnil]

theorem canonExisting_eq_ok {c existing : Path} {dir names : List String}
    (hexisting : deepestExisting os c = some existing) (hdir : os.resolve existing = .found dir)
    (htail : c.stripBase existing = some (names.map .name)) :
    canonExisting os c = .ok (Path.ofLocation (dir ++ names)) := by
  have hcanon := Os.canonicalize_eq_ok_iff.2 ⟨dir, hdir, rfl⟩
  unfold canonExisting
  simp only [hexisting, hcanon, htail]
  cases names with
  | nil => simp
  | cons n names => exact congrArg Except.ok (join_relative dir (n :: names))

/-! ### The rest behind the deepest existing ancestor -/

theorem deepestExisting_cases (path : Path) {existing : Path}
    (h : deepestExisting os path = some existing) :
    os.fileExists existing = true ∧ (existing = path ∨ os.fileExists path = false ∧
      existing.absolute = path.absolute ∧ existing.comps <+: path.comps.dropLast ∧
      ∀ k, k < path.comps.length → os.fileExists (path.upTo k) = true →
        k ≤ existing.comps.length) := by
  induction path using deepestExisting.induct os with
  | case1 path hexists =>
    rw [deepestExisting, if_pos hexists] at h
    cases h
    exact ⟨hexists, Or.inl rfl⟩
  | case2 path hexists hparent =>
    rw [deepestExisting, if_neg hexists] at h
    split at h
    · cases h
    · rename_i parent heq
      rw [hparent] at heq
      cases heq
  | case3 path hexists parent hparent ih =>
    have hexists' : os.fileExists path = false := by simpa using hexists
    rw [deepestExisting, if_neg hexists] at h
    split at h
    · cases h
    rename_i parent' heq
    rw [hparent] at heq
    cases heq
    obtain ⟨hfound, hcases⟩ := ih h
    -- the parent is the path without its last component
    obtain ⟨hne, rfl⟩ : path.comps ≠ [] ∧
        parent = { path with comps := path.comps.dropLast, dirOnly := false } := by
      unfold Path.parent at hparent
      split at hparent
      · cases hparent
      · rename_i hne
        cases hparent
        exact ⟨by simpa using hne, rfl⟩
    refine ⟨hfound, Or.inr ⟨hexists', ?_⟩⟩
    rcases hcases with rfl | ⟨hmissing, habs, hprefix, hdeepest⟩
    · refine ⟨rfl, List.prefix_rfl, fun k hk _ => ?_⟩
      show k ≤ path.comps.dropLast.length
      rw [List.length_dropLast]
      omega
    · refine ⟨habs, hprefix.trans (List.dropLast_prefix _), fun k hk hkExists => ?_⟩
      have htake : ({ path with comps := path.comps.dropLast, dirOnly := false } : Path).upTo k =
          path.upTo k := by
        rw [Path.upTo, Path.upTo, List.dropLast_eq_take, List.take_take, min_eq_left (by omega)]
      by_cases hlast : k < path.comps.dropLast.length
      · exact hdeepest k hlast (by rw [htake]; exact hkExists)
      · -- the whole parent does not exist
        have hk' : k = path.comps.dropLast.length := by
          rw [List.length_dropLast] at hlast ⊢
          omega
        rw [← htake, hk', Path.upTo, List.take_length] at hkExists
        rw [hkExists] at hmissing
        cases hmissing

/-- The rest behind the deepest existing ancestor of a candidate has names only: the user path has
no other components, and the workspace root exists. -/
theorem tail_names {existing : Path} {tail : List (Component String)} {root : List String}
    (huser : (Path.ofString userPath).hasParentDir = false)
    (hroot : os.resolve workspaceRoot = .found root)
    (hexisting : deepestExisting os (candidate userPath workspaceRoot) = some existing)
    (htail : (candidate userPath workspaceRoot).stripBase existing = some tail) :
    ∃ names : List String, tail = names.map .name := by
  apply Component.exists_names
  intro comp hcomp
  have htail' : tail = (candidate userPath workspaceRoot).comps.drop existing.comps.length := by
    unfold Path.stripBase at htail
    split at htail <;> cases htail
    rfl
  rw [htail'] at hcomp
  -- a component of the user path is a name
  have hname : ∀ c ∈ (Path.ofString userPath).comps,
      (c ≠ .cur ∨ (Path.ofString userPath).absolute = true) → ∃ n, c = .name n := by
    intro c hc hcur
    refine (Path.mem_ofString hc hcur).resolve_left ?_
    rintro rfl
    have : (Path.ofString userPath).hasParentDir = true := by simpa [Path.hasParentDir] using hc
    rw [huser] at this
    cases this
  by_cases habs : (Path.ofString userPath).absolute = true
  · have hcandidate : candidate userPath workspaceRoot = Path.ofString userPath := by
      rw [candidate]
      exact if_pos habs
    rw [hcandidate] at hcomp
    exact hname comp (List.mem_of_mem_drop hcomp) (Or.inr habs)
  have hne := (Os.resolve_eq_found_iff.1 hroot).1
  have hcandidate : candidate userPath workspaceRoot =
      { absolute := workspaceRoot.absolute
        comps := workspaceRoot.comps ++ (Path.ofString userPath).comps.filter (· ≠ .cur)
        dirOnly := (Path.ofString userPath).dirOnly } := by
    simp [candidate, Path.join, habs, hne]
  obtain ⟨-, hcases⟩ := deepestExisting_cases _ hexisting
  rw [hcandidate] at hcomp hcases
  have huserName : comp ∈ (Path.ofString userPath).comps.filter (· ≠ .cur) →
      ∃ n, comp = .name n := by
    intro hmem
    rw [List.mem_filter] at hmem
    exact hname comp hmem.1 (Or.inl (by simpa using hmem.2))
  have hrootExists : os.fileExists workspaceRoot = true := Os.fileExists_iff.2 ⟨root, hroot⟩
  rcases hcases with rfl | ⟨hmissing, -, hprefix, hdeepest⟩
  · simp at hcomp
  generalize (Path.ofString userPath).comps.filter (· ≠ .cur) = below at *
  have hpositive : ∀ {k}, k ≠ 0 ∨ workspaceRoot.absolute = true →
      workspaceRoot.absolute = true ∨ 0 < k := fun h => h.symm.imp_right Nat.pos_of_ne_zero
  -- ancestors as deep as this exist, so that what is missing lies below
  have hdeep : ∀ k, k ≤ workspaceRoot.comps.length → k < (workspaceRoot.comps ++ below).length →
      k ≤ existing.comps.length := by
    intro k hk hlt
    by_cases hk' : k ≠ 0 ∨ workspaceRoot.absolute = true
    · refine hdeepest k hlt ?_
      have hupTo := Os.fileExists_upTo hrootExists (hpositive hk')
      rwa [Path.upTo, ← List.take_append_of_le_length hk] at hupTo
    · rw [not_or, not_not] at hk'
      omega
  by_cases hnil : below = []
  · -- the root is a file, and its last component is asked for
    subst hnil
    have hfile : os.tree.node root ≠ some .dir := by
      intro hdir
      refine Bool.false_ne_true (hmissing.symm.trans ?_)
      exact Os.fileExists_of_dir hroot hdir rfl (List.append_nil workspaceRoot.comps)
    rcases List.eq_nil_or_concat workspaceRoot.comps with hempty | ⟨front, c, hcomps⟩
    · rw [hempty] at hcomp
      simp at hcomp
    · rw [List.concat_eq_append] at hcomps
      obtain ⟨n, rfl⟩ := Os.last_name hroot hfile hcomps
      have hlen := hdeep front.length (by simp [hcomps]) (by simp [hcomps])
      rw [List.append_nil, hcomps, List.drop_append] at hcomp
      have hfront : front.drop existing.comps.length = [] := List.drop_eq_nil_iff.2 hlen
      rw [hfront, List.nil_append] at hcomp
      exact ⟨n, List.mem_singleton.1 (List.mem_of_mem_drop hcomp)⟩
  · have hlen := hdeep workspaceRoot.comps.length le_rfl (by
      simpa using List.length_pos_iff.2 hnil)
    rw [List.drop_append, List.drop_eq_nil_iff.2 hlen, List.nil_append] at hcomp
    exact huserName (List.mem_of_mem_drop hcomp)

/-! ### Confinement -/

/-- What is let through touches only locations under the canonical workspace root. -/
def Confined (os : Os) (workspaceRoot : Path) (result : Except String Path) : Prop :=
  ∀ p, result = .ok p → ∀ loc, os.touches p = some loc →
    ∃ root, os.resolve workspaceRoot = .found root ∧ root <+: loc

/-- A new file of the workspace, or what stands where no candidate was found, is a link that leads
out: the candidate is not found, and its file name is a link in the directory of its parent. -/
def LeafLeadsOut (os : Os) (userPath : String) (workspaceRoot : Path) : Prop :=
  (Path.ofString userPath).hasParentDir = false ∧
    os.fileExists (candidate userPath workspaceRoot) = false ∧
    ∃ root parent filename dir, os.resolve workspaceRoot = .found root ∧
      (candidate userPath workspaceRoot).parent = some parent ∧
      (candidate userPath workspaceRoot).fileName = some filename ∧
      os.resolve parent = .found dir ∧ root <+: dir ++ [filename] ∧
      os.tree.LinkLeadsOut os.maxLinks root dir [filename]

/-- A link that leads out stands in the rest of the candidate behind its deepest existing
ancestor. -/
def TailLeadsOut (os : Os) (userPath : String) (workspaceRoot : Path) : Prop :=
  (Path.ofString userPath).hasParentDir = false ∧
    ∃ root existing dir names, os.resolve workspaceRoot = .found root ∧
      deepestExisting os (candidate userPath workspaceRoot) = some existing ∧
      os.resolve existing = .found dir ∧
      (candidate userPath workspaceRoot).stripBase existing = some (names.map .name) ∧
      root <+: dir ++ names ∧ os.tree.LinkLeadsOut os.maxLinks root dir names

theorem Confined.isPrefix {result : Except String Path} (h : Confined os workspaceRoot result)
    {root loc : List String} (hroot : os.resolve workspaceRoot = .found root)
    (hok : result = .ok p) (hloc : os.touches p = some loc) : root <+: loc := by
  obtain ⟨root', hroot', hprefix⟩ := h p hok loc hloc
  rw [hroot] at hroot'
  cases hroot'
  exact hprefix

theorem confined_location_iff {root dir names : List String} (hdir : os.tree.Real dir)
    (hin : root <+: dir ++ names) :
    (∀ loc, os.touches (Path.ofLocation (dir ++ names)) = some loc → root <+: loc) ↔
      ¬ os.tree.LinkLeadsOut os.maxLinks root dir names := by
  rw [← LinkTree.leadsOut_iff hdir hin, Os.touches_names]
  push Not
  rfl

theorem resolveSandboxPath_confined_iff (os : Os) (userPath : String) (workspaceRoot : Path) :
    Confined os workspaceRoot (resolveSandboxPath os userPath workspaceRoot) ↔
      ¬ LeafLeadsOut os userPath workspaceRoot := by
  constructor
  · rintro hconfined ⟨huser, hexists, root, parent, filename, dir, hroot, hparent, hname, hdir, hin,
      hlink⟩
    have hok : resolveSandboxPath os userPath workspaceRoot =
        .ok (Path.ofLocation (dir ++ [filename])) :=
      checked_eq_ok_iff.2 ⟨huser, canonCandidate_new hexists hparent hname hdir, root, hroot,
        startsWith_ofLocation.2 hin⟩
    refine (confined_location_iff (Os.real_of_resolve hdir) hin).1 (fun loc hloc => ?_) hlink
    exact hconfined.isPrefix hroot hok hloc
  · intro hsafe p hp loc hloc
    obtain ⟨huser, hcanon, root, hroot, hin⟩ := checked_eq_ok_iff.1 hp
    refine ⟨root, hroot, ?_⟩
    rcases canonCandidate_cases hcanon with ⟨found, hfound, rfl⟩ |
      ⟨hexists, parent, filename, dir, hparent, hname, hdir, rfl⟩
    · have hin' : root <+: found ++ [] := by simpa using startsWith_ofLocation.1 hin
      refine (confined_location_iff (Os.real_of_resolve hfound) hin').2
        (LinkTree.not_linkLeadsOut_nil _ _ _) loc ?_
      simpa using hloc
    · have hin' := startsWith_ofLocation.1 hin
      refine (confined_location_iff (Os.real_of_resolve hdir) hin').2 (fun hlink => ?_) loc hloc
      exact hsafe ⟨huser, hexists, root, parent, filename, dir, hroot, hparent, hname, hdir, hin',
        hlink⟩

theorem resolveSandboxPathAllowMissing_confined_iff (os : Os) (userPath : String)
    (workspaceRoot : Path) :
    Confined os workspaceRoot (resolveSandboxPathAllowMissing os userPath workspaceRoot) ↔
      ¬ TailLeadsOut os userPath workspaceRoot := by
  constructor
  · rintro hconfined ⟨huser, root, existing, dir, names, hroot, hexisting, hdir, htail, hin, hlink⟩
    have hok : resolveSandboxPathAllowMissing os userPath workspaceRoot =
        .ok (Path.ofLocation (dir ++ names)) :=
      checked_eq_ok_iff.2 ⟨huser, canonExisting_eq_ok hexisting hdir htail, root, hroot,
        startsWith_ofLocation.2 hin⟩
    refine (confined_location_iff (Os.real_of_resolve hdir) hin).1 (fun loc hloc => ?_) hlink
    exact hconfined.isPrefix hroot hok hloc
  · intro hsafe p hp loc hloc
    obtain ⟨huser, hcanon, root, hroot, hin⟩ := checked_eq_ok_iff.1 hp
    refine ⟨root, hroot, ?_⟩
    obtain ⟨existing, dir, tail, hexisting, hdir, htail, -⟩ := canonExisting_cases hcanon
    obtain ⟨names, rfl⟩ := tail_names huser hroot hexisting htail
    obtain rfl : Path.ofLocation (dir ++ names) = p :=
      Except.ok.inj ((canonExisting_eq_ok hexisting hdir htail).symm.trans hcanon)
    have hin' := startsWith_ofLocation.1 hin
    refine (confined_location_iff (Os.real_of_resolve hdir) hin').2 (fun hlink => ?_) loc hloc
    exact hsafe ⟨huser, root, existing, dir, names, hroot, hexisting, hdir, htail, hin', hlink⟩

/-- **When the sandbox confines.**  What the two resolvers let through stays inside the workspace
exactly when no link that leads out stands in the part that they put, unresolved, behind a canonical
path. -/
theorem sandbox_confined_iff (os : Os) (userPath : String) (workspaceRoot : Path) :
    (Confined os workspaceRoot (resolveSandboxPath os userPath workspaceRoot) ↔
      ¬ LeafLeadsOut os userPath workspaceRoot) ∧
    (Confined os workspaceRoot (resolveSandboxPathAllowMissing os userPath workspaceRoot) ↔
      ¬ TailLeadsOut os userPath workspaceRoot) :=
  ⟨resolveSandboxPath_confined_iff os userPath workspaceRoot,
    resolveSandboxPathAllowMissing_confined_iff os userPath workspaceRoot⟩

/-- A workspace with a link to a file that does not exist yet, outside of the workspace. -/
def dangling : Os where
  tree := LinkTree.ofEntries [([], .dir), (["ws"], .dir), (["etc"], .dir),
    (["ws", "note"], .link { absolute := true, comps := [.name "etc", .name "new"] })]
    (by decide) (by decide)
  cwd := []
  cwd_dir := by decide
  maxLinks := 40

/-- A new file is created through a link that leads out of the workspace. -/
theorem dangling_escapes : ¬ ∀ (os : Os) (userPath : String) (workspaceRoot : Path),
    Confined os workspaceRoot (resolveSandboxPath os userPath workspaceRoot) ∧
      Confined os workspaceRoot (resolveSandboxPathAllowMissing os userPath workspaceRoot) := by
  intro hall
  have hok : resolveSandboxPath dangling "note" (Path.ofLocation ["ws"]) =
      .ok (Path.ofLocation ["ws", "note"]) := by decide
  obtain ⟨root, hroot, hprefix⟩ := (hall dangling "note" (Path.ofLocation ["ws"])).1 _ hok
    ["etc", "new"] (by decide)
  have hws : dangling.resolve (Path.ofLocation ["ws"]) = .found ["ws"] := by decide
  rw [hws] at hroot
  cases hroot
  revert hprefix
  decide

end WorkspaceSandbox
end RustyHand
