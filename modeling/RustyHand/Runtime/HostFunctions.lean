import RustyHand.Lib.UnixPath
import RustyHand.Types.Capability
import RustyHand.Types.Json

/-!
# The file functions of the WASM host

`rusty-hand-runtime/src/host_functions.rs`: `fs_read`, `fs_list` and `fs_write`, up to the path that
each of them hands to the operating system.  The capability check sees the path as the guest wrote
it; what is opened is the canonical path, or the file name below the canonical parent.

* `hostFsRead`, `hostFsList`, `hostFsWrite`;
* `Confined`: what is touched is granted under its canonical path;
* `ReadStrays`, `WriteStrays`: a granted path leads to a place that is not granted;
* `hostFs_confined_iff`.
-/

namespace RustyHand
namespace HostFunctions

open FileTree UnixPath

/-! ### The code -/

/-- The `error` of a response: a text, or the denial of a capability, "Capability denied: …". -/
inductive Refusal
  | text (error : String)
  | capabilityDenied (required : Capability)

/-- `check_capability`. -/
def checkCapability (capabilities : List Capability) (required : Capability) :
    Except Refusal Unit :=
  if capabilities.any fun granted => granted.capabilityMatches required then .ok ()
  else .error (.capabilityDenied required)

/-- The error of a path with a `..` component. -/
def traversalDenied : Refusal := .text "Path traversal denied: '..' components forbidden"

/-- `safe_resolve_path`. -/
def safeResolvePath (os : Os) (path : String) : Except Refusal Path :=
  if (Path.ofString path).hasParentDir then .error traversalDenied
  else
    (os.canonicalize (Path.ofString path)).mapError fun e => .text ("Cannot resolve path: " ++ e)

/-- Does the text contain two dots in a row? -/
def hasDots (name : String) : Bool := decide (['.', '.'] <:+: name.toList)

/-- `safe_resolve_parent`. -/
def safeResolveParent (os : Os) (path : String) : Except Refusal Path :=
  let p := Path.ofString path
  if p.hasParentDir then .error traversalDenied
  else
    match p.parent.filter fun parent => !parent.isEmpty with
    | none => .error (.text "Invalid path: no parent directory")
    | some parent =>
      match os.canonicalize parent with
      | .error e => .error (.text ("Cannot resolve parent directory: " ++ e))
      | .ok canonicalParent =>
        match p.fileName with
        | none => .error (.text "Invalid path: no file name")
        | some fileName =>
          if hasDots fileName then .error (.text "Path traversal denied in file name")
          else .ok (canonicalParent.join (Path.relative [.name fileName]))

/-- The `path` of a call. -/
def pathParam (params : Json) : Option String := (params.get "path").bind Json.asStr

/-- The `content` of a call. -/
def contentParam (params : Json) : Option String := (params.get "content").bind Json.asStr

/-- What the file functions share: the path parameter and the capability check, before the path is
resolved. -/
def checked (capability : String → Capability) (resolve : String → Except Refusal Path)
    (capabilities : List Capability) (params : Json) : Except Refusal Path :=
  match pathParam params with
  | none => .error (.text "Missing 'path' parameter")
  | some path =>
    match checkCapability capabilities (capability path) with
    | .error e => .error e
    | .ok () => resolve path

/-- `host_fs_read`, up to the path given to `read_to_string`. -/
def hostFsRead (os : Os) (capabilities : List Capability) (params : Json) : Except Refusal Path :=
  checked .fileRead (safeResolvePath os) capabilities params

/-- `host_fs_list`, up to the path given to `read_dir`. -/
def hostFsList (os : Os) (capabilities : List Capability) (params : Json) : Except Refusal Path :=
  checked .fileRead (safeResolvePath os) capabilities params

/-- `host_fs_write`, up to the path and the content given to `write`. -/
def hostFsWrite (os : Os) (capabilities : List Capability) (params : Json) :
    Except Refusal (Path × String) :=
  match pathParam params with
  | none => .error (.text "Missing 'path' parameter")
  | some _ =>
    match contentParam params with
    | none => .error (.text "Missing 'content' parameter")
    | some content =>
      (checked .fileWrite (safeResolveParent os) capabilities params).map fun path =>
          (path, content)

/-! ### What is asked of the code -/

/-- The text of the canonical path of a location. -/
def canonicalText (loc : List String) : String := "/" ++ "/".intercalate loc

/-- Some capability matches the required one. -/
def Granted (capabilities : List Capability) (required : Capability) : Prop :=
  ∃ granted ∈ capabilities, granted.capabilityMatches required = true

/-- What the operating system touches at the path, if the call is let through, is granted under its
canonical path. -/
def Confined (os : Os) (capabilities : List Capability) (capability : String → Capability)
    (result : Except Refusal Path) : Prop :=
  ∀ p, result = .ok p → ∀ loc, os.touches p = some loc →
    Granted capabilities (capability (canonicalText loc))

/-- A path to read, granted as it is written and free of `..`, leads to another place, through a
link or from the directory of the process, which is not granted. -/
def ReadStrays (os : Os) (capabilities : List Capability) (path : String) : Prop :=
  Granted capabilities (.fileRead path) ∧ (Path.ofString path).hasParentDir = false ∧
    ∃ loc, os.resolve (Path.ofString path) = .found loc ∧ canonicalText loc ≠ path ∧
      ¬ Granted capabilities (.fileRead (canonicalText loc))

/-- Where a file of the name would be written in the directory: there, or where a link of that name
leads. -/
def leaf (os : Os) (dir : List String) (fileName : String) : Option (List String) :=
  (os.tree.walk os.maxLinks [.name fileName] dir).location?

/-- A path to write, granted as it is written and free of `..`, has a parent that leads to a
directory where its file name stands for another place, which is not granted. -/
def WriteStrays (os : Os) (capabilities : List Capability) (path : String) : Prop :=
  Granted capabilities (.fileWrite path) ∧ (Path.ofString path).hasParentDir = false ∧
    ∃ parent fileName dir loc, (Path.ofString path).parent = some parent ∧
      os.resolve parent = .found dir ∧ (Path.ofString path).fileName = some fileName ∧
      hasDots fileName = false ∧ leaf os dir fileName = some loc ∧ canonicalText loc ≠ path ∧
      ¬ Granted capabilities (.fileWrite (canonicalText loc))

/-! ### What is let through -/

variable {os : Os} {capabilities : List Capability} {path : String} {p : Path}

theorem checkCapability_eq_ok {required : Capability} :
    checkCapability capabilities required = .ok () ↔ Granted capabilities required := by
  unfold checkCapability Granted
  rw [← List.any_eq_true]
  split_ifs with h <;> simp [h]

theorem safeResolvePath_eq_ok : safeResolvePath os path = .ok p ↔
    (Path.ofString path).hasParentDir = false ∧
      ∃ loc, os.resolve (Path.ofString path) = .found loc ∧ p = Path.ofLocation loc := by
  rw [safeResolvePath, ← Os.canonicalize_eq_ok_iff]
  cases (Path.ofString path).hasParentDir with
  | true => simp
  | false => cases os.canonicalize (Path.ofString path) <;> simp [Except.mapError]

theorem join_fileName (loc : List String) (fileName : String) :
    (Path.ofLocation loc).join (Path.relative [.name fileName]) =
      Path.ofLocation (loc ++ [fileName]) := by
  simp [Path.join, Path.ofLocation, Path.relative, Path.isEmpty]

theorem safeResolveParent_eq_ok : safeResolveParent os path = .ok p ↔
    (Path.ofString path).hasParentDir = false ∧
      ∃ parent fileName dir, (Path.ofString path).parent = some parent ∧
        os.resolve parent = .found dir ∧ (Path.ofString path).fileName = some fileName ∧
        hasDots fileName = false ∧ p = Path.ofLocation (dir ++ [fileName]) := by
  unfold safeResolveParent
  dsimp only
  constructor
  · intro h
    split_ifs at h with hdots
    split at h
    · cases h
    next parent hparent =>
    split at h
    · cases h
    next canonicalParent hcanonical =>
    split at h
    · cases h
    next fileName hname =>
    split_ifs at h with hname'
    cases h
    obtain ⟨dir, hdir, rfl⟩ := Os.canonicalize_eq_ok_iff.1 hcanonical
    refine ⟨by simpa using hdots, parent, fileName, dir, ?_, hdir, hname, by simpa using hname',
      join_fileName dir fileName⟩
    exact (Option.filter_eq_some_iff.1 hparent).1
  · rintro ⟨hdots, parent, fileName, dir, hparent, hdir, hname, hname', rfl⟩
    have hne := (Os.resolve_eq_found_iff.1 hdir).1
    have hfilter : (Path.ofString path).parent.filter (fun parent => !parent.isEmpty) =
        some parent := Option.filter_eq_some_iff.2 ⟨hparent, by simp [hne]⟩
    have hcanonical := Os.canonicalize_eq_ok_iff.2 ⟨dir, hdir, rfl⟩
    rw [hdots, hfilter]
    dsimp only
    rw [hcanonical]
    dsimp only
    rw [hname]
    simp [hname', join_fileName]

theorem checked_eq_ok {capability : String → Capability}
    {resolve : String → Except Refusal Path} {params : Json}
    (hpath : pathParam params = some path) :
    checked capability resolve capabilities params = .ok p ↔
      Granted capabilities (capability path) ∧ resolve path = .ok p := by
  rw [checked, hpath, ← checkCapability_eq_ok]
  dsimp only
  cases checkCapability capabilities (capability path) <;> simp

/-! ### What is touched -/

theorem touches_found {loc : List String} (h : os.resolve p = .found loc) :
    os.touches (Path.ofLocation loc) = some loc := by
  have hwalk :
      os.tree.walk os.maxLinks (loc.map .name ++ []) [] = os.tree.walk os.maxLinks [] loc :=
    LinkTree.walk_real (Os.real_of_resolve h)
  rw [List.append_nil, LinkTree.walk_nil] at hwalk
  rw [Os.touches_names, hwalk]
  rfl

theorem touches_leaf {dir : List String} (h : os.resolve p = .found dir) (fileName : String) :
    os.touches (Path.ofLocation (dir ++ [fileName])) = leaf os dir fileName := by
  rw [Os.touches_names, List.map_append, LinkTree.walk_real (Os.real_of_resolve h)]
  rfl

/-! ### When the functions confine -/

theorem confined_resolvePath_iff {params : Json} :
    Confined os capabilities .fileRead (checked .fileRead
        (safeResolvePath os) capabilities params) ↔
      ∀ path, pathParam params = some path → ¬ ReadStrays os capabilities path := by
  constructor
  · rintro hconfined path hpath ⟨hgranted, hdots, loc, hloc, -, hnot⟩
    have hok := (checked_eq_ok hpath).2 ⟨hgranted, safeResolvePath_eq_ok.2 ⟨hdots, loc, hloc, rfl⟩⟩
    exact hnot (hconfined _ hok loc (touches_found hloc))
  · intro hsafe p hp loc hloc
    cases hpath : pathParam params with
    | none =>
      rw [checked, hpath] at hp
      cases hp
    | some path =>
      obtain ⟨hgranted, hresolve⟩ := (checked_eq_ok hpath).1 hp
      obtain ⟨hdots, found, hfound, rfl⟩ := safeResolvePath_eq_ok.1 hresolve
      rw [touches_found hfound, Option.some.injEq] at hloc
      subst hloc
      by_contra hnot
      -- the canonical path is not the one that was written, since that one is granted
      refine hsafe path hpath ⟨hgranted, hdots, found, hfound, ?_, hnot⟩
      intro heq
      rw [heq] at hnot
      exact hnot hgranted

theorem hostFsWrite_eq_ok {params : Json} {content : String} :
    hostFsWrite os capabilities params = .ok (p, content) ↔ contentParam params = some content ∧
      ∃ path, pathParam params = some path ∧ Granted capabilities (.fileWrite path) ∧
        safeResolveParent os path = .ok p := by
  unfold hostFsWrite
  cases hpath : pathParam params with
  | none => simp
  | some path =>
    have hchecked : ∀ q, checked .fileWrite (safeResolveParent os) capabilities params = .ok q ↔
        Granted capabilities (.fileWrite path) ∧ safeResolveParent os path = .ok q :=
      fun q => checked_eq_ok hpath
    cases hcontent : contentParam params with
    | none => simp
    | some text =>
      dsimp only
      cases hresult : checked .fileWrite (safeResolveParent os) capabilities params with
      | error e =>
        have hnot :
            ¬ (Granted capabilities (.fileWrite path) ∧ safeResolveParent os path = .ok p) := by
          rw [← hchecked p, hresult]
          simp
        simp [Except.map, hnot]
      | ok q =>
        have hq := (hchecked q).1 hresult
        simp only [Except.map, Except.ok.injEq, Prod.mk.injEq, Option.some.injEq]
        constructor
        · rintro ⟨rfl, rfl⟩
          exact ⟨rfl, path, rfl, hq⟩
        · rintro ⟨rfl, _, rfl, -, hp⟩
          exact ⟨Except.ok.inj (hq.2.symm.trans hp), rfl⟩

theorem confined_hostFsWrite_iff {params : Json} :
    Confined os capabilities .fileWrite ((hostFsWrite os capabilities params).map Prod.fst) ↔
      ∀ path content, pathParam params = some path → contentParam params = some content →
        ¬ WriteStrays os capabilities path := by
  constructor
  · rintro hconfined path content hpath hcontent
      ⟨hgranted, hdots, parent, fileName, dir, loc, hparent, hdir, hname, hname', hleaf, -, hnot⟩
    have hresolve := safeResolveParent_eq_ok.2
      ⟨hdots, parent, fileName, dir, hparent, hdir, hname, hname', rfl⟩
    have hok := hostFsWrite_eq_ok.2 ⟨hcontent, path, hpath, hgranted, hresolve⟩
    refine hnot (hconfined (Path.ofLocation (dir ++ [fileName])) ?_ loc ?_)
    · rw [hok]
      rfl
    · rw [touches_leaf hdir]
      exact hleaf
  · intro hsafe p hp loc hloc
    cases hresult : hostFsWrite os capabilities params with
    | error e =>
      rw [hresult] at hp
      cases hp
    | ok written =>
      rw [hresult] at hp
      cases hp
      obtain ⟨hcontent, path, hpath, hgranted, hresolve⟩ := hostFsWrite_eq_ok.1 hresult
      obtain ⟨hdots, parent, fileName, dir, hparent, hdir, hname, hname', hwritten⟩ :=
        safeResolveParent_eq_ok.1 hresolve
      rw [hwritten, touches_leaf hdir] at hloc
      by_contra hnot
      refine hsafe path _ hpath hcontent ⟨hgranted, hdots, parent, fileName, dir, loc,
        hparent, hdir,
        hname, hname', hloc, ?_, hnot⟩
      intro heq
      rw [heq] at hnot
      exact hnot hgranted

/-- **When the file functions confine.**  What they touch is granted under its canonical path just
if no granted path leads to another place that is not. -/
theorem hostFs_confined_iff (os : Os) (capabilities : List Capability) (params : Json) :
    (Confined os capabilities .fileRead (hostFsRead os capabilities params) ↔
      ∀ path, pathParam params = some path → ¬ ReadStrays os capabilities path) ∧
    (Confined os capabilities .fileRead (hostFsList os capabilities params) ↔
      ∀ path, pathParam params = some path → ¬ ReadStrays os capabilities path) ∧
    (Confined os capabilities .fileWrite ((hostFsWrite os capabilities params).map Prod.fst) ↔
      ∀ path content, pathParam params = some path → contentParam params = some content →
        ¬ WriteStrays os capabilities path) :=
  ⟨confined_resolvePath_iff, confined_resolvePath_iff, confined_hostFsWrite_iff⟩

/-! ### What strays -/

/-- A directory of data with a link to the directory of configuration. -/
def linked : Os where
  tree := LinkTree.ofEntries [([], .dir), (["data"], .dir), (["etc"], .dir),
    (["etc", "passwd"], .file),
    (["data", "conf"], .link { absolute := true, comps := [.name "etc"] })]
    (by decide) (by decide)
  cwd := []
  cwd_dir := by decide
  maxLinks := 40

/-- A guest that may read the data reads what the link leads to. -/
theorem linked_escapes : ¬ ∀ (os : Os) (capabilities : List Capability) (params : Json),
    Confined os capabilities .fileRead (hostFsRead os capabilities params) ∧
      Confined os capabilities .fileRead (hostFsList os capabilities params) ∧
      Confined os capabilities .fileWrite ((hostFsWrite os capabilities params).map Prod.fst) := by
  intro hall
  have hpath : pathParam (.object [("path", .string "/data/conf/passwd")]) =
    some "/data/conf/passwd" := rfl
  have hparsed : Path.ofString "/data/conf/passwd" =
      Path.ofLocation ["data", "conf", "passwd"] := by
    decide
  have hresolve : safeResolvePath linked "/data/conf/passwd" =
      .ok (Path.ofLocation ["etc", "passwd"]) :=
    safeResolvePath_eq_ok.2 ⟨by rw [hparsed]; rfl, ["etc", "passwd"], by rw [hparsed]; decide, rfl⟩
  have hok : hostFsRead linked [.fileRead "/data/*"]
      (.object [("path", .string "/data/conf/passwd")]) = .ok (Path.ofLocation ["etc", "passwd"]) :=
    (checked_eq_ok hpath).2 ⟨⟨_, List.mem_cons_self, by decide⟩, hresolve⟩
  obtain ⟨granted, hmem, hmatches⟩ := (hall linked [.fileRead "/data/*"] _).1 _ hok
    ["etc", "passwd"] (by decide)
  rw [List.mem_singleton.1 hmem] at hmatches
  revert hmatches
  decide

end HostFunctions
end RustyHand
