import RustyHand.Lib.FileTree

/-!
# Path strings on Unix

The paths of the standard library (`std::path`) and what the operating system does with them.  A
path is kept as its components, without repeated separators and inner `.` components, which neither
reads; only whether the text ends as that of a directory (`a/`, `a/.`) makes a difference.
-/

namespace UnixPath

open FileTree

/-- A path.  A component `.` occurs in front of a relative path only. -/
structure Path where
  absolute : Bool
  comps : List (Component String)
  dirOnly : Bool
  deriving DecidableEq

/-- The component that stands for a piece between separators, if any. -/
def component? (piece : String) : Option (Component String) :=
  if piece = "" ∨ piece = "." then none
  else if piece = ".." then some .parent
  else some (.name piece)

namespace Path

/-- `Path::new`. -/
def ofString (s : String) : Path :=
  let pieces := (s.toList.splitOn '/').map String.ofList
  let absolute := decide (s.toList.head? = some '/')
  let body := if absolute then pieces.tail else pieces
  let lead := if !absolute && decide (body.head? = some ".") then [Component.cur] else []
  { absolute := absolute
    comps := lead ++ body.filterMap component?
    dirOnly := decide (body.getLast? = some "") || decide (body.getLast? = some ".") }

theorem component?_ne_cur {piece : String} : component? piece ≠ some .cur := by
  unfold component?
  split_ifs <;> simp

/-- A component of a parsed path is `..` or a name, but for a `.` in front of a relative path. -/
theorem mem_ofString {s : String} {c : Component String} (hc : c ∈ (ofString s).comps)
    (hcur : c ≠ .cur ∨ (ofString s).absolute = true) : c = .parent ∨ ∃ n, c = .name n := by
  have hne : c ≠ .cur := by
    rcases hcur with hcur | habs
    · exact hcur
    · rintro rfl
      dsimp only [ofString] at hc habs
      rw [habs] at hc
      simp [component?_ne_cur] at hc
  cases c with
  | cur => exact absurd rfl hne
  | parent => exact Or.inl rfl
  | name n => exact Or.inr ⟨n, rfl⟩

/-- The path of a location. -/
def ofLocation (loc : List String) : Path :=
  { absolute := true, comps := loc.map .name, dirOnly := false }

/-- The relative path of some components. -/
def relative (comps : List (Component String)) : Path :=
  { absolute := false, comps := comps, dirOnly := false }

/-- Is it the path of the empty string? -/
def isEmpty (p : Path) : Bool := decide (p.absolute = false ∧ p.comps = [])

/-- Has the path a component `..`? -/
def hasParentDir (p : Path) : Bool := p.comps.contains .parent

/-- `Path::join`. -/
def join (p q : Path) : Path :=
  if q.absolute || p.isEmpty then q
  else
    { absolute := p.absolute
      comps := p.comps ++ q.comps.filter (· ≠ .cur)
      dirOnly := q.dirOnly }

/-- `Path::parent`. -/
def parent (p : Path) : Option Path :=
  if p.comps.isEmpty then none else some { p with comps := p.comps.dropLast, dirOnly := false }

/-- The path up to some component. -/
def upTo (p : Path) (k : ℕ) : Path := { p with comps := p.comps.take k, dirOnly := false }

/-- `Path::file_name`. -/
def fileName (p : Path) : Option String :=
  match p.comps.getLast? with
  | some (.name n) => some n
  | _ => none

/-- `Path::starts_with`. -/
def startsWith (p base : Path) : Bool :=
  decide (p.absolute = base.absolute) && base.comps.isPrefixOf p.comps

/-- `Path::strip_prefix`: the components behind a path in front. -/
def stripBase (p base : Path) : Option (List (Component String)) :=
  if p.startsWith base then some (p.comps.drop base.comps.length) else none

end Path

/-- An operating system: a tree, the directory of the process, and the number of links that a path
may go through. -/
structure Os where
  tree : LinkTree String
  cwd : List String
  cwd_dir : tree.node cwd = some .dir
  maxLinks : ℕ

/-- The text of an error of the operating system. -/
def errorText : Outcome String → String
  | .notDirectory => "Not a directory (os error 20)"
  | .tooManyLinks => "Too many levels of symbolic links (os error 40)"
  | _ => "No such file or directory (os error 2)"

namespace Os

variable (os : Os)

/-- Where the walk of a path starts. -/
def start (p : Path) : List String := if p.absolute then [] else os.cwd

/-- Where a path leads. -/
def resolve (p : Path) : Outcome String :=
  if p.isEmpty then .notFound
  else os.tree.walk os.maxLinks (p.comps ++ if p.dirOnly then [.cur] else []) (os.start p)

/-- `Path::exists`. -/
def fileExists (p : Path) : Bool :=
  match os.resolve p with
  | .found _ => true
  | _ => false

/-- `Path::canonicalize`. -/
def canonicalize (p : Path) : Except String Path :=
  match os.resolve p with
  | .found loc => .ok (Path.ofLocation loc)
  | failure => .error (errorText failure)

/-- The location that is touched when the file at a path is read, or created and written. -/
def touches (p : Path) : Option (List String) := (os.resolve p).location?

variable {os} {p q : Path}

theorem fileExists_iff : os.fileExists p = true ↔ ∃ loc, os.resolve p = .found loc := by
  unfold fileExists
  split
  · rename_i loc h
    simp [h]
  · rename_i h
    simpa using h

theorem canonicalize_eq_ok_iff : os.canonicalize p = .ok q ↔
    ∃ loc, os.resolve p = .found loc ∧ q = Path.ofLocation loc := by
  unfold canonicalize
  split
  · rename_i loc h
    simp [h, eq_comm]
  · rename_i h
    simp only [reduceCtorEq, false_iff, not_exists, not_and]
    exact fun loc hloc => absurd hloc (h loc)

theorem real_start (p : Path) : os.tree.Real (os.start p) := by
  unfold start
  split
  · exact Or.inl os.tree.root
  · exact Or.inl os.cwd_dir

theorem resolve_eq_found_iff {loc : List String} : os.resolve p = .found loc ↔
    p.isEmpty = false ∧ os.tree.walk os.maxLinks (p.comps ++ if p.dirOnly then [.cur] else [])
      (os.start p) = .found loc := by
  unfold resolve
  cases p.isEmpty <;> simp

theorem real_of_resolve {loc : List String} (h : os.resolve p = .found loc) :
    os.tree.Real loc :=
  LinkTree.walk_found (real_start p) (resolve_eq_found_iff.1 h).2

theorem touches_names (names : List String) : os.touches (Path.ofLocation names) =
    (os.tree.walk os.maxLinks (names.map .name) []).location? := by
  simp [touches, resolve, Path.ofLocation, Path.isEmpty, start]

/-- What leads to something leads to something also up to each of its components. -/
theorem fileExists_upTo {k : ℕ} (h : os.fileExists p = true) (hk : p.absolute = true ∨ 0 < k) :
    os.fileExists (p.upTo k) = true := by
  obtain ⟨loc, hloc⟩ := fileExists_iff.1 h
  obtain ⟨hne, hwalk⟩ := resolve_eq_found_iff.1 hloc
  obtain ⟨l, hl⟩ := LinkTree.walk_found_of_append (real_start p) hwalk
  rw [← List.take_append_drop k p.comps] at hl
  obtain ⟨l', hl'⟩ := LinkTree.walk_found_of_append (real_start p) hl
  refine fileExists_iff.2 ⟨l', resolve_eq_found_iff.2 ⟨?_, ?_⟩⟩
  · simp only [Path.isEmpty, Path.upTo, decide_eq_false_iff_not, not_and, List.take_eq_nil_iff,
      not_or] at hne ⊢
    intro habs
    refine ⟨?_, hne habs⟩
    rcases hk with hk | hk
    · rw [habs] at hk
      cases hk
    · exact hk.ne'
  · have hcomps : ((p.upTo k).comps ++ if (p.upTo k).dirOnly then [.cur] else []) =
        p.comps.take k := List.append_nil _
    rw [hcomps]
    exact hl'

/-- A path that leads to a directory leads there however its text ends. -/
theorem fileExists_of_dir {loc : List String} (h : os.resolve p = .found loc)
    (hdir : os.tree.node loc = some .dir) (habs : q.absolute = p.absolute)
    (hcomps : q.comps = p.comps) : os.fileExists q = true := by
  obtain ⟨hne, hwalk⟩ := resolve_eq_found_iff.1 h
  obtain ⟨l, hl⟩ := LinkTree.walk_found_of_append (real_start p) hwalk
  obtain ⟨left, hleft⟩ := LinkTree.walk_append (real_start p) hl
  have hstart : os.start q = os.start p := by rw [start, start, habs]
  have hl' : os.tree.node l = some .dir := by
    rw [hleft] at hwalk
    split at hwalk
    · by_cases hnode : os.tree.node l = some .dir
      · exact hnode
      · rw [LinkTree.walk_notDirectory hnode] at hwalk
        cases hwalk
    · rw [LinkTree.walk_nil] at hwalk
      cases hwalk
      exact hdir
  refine fileExists_iff.2 ⟨l, resolve_eq_found_iff.2 ⟨?_, ?_⟩⟩
  · rw [Path.isEmpty, habs, hcomps]
    exact hne
  · rw [hcomps, hstart, hleft]
    split
    · rw [LinkTree.walk_cur hl', LinkTree.walk_nil]
    · exact LinkTree.walk_nil

/-- A path that does not lead to a directory has a name as its last component. -/
theorem last_name {loc : List String} (h : os.resolve p = .found loc)
    (hfile : os.tree.node loc ≠ some .dir) {front : List (Component String)}
    {c : Component String} (hcomps : p.comps = front ++ [c]) : ∃ n, c = .name n := by
  obtain ⟨-, hwalk⟩ := resolve_eq_found_iff.1 h
  by_contra hc
  rw [not_exists] at hc
  split at hwalk
  · exact hfile (LinkTree.dir_of_walk (real_start p) (by simp) hwalk)
  · rw [List.append_nil, hcomps] at hwalk
    exact hfile (LinkTree.dir_of_walk (real_start p) hc hwalk)

end Os
end UnixPath
