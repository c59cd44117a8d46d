import RustyHand.Kernel.DeepMerge
import RustyHand.Lib.UnixPath

/-!
# Includes of the configuration

`resolve_config_includes` of `rusty-hand-kernel/src/config.rs`, over a tree of files with symbolic
links.  One set of visited files goes through the whole recursion, so a file that is reached a
second time counts as circular.

* `resolveConfigIncludes`;
* `meaning`: what a value comes to with its includes; `reached`: the files that are included;
* `WellNested`: includes that can be read, without cycles and not too deep;
* `resolveConfigIncludes_iff`: when they are resolved.
-/

namespace RustyHand
namespace Config

open UnixPath

/-- `MAX_INCLUDE_DEPTH`. -/
def maxIncludeDepth : ℕ := 10

/-- A disk: its tree, the contents of its files by their location, and the reading of TOML. -/
structure Disk where
  os : Os
  contents : List String → Except String String
  parse : String → Except String Document

/-- `std::fs::read_to_string`. -/
def Disk.readToString (disk : Disk) (path : Path) : Except String String :=
  match disk.os.resolve path with
  | .found loc => disk.contents loc
  | failure => .error (errorText failure)

/-- `v.as_str()`. -/
def Toml.asStr : Toml → Option String
  | .string s => some s
  | _ => none

/-- The `include` list of a value. -/
def includesOf : Toml → List String
  | .table entries =>
    match entries.lookup "include" with
    | some (.array arr) => arr.filterMap Toml.asStr
    | _ => []
  | _ => []

/-- `tbl.remove("include")`, where there is a table. -/
def withoutInclude : Toml → Toml
  | .table entries => .table (entries.filter fun e => e.1 ≠ "include")
  | v => v

/-- The checks of an include up to the set of visited files. -/
def locate (disk : Disk) (configDir : Path) (includePathStr : String) : Except String Path :=
  let includePath := Path.ofString includePathStr
  if includePath.absolute then
    .error ("Config include rejects absolute path: " ++ includePathStr)
  else if includePath.hasParentDir then
    .error ("Config include rejects path traversal: " ++ includePathStr)
  else
    match disk.os.canonicalize (configDir.join includePath) with
    | .error e => .error ("Config include '" ++ includePathStr ++ "' cannot be resolved: " ++ e)
    | .ok canonical =>
      match disk.os.canonicalize configDir with
      | .error e => .error ("Config dir cannot be canonicalized: " ++ e)
      | .ok canonicalDir =>
        if canonical.startsWith canonicalDir then .ok canonical
        else .error ("Config include '" ++ includePathStr ++ "' escapes config directory")

/-- The value of an included file. -/
def readInclude (disk : Disk) (includePathStr : String) (canonical : Path) :
    Except String Document :=
  match disk.readToString canonical with
  | .error e => .error ("Failed to read config include '" ++ includePathStr ++ "': " ++ e)
  | .ok contents =>
    match disk.parse contents with
    | .error e => .error ("Failed to parse config include '" ++ includePathStr ++ "': " ++ e)
    | .ok value => .ok value

/-- What a call returns, and what it leaves of the root value and of the visited files. -/
structure Resolution where
  result : Except String Unit
  root : Toml
  visited : List Path

/-- The includes of a file, in order: the base that they are merged to. -/
def includeLoop (disk : Disk) (resolve : Toml → Path → List Path → Resolution) (configDir : Path) :
    List String → Toml → List Path → Except String Toml × List Path
  | [], mergedBase, visited => (.ok mergedBase, visited)
  | includePathStr :: includes, mergedBase, visited =>
    match locate disk configDir includePathStr with
    | .error e => (.error e, visited)
    | .ok canonical =>
      if canonical ∈ visited then
        (.error ("Circular config include detected: " ++ includePathStr), visited)
      else
        match readInclude disk includePathStr canonical with
        | .error e => (.error e, canonical :: visited)
        | .ok value =>
          let r := resolve value.1 (canonical.parent.getD configDir) (canonical :: visited)
          match r.result with
          | .error e => (.error e, r.visited)
          | .ok () =>
            includeLoop disk resolve configDir includes
              (deepMerge mergedBase (withoutInclude r.root)) r.visited

/-- `resolve_config_includes`, by the levels that are left before it is too deep. -/
def resolveLevels (disk : Disk) : ℕ → Toml → Path → List Path → Resolution
  | 0, rootValue, _, visited =>
    ⟨.error ("Config include depth exceeded maximum of " ++ toString maxIncludeDepth), rootValue,
      visited⟩
  | levels + 1, rootValue, configDir, visited =>
    match includesOf rootValue with
    | [] => ⟨.ok (), rootValue, visited⟩
    | includePathStr :: includes =>
      match includeLoop disk (resolveLevels disk levels) configDir (includePathStr :: includes)
        (.table []) visited with
      | (.error e, visited) => ⟨.error e, rootValue, visited⟩
      | (.ok mergedBase, visited) =>
        ⟨.ok (), deepMerge mergedBase (withoutInclude rootValue), visited⟩

/-- `resolve_config_includes`. -/
def resolveConfigIncludes (disk : Disk) (rootValue : Toml) (configDir : Path)
    (visited : List Path) (depth : ℕ) : Resolution :=
  resolveLevels disk (maxIncludeDepth + 1 - depth) rootValue configDir visited

/-! ### What includes mean -/

/-- The file that an include stands for, and its value. -/
def included (disk : Disk) (configDir : Path) (includePathStr : String) :
    Option (Path × Document) :=
  match locate disk configDir includePathStr with
  | .error _ => none
  | .ok canonical =>
    match readInclude disk includePathStr canonical with
    | .error _ => none
    | .ok value => some (canonical, value)

/-- A value but for its includes. -/
def own (v : Toml) : View := shapeAt (withoutInclude v)

/-- What a value comes to: its own keys over its includes, the later over the earlier, each with its
own includes. -/
noncomputable def meaning (disk : Disk) : ℕ → Path → Toml → View
  | 0, _, v => own v
  | levels + 1, configDir, v =>
    (own v).over
      ((includesOf v).foldl (fun base s =>
        match included disk configDir s with
        | none => base
        | some (file, w) => (meaning disk levels (file.parent.getD configDir) w.1).over base)
        View.empty)

/-- The files that are included, once for each time. -/
def reached (disk : Disk) : ℕ → Path → Toml → List Path
  | 0, _, _ => []
  | levels + 1, configDir, v =>
    (includesOf v).flatMap fun s =>
      match included disk configDir s with
      | none => []
      | some (file, w) => file :: reached disk levels (file.parent.getD configDir) w.1

/-- Includes that can be read, within so many levels and without a cycle through the files that lead
to them. -/
def WellNested (disk : Disk) : ℕ → List Path → Path → Toml → Prop
  | 0, _, _, v => includesOf v = []
  | levels + 1, ancestors, configDir, v =>
    ∀ s ∈ includesOf v, ∃ e ∈ included disk configDir s, e.1 ∉ ancestors ∧
      WellNested disk levels (e.1 :: ancestors) (e.1.parent.getD configDir) e.2.1

instance decidableWellNested (disk : Disk) : ∀ (levels : ℕ) (ancestors : List Path)
    (configDir : Path) (v : Toml), Decidable (WellNested disk levels ancestors configDir v)
  | 0, _, _, v => inferInstanceAs (Decidable (includesOf v = []))
  | levels + 1, ancestors, configDir, v =>
    have := fun ancestors configDir v => decidableWellNested disk levels ancestors configDir v
    inferInstanceAs (Decidable (∀ s ∈ includesOf v, ∃ e ∈ included disk configDir s,
      e.1 ∉ ancestors ∧
        WellNested disk levels (e.1 :: ancestors) (e.1.parent.getD configDir) e.2.1))

/-! ### The key `include` -/

theorem lookup_filter_ne {α : Type} (entries : List (String × α)) {k : String}
    (hk : k ≠ "include") :
    (entries.filter fun e => e.1 ≠ "include").lookup k = entries.lookup k := by
  induction entries with
  | nil => rfl
  | cons e entries ih =>
    obtain ⟨k', v⟩ := e
    by_cases hk' : k' = "include"
    · subst hk'
      rw [List.filter_cons_of_neg (by simp), ih]
      simp [List.lookup_cons, beq_eq_false_iff_ne.2 hk]
    · rw [List.filter_cons_of_pos (by simpa using hk'), List.lookup_cons, List.lookup_cons, ih]

theorem lookup_filter_include {α : Type} (entries : List (String × α)) :
    (entries.filter fun e => e.1 ≠ "include").lookup "include" = none := by
  rw [List.lookup_eq_none_iff]
  intro e he
  rw [bne_iff_ne]
  exact fun h => (of_decide_eq_true (List.mem_filter.1 he).2) h.symm

/-- Nothing is under the key `include`. -/
def Hidden (view : View) : Prop := ∀ path, view ("include" :: path) = none

theorem own_include (v : Toml) : Hidden (own v) := by
  intro path
  cases v with
  | table entries =>
    rw [own, withoutInclude, shapeAt_cons, lookup_filter_include]
    rfl
  | _ => rfl

theorem own_cons (v : Toml) {k : String} (hk : k ≠ "include") (path : List String) :
    own v (k :: path) = shapeAt v (k :: path) := by
  cases v with
  | table entries => rw [own, withoutInclude, shapeAt_cons, lookup_filter_ne _ hk, shapeAt_cons]
  | _ => rfl

/-- A value whose view is hidden loses nothing with its includes. -/
theorem own_eq_of_hidden {v : Toml} (h : Hidden (shapeAt v)) : own v = shapeAt v := by
  funext path
  cases path with
  | nil => cases v <;> rfl
  | cons k path =>
    by_cases hk : k = "include"
    · subst hk
      rw [own_include, h]
    · exact own_cons v hk path

theorem Hidden.over {overlay base : View} (ho : Hidden overlay) (hb : Hidden base) :
    Hidden (overlay.over base) := by
  intro path
  rw [View.over, ho, hb, ite_self, Option.none_or]

theorem proper_withoutInclude {v : Toml} (h : Proper v) : Proper (withoutInclude v) := by
  cases v with
  | table entries =>
    obtain ⟨hnodup, hentries⟩ := h
    refine ⟨hnodup.sublist (List.filter_sublist.map _), ?_⟩
    clear hnodup
    induction entries with
    | nil => trivial
    | cons e entries ih =>
      rw [List.filter_cons]
      split_ifs
      · exact ⟨hentries.1, ih hentries.2⟩
      · exact ih hentries.2
  | _ => trivial

/-! ### Resolving -/

/-- The files are none of those that have been visited, and none of them comes twice. -/
def Fresh (visited files : List Path) : Prop := files.Nodup ∧ ∀ f ∈ files, f ∉ visited

theorem fresh_append {visited files files' : List Path} :
    Fresh visited (files ++ files') ↔
      Fresh visited files ∧ Fresh (files.reverse ++ visited) files' := by
  simp only [Fresh, List.nodup_append, List.mem_append, List.mem_reverse, not_or, or_imp,
    forall_and]
  constructor
  · rintro ⟨⟨h, h', hne⟩, hfiles, hfiles'⟩
    exact ⟨⟨h, hfiles⟩, h', fun f hf hmem => hne f hmem f hf rfl, hfiles'⟩
  · rintro ⟨⟨h, hfiles⟩, h', hdisjoint, hfiles'⟩
    refine ⟨⟨h, h', ?_⟩, hfiles, hfiles'⟩
    rintro f hf f' hf' rfl
    exact hdisjoint f hf' hf

theorem fresh_cons {visited files : List Path} {file : Path} :
    Fresh visited (file :: files) ↔ file ∉ visited ∧ Fresh (file :: visited) files := by
  have happend := @fresh_append visited [file] files
  rw [List.singleton_append, List.reverse_singleton, List.singleton_append] at happend
  rw [happend, Fresh]
  simp

theorem fresh_nil (visited : List Path) : Fresh visited [] := ⟨List.nodup_nil, by simp⟩

/-- A call comes to a view and to the files that are visited, if these are fresh. -/
structure ComesTo (visited files : List Path) (view : View) (r : Resolution) : Prop where
  fresh : Fresh visited files → r.result = .ok () ∧ r.visited = files.reverse ++ visited ∧
    own r.root = view ∧ Proper r.root
  stale : ¬ Fresh visited files → ∃ e, r.result = .error e

variable {disk : Disk}

theorem included_eq_some {configDir : Path} {s : String} {file : Path} {w : Document}
    (h : included disk configDir s = some (file, w)) :
    locate disk configDir s = .ok file ∧ readInclude disk s file = .ok w := by
  unfold included at h
  cases hlocate : locate disk configDir s with
  | error e =>
    rw [hlocate] at h
    exact nomatch h
  | ok canonical =>
    rw [hlocate] at h
    dsimp only at h
    cases hread : readInclude disk s canonical with
    | error e =>
      rw [hread] at h
      exact nomatch h
    | ok value =>
      rw [hread] at h
      obtain ⟨rfl, rfl⟩ := Prod.mk.inj (Option.some.inj h)
      exact ⟨rfl, hread⟩

/-- The files of some includes. -/
def filesOf (disk : Disk) (levels : ℕ) (configDir : Path) (includes : List String) : List Path :=
  includes.flatMap fun s =>
    match included disk configDir s with
    | none => []
    | some (file, w) => file :: reached disk levels (file.parent.getD configDir) w.1

/-- The view of some includes over a base. -/
noncomputable def baseOf (disk : Disk) (levels : ℕ) (configDir : Path) (includes : List String)
    (base : View) : View :=
  includes.foldl (fun base s =>
    match included disk configDir s with
    | none => base
    | some (file, w) => (meaning disk levels (file.parent.getD configDir) w.1).over base) base

theorem hidden_meaning (levels : ℕ) (configDir : Path) (v : Toml) :
    Hidden (meaning disk levels configDir v) := by
  induction levels generalizing configDir v with
  | zero => exact own_include v
  | succ levels ih =>
    have hbase : ∀ (includes : List String) (base : View), Hidden base →
        Hidden (baseOf disk levels configDir includes base) := by
      intro includes
      induction includes with
      | nil => exact fun base h => h
      | cons s includes ih' =>
        intro base h
        rw [baseOf, List.foldl_cons]
        refine ih' _ ?_
        cases included disk configDir s with
        | none => exact h
        | some e => exact (ih _ _).over h
    exact (own_include v).over (hbase _ _ fun path => rfl)

theorem filesOf_cons {levels : ℕ} {configDir : Path} {s : String} {includes : List String}
    {file : Path} {w : Document} (h : included disk configDir s = some (file, w)) :
    filesOf disk levels configDir (s :: includes) =
      (file :: reached disk levels (file.parent.getD configDir) w.1) ++
        filesOf disk levels configDir includes := by
  rw [filesOf, List.flatMap_cons, h]
  rfl

theorem baseOf_cons {levels : ℕ} {configDir : Path} {s : String} {includes : List String}
    {base : View} {file : Path} {w : Document}
    (h : included disk configDir s = some (file, w)) :
    baseOf disk levels configDir (s :: includes) base =
      baseOf disk levels configDir includes
        ((meaning disk levels (file.parent.getD configDir) w.1).over base) := by
  rw [baseOf, List.foldl_cons, h]
  rfl

/-- The loop, if calls for the included files come to what they mean. -/
theorem includeLoop_spec {resolve : Toml → Path → List Path → Resolution} {levels : ℕ}
    {configDir : Path} {includes : List String}
    (hincludes : ∀ s ∈ includes, ∃ file w, included disk configDir s = some (file, w) ∧
      ∀ visited, ComesTo visited (reached disk levels (file.parent.getD configDir) w.1)
        (meaning disk levels (file.parent.getD configDir) w.1)
        (resolve w.1 (file.parent.getD configDir) visited))
    {merged : Toml} (hmerged : Proper merged) (visited : List Path) :
    (Fresh visited (filesOf disk levels configDir includes) →
      ∃ merged', includeLoop disk resolve configDir includes merged visited =
          (.ok merged', (filesOf disk levels configDir includes).reverse ++ visited) ∧
        shapeAt merged' = baseOf disk levels configDir includes (shapeAt merged) ∧
        Proper merged') ∧
      (¬ Fresh visited (filesOf disk levels configDir includes) →
        ∃ e, (includeLoop disk resolve configDir includes merged visited).1 = .error e) := by
  induction includes generalizing merged visited with
  | nil => exact ⟨fun _ => ⟨merged, rfl, rfl, hmerged⟩, fun h => absurd (fresh_nil visited) h⟩
  | cons s includes ih =>
    obtain ⟨⟨file, w, hincluded, hresolve⟩, hincludes⟩ := List.forall_mem_cons.1 hincludes
    obtain ⟨hlocate, hread⟩ := included_eq_some hincluded
    rw [filesOf_cons hincluded, baseOf_cons hincluded, fresh_append, fresh_cons, includeLoop,
      hlocate]
    dsimp only
    by_cases hvisited : file ∈ visited
    · rw [if_pos hvisited]
      exact ⟨fun h => absurd hvisited h.1.1, fun _ => ⟨_, rfl⟩⟩
    · rw [if_neg hvisited, hread]
      dsimp only
      have hfile := hresolve (file :: visited)
      by_cases hfresh : Fresh (file :: visited)
          (reached disk levels (file.parent.getD configDir) w.1)
      · obtain ⟨hok, hvisited', hview, hproper⟩ := hfile.fresh hfresh
        have hproper' := proper_withoutInclude hproper
        obtain ⟨hrest, hstale⟩ := ih hincludes (proper_deepMerge hmerged hproper')
          ((file :: reached disk levels (file.parent.getD configDir) w.1).reverse ++ visited)
        have hrest' : (reached disk levels (file.parent.getD configDir) w.1).reverse ++
            file :: visited =
              (file :: reached disk levels (file.parent.getD configDir) w.1).reverse ++
                visited := by simp
        rw [hok, hvisited', hrest']
        dsimp only
        refine ⟨fun h => ?_, fun h => hstale fun h' => h ⟨⟨hvisited, hfresh⟩, h'⟩⟩
        obtain ⟨merged', hloop, hshape, hmerged'⟩ := hrest h.2
        refine ⟨merged', ?_, ?_, hmerged'⟩
        · rw [hloop, List.reverse_append, List.append_assoc]
        · rw [hshape, shapeAt_deepMerge hproper', ← hview]
          rfl
      · obtain ⟨e, he⟩ := hfile.stale hfresh
        rw [he]
        exact ⟨fun h => absurd h.1.2 hfresh, fun _ => ⟨e, rfl⟩⟩

/-- A call comes to what the value means. -/
theorem resolveLevels_spec {levels : ℕ} {ancestors : List Path} {configDir : Path} {v : Toml}
    (h : WellNested disk levels ancestors configDir v) (hv : Proper v) (visited : List Path) :
    ComesTo visited (reached disk levels configDir v) (meaning disk levels configDir v)
      (resolveLevels disk (levels + 1) v configDir visited) := by
  induction levels generalizing ancestors configDir v visited with
  | zero =>
    have hnone : includesOf v = [] := h
    rw [resolveLevels, hnone]
    exact ⟨fun _ => ⟨rfl, rfl, rfl, hv⟩, fun hstale => absurd (fresh_nil visited) hstale⟩
  | succ levels ih =>
    cases hincludes : includesOf v with
    | nil =>
      have hreached : reached disk (levels + 1) configDir v = [] := by
        rw [reached, hincludes]
        rfl
      have hmeaning : meaning disk (levels + 1) configDir v = own v := by
        rw [meaning, hincludes]
        exact over_empty _
      rw [resolveLevels, hincludes, hreached, hmeaning]
      exact ⟨fun _ => ⟨rfl, rfl, rfl, hv⟩, fun hstale => absurd (fresh_nil visited) hstale⟩
    | cons s includes =>
      have hreached : reached disk (levels + 1) configDir v =
          filesOf disk levels configDir (s :: includes) := by
        rw [reached, hincludes]
        rfl
      have hmeaning : meaning disk (levels + 1) configDir v =
          (own v).over (baseOf disk levels configDir (s :: includes) View.empty) := by
        rw [meaning, hincludes]
        rfl
      obtain ⟨hfresh, hstale⟩ := @includeLoop_spec disk (resolveLevels disk (levels + 1)) levels
        configDir (s :: includes) (fun s' hs' => by
          obtain ⟨⟨file, w⟩, hincluded, -, hnested⟩ := h s' (hincludes ▸ hs')
          exact ⟨file, w, hincluded, ih hnested w.2⟩)
        (.table []) ⟨List.nodup_nil, trivial⟩ visited
      rw [resolveLevels, hincludes]
      dsimp only
      constructor
      · intro hf
        obtain ⟨merged, hloop, hshape, hmerged⟩ := hfresh (hreached ▸ hf)
        rw [hloop]
        have hroot : shapeAt (deepMerge merged (withoutInclude v)) =
            meaning disk (levels + 1) configDir v := by
          have hempty : shapeAt (.table []) = View.empty := by
            funext path
            cases path <;> rfl
          rw [shapeAt_deepMerge (proper_withoutInclude hv), hshape, hmeaning, hempty]
          rfl
        refine ⟨rfl, by rw [hreached], ?_, proper_deepMerge hmerged (proper_withoutInclude hv)⟩
        rw [own_eq_of_hidden (hroot ▸ hidden_meaning _ _ _), hroot]
      · intro hf
        obtain ⟨e, he⟩ := hstale (hreached ▸ hf)
        rcases hloop : includeLoop disk (resolveLevels disk (levels + 1)) configDir
          (s :: includes) (.table []) visited with ⟨result, visited'⟩
        rw [hloop] at he
        obtain rfl := he
        exact ⟨e, rfl⟩

/-- The files that are included are none of those that lead to them. -/
theorem not_mem_ancestors {levels : ℕ} {ancestors : List Path} {configDir : Path} {v : Toml}
    (h : WellNested disk levels ancestors configDir v) :
    ∀ file ∈ reached disk levels configDir v, file ∉ ancestors := by
  induction levels generalizing ancestors configDir v with
  | zero => exact fun _ hmem => nomatch hmem
  | succ levels ih =>
    intro file hmem
    obtain ⟨s, hs, hfile⟩ := List.mem_flatMap.1 hmem
    obtain ⟨⟨file', w⟩, hincluded, hnew, hnested⟩ := h s hs
    rw [Option.mem_def.1 hincluded] at hfile
    rcases List.mem_cons.1 hfile with rfl | hfile
    · exact hnew
    · exact fun hin => ih hnested file hfile (List.mem_cons_of_mem _ hin)

/-! ### The configuration -/

/-- An error leaves the root value as it was. -/
theorem resolveConfigIncludes_error {root : Toml} {configDir : Path} {visited : List Path}
    {depth : ℕ} {e : String}
    (h : (resolveConfigIncludes disk root configDir visited depth).result = .error e) :
    (resolveConfigIncludes disk root configDir visited depth).root = root := by
  unfold resolveConfigIncludes at h ⊢
  cases hlevels : maxIncludeDepth + 1 - depth with
  | zero => rfl
  | succ levels =>
    rw [hlevels, resolveLevels] at h
    rw [resolveLevels]
    split at h
    · exact nomatch h
    · rename_i s includes hincludes
      split at h
      · rename_i hloop
        rfl
      · exact nomatch h

/-- Includes that are well nested are resolved, and what is at every path is what they mean, if and
only if no file is reached twice. -/
theorem resolveConfigIncludes_iff (disk : Disk) (root : Document) (configDir file : Path)
    (h : WellNested disk maxIncludeDepth [file] configDir root.1) :
    (((resolveConfigIncludes disk root.1 configDir [file] 0).result = .ok () ∧
          ∀ path, own (resolveConfigIncludes disk root.1 configDir [file] 0).root path =
            meaning disk maxIncludeDepth configDir root.1 path) ∧
        ∀ e, (resolveConfigIncludes disk root.1 configDir [file] 0).result = .error e →
          (resolveConfigIncludes disk root.1 configDir [file] 0).root = root.1) ↔
      (reached disk maxIncludeDepth configDir root.1).Nodup := by
  have hspec : ComesTo [file] _ _ (resolveConfigIncludes disk root.1 configDir [file] 0) :=
    resolveLevels_spec h root.2 [file]
  have hfresh : Fresh [file] (reached disk maxIncludeDepth configDir root.1) ↔
      (reached disk maxIncludeDepth configDir root.1).Nodup :=
    and_iff_left (not_mem_ancestors h)
  constructor
  · rintro ⟨⟨hok, -⟩, -⟩
    by_contra hstale
    obtain ⟨e, he⟩ := hspec.stale (mt hfresh.1 hstale)
    rw [he] at hok
    exact nomatch hok
  · intro hnodup
    obtain ⟨hok, -, hview, -⟩ := hspec.fresh (hfresh.2 hnodup)
    exact ⟨⟨hok, fun path => by rw [hview]⟩, fun e he => resolveConfigIncludes_error he⟩

section LoadValue

variable {configPath file : Path} {contents : String} {root : Document}

end LoadValue

section Diamond

/-- A directory with these files, which is the root of the tree. -/
def flat (names : List String) : FileTree.LinkTree String where
  node loc :=
    match loc with
    | [] => some .dir
    | [n] => if n ∈ names then some .file else none
    | _ => none
  root := rfl
  parent loc n h := by
    cases loc with
    | nil => rfl
    | cons m loc =>
      cases loc <;> exact absurd rfl h

/-- A configuration file: its name, its includes, and a key with a value. -/
structure Sample where
  name : String
  includes : List String
  key : String
  value : String
  other : key ≠ "include"

/-- The text of a file. -/
def Sample.text (sample : Sample) : String :=
  "include = [" ++ String.intercalate ", " (sample.includes.map fun s => "\"" ++ s ++ "\"") ++
    "]\n" ++ sample.key ++ " = \"" ++ sample.value ++ "\"\n"

/-- The value of a file. -/
def Sample.document (sample : Sample) : Document where
  val :=
    .table [("include", .array (sample.includes.map .string)), (sample.key, .string sample.value)]
  property := ⟨by simp [Ne.symm sample.other], trivial, trivial, trivial⟩

/-- A disk with these files. -/
def diskOf (samples : List Sample) : Disk where
  os := ⟨flat (samples.map Sample.name), [], rfl, 40⟩
  contents loc :=
    match samples.find? fun sample => [sample.name] = loc with
    | some sample => .ok sample.text
    | none => .error "No such file or directory (os error 2)"
  parse text :=
    match samples.find? fun sample => sample.text = text with
    | some sample => .ok sample.document
    | none => .error "expected a key"

/-- A file that includes two others. -/
def forked : Sample := ⟨"config.toml", ["a.toml", "b.toml"], "key", "config", by decide⟩

/-- The two files include nothing. -/
def fork : Disk :=
  diskOf [forked, ⟨"a.toml", [], "key", "a", by decide⟩, ⟨"b.toml", [], "key", "b", by decide⟩]

/-- The two files include the same one. -/
def diamond : Disk :=
  diskOf [forked, ⟨"a.toml", ["c.toml"], "key", "a", by decide⟩,
    ⟨"b.toml", ["c.toml"], "key", "b", by decide⟩, ⟨"c.toml", [], "key", "c", by decide⟩]

/-- The path of the root file. -/
def rootFile : Path := Path.ofLocation ["config.toml"]

/-- Two files that have nothing in common are merged. -/
theorem resolveConfigIncludes_fork :
    ((resolveConfigIncludes fork forked.document.1 (Path.ofLocation []) [rootFile] 0).result =
          .ok () ∧
        ∀ path, own (resolveConfigIncludes fork forked.document.1 (Path.ofLocation [])
          [rootFile] 0).root path =
            meaning fork maxIncludeDepth (Path.ofLocation []) forked.document.1 path) ∧
      ∀ e, (resolveConfigIncludes fork forked.document.1 (Path.ofLocation []) [rootFile] 0).result =
          .error e →
        (resolveConfigIncludes fork forked.document.1 (Path.ofLocation []) [rootFile] 0).root =
          forked.document.1 :=
  (resolveConfigIncludes_iff fork forked.document _ rootFile (by decide +kernel)).2
    (by decide +kernel)

/-- A file that two others include counts as circular. -/
theorem resolveConfigIncludes_diamond :
    ¬ ∀ (disk : Disk) (root : Document) (configDir file : Path),
      WellNested disk maxIncludeDepth [file] configDir root.1 →
      (resolveConfigIncludes disk root.1 configDir [file] 0).result = .ok () := by
  intro hall
  have hok := hall diamond forked.document (Path.ofLocation []) rootFile
    (by decide +kernel)
  revert hok
  decide +kernel

end Diamond

end Config
end RustyHand
