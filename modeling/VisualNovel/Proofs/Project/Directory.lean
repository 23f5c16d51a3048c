/-
  Where the assets of a project lie.  A path is read component by component: an absolute one
  begins with the root, and what is empty or a single dot between its separators says nothing.

  * `Path.components` reads a path, and `Path.components_join` is the law of joining: the
    components of both paths, or those of the second one if it is absolute;
  * `Path.Stays`: components that never climb out of where they start, `Path.Inside`: a path
    that begins with a directory and stays in it;
  * `Assets.resolve_inside_iff`: which assets lie in the directory of their project, and
    `Assets.resolve_strays`: not all do.
-/
import Mathlib.Data.List.Infix
import VisualNovel.Project.Assets

namespace VisualNovel

namespace Path

/-! ## Components -/

/-- A component of a path. -/
inductive Component where
  /-- The root of the file system. -/
  | root
  /-- The directory that holds what was reached so far. -/
  | parent
  | name (s : List Char)
  deriving DecidableEq

def Component.isName : Component → Bool
  | name _ => true
  | _ => false

/-- What stands between two separators, as a component. -/
def component? (piece : List Char) : Option Component :=
  if piece = [] ∨ piece = ['.'] then none
  else if piece = ['.', '.'] then some .parent
  else some (.name piece)

/-- The components between the separators of a path. -/
def pieces (cs : List Char) : List Component := (cs.splitOn '/').filterMap component?

/-- The components of a path. -/
def components (path : String) : List Component :=
  (if isAbsolute path then [.root] else []) ++ pieces path.toList

theorem root_not_mem_pieces (cs : List Char) : Component.root ∉ pieces cs := by
  intro h
  obtain ⟨piece, -, hpiece⟩ := List.mem_filterMap.1 h
  unfold component? at hpiece
  split at hpiece
  · cases hpiece
  · split at hpiece <;> cases hpiece

theorem pieces_append (as bs : List Char) : pieces (as ++ '/' :: bs) = pieces as ++ pieces bs := by
  rw [pieces, List.splitOn_append_cons_self, List.filterMap_append]
  rfl

theorem components_of_absolute {path : String} (h : isAbsolute path = true) :
    components path = .root :: pieces path.toList := by
  rw [components, if_pos h]
  rfl

theorem components_of_relative {path : String} (h : ¬isAbsolute path = true) :
    components path = pieces path.toList := by
  rw [components, if_neg h]
  rfl

/-- Nothing comes before an absolute path: the root of the file system is its first component, and
    what follows has none. -/
theorem eq_nil_of_root_first {name path : String} (hname : isAbsolute name = true)
    (hpath : ¬isAbsolute path = true) {before rest : List Component}
    (h : components name ++ components path = before ++ components name ++ rest) :
    before = [] := by
  cases before with
  | nil => rfl
  | cons c cs =>
    exfalso
    rw [components_of_absolute hname, components_of_relative hpath] at h
    have htail := congrArg List.tail h
    simp only [List.cons_append, List.tail_cons] at htail
    have hmem : Component.root ∈ pieces name.toList ++ pieces path.toList := by
      rw [htail]
      simp
    rcases List.mem_append.1 hmem with hmem | hmem
    · exact root_not_mem_pieces _ hmem
    · exact root_not_mem_pieces _ hmem

/-! ## Joining -/

/-- What begins with a path is absolute if the path is. -/
theorem isAbsolute_append {base : String} (h : base.toList ≠ []) (rest : String) :
    isAbsolute (base ++ rest) = isAbsolute base := by
  rw [isAbsolute, isAbsolute, String.toList_append, List.head?_append_of_ne_nil _ h]

/-- A path below another one has the components of both, unless it is absolute: then it has its
    own only. -/
theorem components_join (base path : String) :
    components (join base path) =
      if isAbsolute path then components path else components base ++ components path := by
  unfold join
  split
  · rfl
  rename_i hpath
  rw [components_of_relative hpath]
  split
  · rename_i hends
    rw [Bool.or_eq_true, String.isEmpty_iff, decide_eq_true_eq] at hends
    rcases hends with rfl | hends
    · rw [String.empty_append, components_of_relative hpath]
      rfl
    · -- The separator is there already.
      obtain ⟨cs, hcs⟩ := List.getLast?_eq_some_iff.1 hends
      have hne : base.toList ≠ [] := by simp [hcs]
      have hbase : pieces base.toList = pieces cs := by
        rw [hcs, pieces_append]
        exact List.append_nil _
      have hwhole : pieces (base ++ path).toList = pieces cs ++ pieces path.toList := by
        rw [String.toList_append, hcs, List.append_assoc]
        exact pieces_append cs path.toList
      rw [components, isAbsolute_append hne, hwhole, components, hbase, List.append_assoc]
  · rename_i hends
    have hne : base.toList ≠ [] := by
      intro hnil
      simp [String.toList_eq_nil_iff.1 hnil] at hends
    have hwhole : pieces (base ++ ("/" ++ path)).toList =
        pieces base.toList ++ pieces path.toList := by
      rw [String.toList_append, String.toList_append]
      exact pieces_append base.toList path.toList
    rw [String.append_assoc, components, isAbsolute_append hne, hwhole, components,
      List.append_assoc]

/-! ## Directories -/

/-- Components that never climb out of where they start: at no point have there been more ways
    up than names. -/
def Stays (cs : List Component) : Prop :=
  ∀ walk ∈ cs.inits, walk.count .parent ≤ walk.countP Component.isName

/-- A path that begins with the components of a directory and does not climb out of it. -/
def Inside (dir : List Component) (path : String) : Prop :=
  ∃ rest, components path = dir ++ rest ∧ Stays rest

instance (cs : List Component) : Decidable (Stays cs) :=
  inferInstanceAs (Decidable (∀ walk ∈ cs.inits, _))

instance (dir : List Component) (path : String) : Decidable (Inside dir path) :=
  decidable_of_iff (dir <+: components path ∧ Stays ((components path).drop dir.length)) <| by
    constructor
    · rintro ⟨⟨rest, hrest⟩, hstays⟩
      refine ⟨rest, hrest.symm, ?_⟩
      rwa [← hrest, List.drop_left] at hstays
    · rintro ⟨rest, hrest, hstays⟩
      refine ⟨⟨rest, hrest.symm⟩, ?_⟩
      rwa [hrest, List.drop_left]

end Path

namespace Assets

open VisualNovel.Path

/-- The handle of a path begins with the directory of the project, which is the root of all
    projects followed by the name of this one, and stays in it exactly if the path is relative
    and never climbs, and the name does not lead elsewhere; or if the path is absolute and lies
    in the directory by itself. -/
theorem resolve_inside_iff (root : String) (p : Project) (path : String) :
    Inside (components root ++ components p.name) ((ofProject root p).resolve path) ↔
      if isAbsolute path then Inside (components root ++ components p.name) path
      else (isAbsolute p.name = true → components root = []) ∧ Stays (components path) := by
  have hhandle : components ((ofProject root p).resolve path) =
      if isAbsolute path then components path
      else components (join root p.name) ++ components path := components_join ..
  unfold Inside
  rw [hhandle]
  by_cases hpath : isAbsolute path = true
  · simp only [if_pos hpath]
  simp only [if_neg hpath, components_join]
  by_cases hname : isAbsolute p.name = true
  · rw [if_pos hname]
    constructor
    · rintro ⟨rest, hrest, hstays⟩
      have hroot := eq_nil_of_root_first hname hpath hrest
      rw [hroot, List.nil_append] at hrest
      refine ⟨fun _ => hroot, ?_⟩
      rwa [List.append_cancel_left hrest]
    · rintro ⟨hroot, hstays⟩
      exact ⟨components path, by rw [hroot hname, List.nil_append], hstays⟩
  · rw [if_neg hname]
    constructor
    · rintro ⟨rest, hrest, hstays⟩
      refine ⟨fun h => absurd h hname, ?_⟩
      rwa [List.append_cancel_left hrest]
    · rintro ⟨-, hstays⟩
      exact ⟨components path, rfl, hstays⟩

/-- An absolute path leads out of the directory of the project, and so does one that climbs. -/
theorem resolve_strays :
    let p : Project := { name := "demo" }
    ¬Inside (components "/games" ++ components p.name)
      ((ofProject "/games" p).resolve "/covers/front.png") ∧
    ¬Inside (components "/games" ++ components p.name)
      ((ofProject "/games" p).resolve "../vault/key.png") := by
  decide

end Assets

end VisualNovel
