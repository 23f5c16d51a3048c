/-
  From the asset paths of a project to the handles that a host loads.
-/
import VisualNovel.Project.Basic

namespace VisualNovel

namespace Path

/-- Whether a path starts at the root of the file system. -/
def isAbsolute (path : String) : Bool := path.toList.head? = some '/'

/-- A path below another one; an absolute path stands for itself. -/
def join (base path : String) : String :=
  if isAbsolute path then path
  else if base.isEmpty || base.toList.getLast? = some '/' then base ++ path
  else base ++ "/" ++ path

end Path

/-- How asset paths are resolved. -/
inductive Assets where
  /-- They stay as they are. -/
  | relative
  /-- They are taken below a directory. -/
  | under (root : String)
  deriving DecidableEq, Repr

namespace Assets

/-- The assets of a project, in the directory of its name below a root. -/
def ofProject (root : String) (p : Project) : Assets := under (Path.join root p.name)

/-- The handle of a path. -/
def resolve : Assets → String → String
  | relative, path => path
  | under root, path => Path.join root path

end Assets

end VisualNovel
