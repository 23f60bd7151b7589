import Polint.Base.Text

/-!
# Paths of a repository

Paths from the root of a repository, without redundant segments.
-/

namespace Polint
namespace RepoFs

/-- The segments of a path without redundant ones.  There is no answer for a
path that climbs out. -/
def foldSegments (segments : List Text) : Option (List Text) :=
  segments.foldlM
    (fun parts segment =>
      if segment = [] ∨ segment = ['.'] then some parts
      else if segment = ['.', '.'] then
        if parts = [] then none else some parts.dropLast
      else some (parts ++ [segment])) []

/-- A path of segments. -/
def joinSegments (segments : List Text) : Text :=
  ['/'].intercalate segments

/-- A path without redundant segments, or a dot for the root. -/
def normalizeRepoRelative (path : Text) : Option Text :=
  (foldSegments ((path.map fun char =>
    if char = '\\' then '/' else char).splitOn '/')).map fun parts =>
      if parts = [] then ['.'] else joinSegments parts

end RepoFs
end Polint
