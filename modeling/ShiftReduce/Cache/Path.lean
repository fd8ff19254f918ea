/-!
# Paths

Paths are texts with parts between slashes. A path is shown as it was given. Which path it is, and
which are its parents, is told by its parts, of which empty ones and single dots do not count. One
who follows a path takes each of its steps, and a single dot is a step too.
-/

namespace ShiftReduce.Path

/-- Does the path begin at the root? -/
def isAbsolute (path : String) : Bool := path.toList.head? == some '/'

/-- The path of something inside a directory. A slash goes between them unless the directory ends
in one or is empty, and an absolute path inside stands for itself. -/
def join (directory inside : String) : String :=
  if isAbsolute inside || directory.isEmpty then inside
  else if directory.toList.getLast? == some '/' then directory ++ inside
  else directory ++ "/" ++ inside

/-- The pieces of a text between its slashes. -/
def pieces : List Char → List (List Char)
  | [] => [[]]
  | c :: rest =>
    if c = '/' then [] :: pieces rest
    else
      match pieces rest with
      | [] => [[c]]
      | piece :: more => (c :: piece) :: more

/-- The parts of a path that count. A single dot counts only at the beginning of a path that is not
absolute. -/
def parts (path : String) : List (List Char) :=
  match pieces path.toList with
  | [] => []
  | first :: rest =>
    (if first = [] then [] else [first]) ++
      rest.filter fun piece => piece != [] && piece != ['.']

/-- Do two paths have the same parts? -/
def same (a b : String) : Bool := isAbsolute a == isAbsolute b && parts a == parts b

/-- The steps on the way along a path. A single dot is a step on the spot. -/
def steps (path : String) : List (List Char) := (pieces path.toList).filter (· != [])

/-- The path of some parts. -/
def ofParts (absolute : Bool) (parts : List (List Char)) : String :=
  (if absolute then "/" else "") ++ "/".intercalate (parts.map String.ofList)

/-- The paths with some of the first parts of a path, the longest first. -/
def parents (path : String) : List String :=
  (List.range ((parts path).length - 1)).reverse.map fun n =>
    ofParts (isAbsolute path) ((parts path).take (n + 1))

end ShiftReduce.Path
