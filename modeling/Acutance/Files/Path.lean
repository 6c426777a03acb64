namespace Acutance.Path

/-- The names of a path in their order. Nothing stands for a place that is passed twice over: empty
names are left out. -/
def names (path : String) : List String :=
  ((path.toList.splitOn '/').map String.ofList).filter fun name => name ≠ ""

/-- The name of the file that a path leads to. A path that ends by going up leads to none. -/
def fileName? (path : String) : Option String :=
  match ((names path).filter fun name => name ≠ ".").getLast? with
  | none => none
  | some name => if name = ".." then none else some name

/-- What follows the last dot in the name of a file. A dot that opens the name does not count. -/
def extension? (path : String) : Option String := do
  let name ← fileName? path
  match (name.toList.splitOn '.').reverse with
  | last :: first :: rest =>
    if first = [] ∧ rest = [] then none else some (String.ofList last)
  | _ => none

end Acutance.Path
