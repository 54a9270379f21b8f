/-!
# Paths

A path is a text whose names are separated by slashes. Empty names count for nothing, nor does the name of
the current folder, except that a relative path may begin with it.
-/

namespace AgentReply.Path

/-- A path below another one. The second one is relative. -/
def join (base name : String) : String :=
  if base.isEmpty || base.toList.getLast? = some '/' then base ++ name else s!"{base}/{name}"

/-- What stands before the names: the root, the current folder or nothing. -/
def start (path : String) : String :=
  if path.startsWith "/" then "/"
  else if path == "." || path.startsWith "./" then "."
  else ""

def isIdle (name : String) : Bool := name.isEmpty || name == "."

/-- Drops the last names as long as they count for nothing. -/
def withoutIdleEnd (names : List String) : List String :=
  (names.reverse.dropWhile isIdle).reverse

/-- The names up to the last one that counts. -/
def names (path : String) : List String :=
  withoutIdleEnd ((path.drop (start path).length).toString.splitOn "/")

/-- The path without its last name; `none` for the root and for the empty path. -/
def parent? (path : String) : Option String :=
  match (names path).reverse with
  | [] => if start path == "." then some "" else none
  | _ :: rest => some (start path ++ "/".intercalate (withoutIdleEnd rest.reverse))

/-- The last name, unless it is the one of the folder above. -/
def fileName? (path : String) : Option String :=
  (names path).getLast?.filter (· != "..")

/-- The start and the names that count. Two paths that agree in them are the same. -/
def parts (path : String) : List String :=
  [start path].filter (!·.isEmpty) ++ (names path).filter (!isIdle ·)

end AgentReply.Path
