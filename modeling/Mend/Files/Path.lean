/-! Paths as texts, and the pieces between their slashes. -/
namespace Mend.Path

def isAbsolute (path : String) : Bool := path.toList.head? = some '/'

/-- The path `rest` taken from `base` on; an absolute path starts anew. -/
def join (base rest : String) : String :=
  if isAbsolute rest || base.isEmpty then rest
  else if base.toList.getLast? = some '/' then base ++ rest
  else base ++ "/" ++ rest

/-- The stretches of a text between the characters `c`. -/
def splitAt (c : Char) : List Char → List (List Char)
  | [] => [[]]
  | a :: cs =>
    if a = c then [] :: splitAt c cs
    else
      match splitAt c cs with
      | [] => [[a]]
      | s :: rest => (a :: s) :: rest

/-- The names between the slashes; empty ones and dots are kept. -/
def pieces (path : String) : List String := (splitAt '/' path.toList).map String.ofList

/-- The pieces that matter: all but empty ones and dots, save a dot at the very start. -/
def components (path : String) : List String :=
  match pieces path with
  | [] => []
  | first :: rest =>
    let rest := rest.filter fun p => p ≠ "" && p ≠ "."
    if first = "" then rest else first :: rest

/-- The last component, where it is the name of something. -/
def fileName? (path : String) : Option String :=
  (components path).getLast?.filter fun p => p ≠ "." && p ≠ ".."

/-- The components of the directory that `path` is in. -/
def parent (path : String) : List String := (components path).dropLast

/-- The directory that `path` is in, in the words of `path`. -/
def directory (path : String) : String :=
  let skip := List.dropWhile fun p => p = "" || p = "."
  match pieces path with
  | [] => "."
  | first :: rest =>
    match skip rest.reverse with
    | [] => "."
    | _ :: front =>
      if first = "" && (skip front).isEmpty then "/"
      else "/".intercalate (first :: (skip front).reverse)

end Mend.Path
