/-
# Paths

A path is a text whose parts are separated by slashes.  The functions here work on the text alone:
whether anything has that path is a matter of the disk (`HamScript.Files.Disk`).
-/

namespace HamScript.Files

/-- The pieces of a text between slashes; a text without a slash is one piece. -/
def pieces : List Char → List (List Char)
  | [] => [[]]
  | c :: cs =>
    match pieces cs with
    | [] => [[c]]
    | p :: ps => if c = '/' then [] :: p :: ps else (c :: p) :: ps

/-- The parts of a path, empty ones included. -/
def parts (path : String) : List String :=
  (pieces path.toList).map String.ofList

/-- Whether a path starts at the top of the disk. -/
def isRooted (path : String) : Bool :=
  path.toList.head? == some '/'

/-! ## The shortest spelling of a path -/

/-- Adds a part to the parts so far, the last one first.  A step up takes the last part away; where
there is none it stays in front, and at the top of the disk it means nothing. -/
def stepPart (rooted : Bool) (done : List String) (part : String) : List String :=
  if part = "" ∨ part = "." then done
  else if part = ".." then
    match done with
    | [] => if rooted then [] else [".."]
    | last :: rest => if last = ".." then ".." :: last :: rest else rest
  else part :: done

/-- The parts that are left when empty parts, `.` and `..` have been worked in. -/
def cleanParts (path : String) : List String :=
  ((parts path).foldl (stepPart (isRooted path)) []).reverse

/-- The shortest path that means the same by its text. -/
def clean (path : String) : String :=
  let body := "/".intercalate (cleanParts path)
  if isRooted path then "/" ++ body
  else if body = "" then "."
  else body

/-- The path of `name` seen from the directory `dir`.  An empty side is left out. -/
def join (dir name : String) : String :=
  if dir = "" then (if name = "" then "" else clean name)
  else if name = "" then clean dir
  else clean (dir ++ "/" ++ name)

/-! ## Parts of a path -/

/-- The last part of a path. -/
def lastPart (path : String) : String :=
  (parts path).getLast?.getD ""

/-- The directory that a path lies in: all up to the last slash, in its shortest spelling. -/
def parent (path : String) : String :=
  clean ("/".intercalate ((parts path).dropLast ++ [""]))

/-- The end of a path from the last dot of its last part on; empty without a dot. -/
def extension (path : String) : String :=
  let back := (lastPart path).toList.reverse
  if back.contains '.' then
    String.ofList ((back.takeWhile (· ≠ '.')).reverse.cons '.')
  else ""

end HamScript.Files
