/-!
# Names of files

Names are divided by slashes.  `clean` is purely lexical: it drops empty parts and single dots, lets
a double dot cancel the part before it, and keeps leading double dots of a relative name.  The empty
name cleans to a single dot.
-/

namespace Reckoner.Path

/-- Whether a name starts at the root. -/
def isAbsolute (path : String) : Bool := path.toList.head? == some '/'

/-- The parts of a name that are not empty. -/
def parts (path : String) : List String :=
  ((path.toList.splitOn '/').map String.ofList).filter (· != "")

/-- Add a part to the parts before it, which are kept latest first. -/
def addPart (rooted : Bool) (before : List String) (part : String) : List String :=
  if part = "." then before
  else if part = ".." then
    match before with
    | [] => if rooted then [] else [".."]
    | last :: earlier => if last = ".." then ".." :: before else earlier
  else part :: before

/-- The shortest name that is lexically the same. -/
def clean (path : String) : String :=
  let rooted := isAbsolute path
  let kept := ((parts path).foldl (addPart rooted) []).reverse
  let body := String.intercalate "/" kept
  if rooted then "/" ++ body
  else if body = "" then "."
  else body

/-- A name below a folder.  Nothing is added for an empty folder. -/
def join (folder name : String) : String :=
  if folder = "" then (if name = "" then "" else clean name)
  else clean (folder ++ "/" ++ name)

/-- The folder of a name. -/
def folderOf (path : String) : String :=
  let chars := path.toList.reverse.dropWhile (· != '/')
  clean (String.ofList chars.reverse)

/-- A name as it is if it is absolute, otherwise below a folder. -/
def resolve (folder name : String) : String :=
  if isAbsolute name then name else join folder name

end Reckoner.Path
