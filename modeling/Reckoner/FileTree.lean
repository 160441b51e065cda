import Reckoner.Text.Path

/-!
# Files

The files that the interpreter can see, by their clean absolute names.  Relative names start at the
working folder.  A folder exists when something lies below it, when it has been made, or when the
working folder lies below it; the folders of devices and temporary files always exist.

Names are resolved part by part, so the first part that is missing, too long or no folder decides
what is wrong with a name.
-/

namespace Reckoner

/-- What is wrong with a file. -/
inductive FileFault where
  | absent
  | isFolder
  | notFolder
  | invalidName
  | nameTooLong
deriving DecidableEq, Repr

/-- The wording of a fault. -/
def FileFault.message : FileFault → String
  | .absent => "no such file or directory"
  | .isFolder => "is a directory"
  | .notFolder => "not a directory"
  | .invalidName => "invalid argument"
  | .nameTooLong => "file name too long"

/-- A step that failed on a file: opening, reading or making a folder. -/
structure FileError where
  step : String
  path : String
  fault : FileFault
deriving DecidableEq, Repr

/-- The wording of an error. -/
def FileError.message (e : FileError) : String :=
  e.step ++ " " ++ e.path ++ ": " ++ e.fault.message

/-- The files that can be seen. -/
structure FileTree where
  /-- The name of the working folder. -/
  root : String := "/work"
  /-- Contents by clean absolute name. -/
  files : List (String × String) := []
  /-- Folders that have been made, by clean absolute name. -/
  folders : List String := []
  /-- Files that have been created, by clean absolute name. -/
  created : List String := []
  /-- The working folder has an absolute name. -/
  rooted : Path.isAbsolute root = true := by rfl

/-- No files. -/
def FileTree.empty : FileTree := { rooted := rfl }

/-- No files, seen from a folder with an absolute name. -/
def FileTree.inFolder (folder : String) : FileTree :=
  match h : Path.isAbsolute folder with
  | true => { root := folder, rooted := h }
  | false => .empty

/-- What a name leads to. -/
inductive FileStatus where
  | file (content : String)
  | folder
  | fault (f : FileFault)

namespace FileTree

/-- The clean absolute name of a file. -/
def key (t : FileTree) (path : String) : String :=
  if Path.isAbsolute path then Path.clean path else Path.clean (t.root ++ "/" ++ path)

/-- A part below a clean absolute name. -/
def below (folder part : String) : String :=
  if folder = "/" then "/" ++ part else folder ++ "/" ++ part

/-- Whether a clean absolute name lies below another. -/
def liesBelow (name folder : String) : Bool :=
  if folder = "/" then name != "/" else (folder ++ "/").isPrefixOf name

/-- The names that exist whatever else does. -/
def fixedFolders : List String := ["/", "/dev", "/tmp"]

/-- Whether a clean absolute name is a folder. -/
def isFolder (t : FileTree) (name : String) : Bool :=
  let known := t.root :: (fixedFolders ++ t.folders)
  known.contains name || known.any (liesBelow · name) || t.files.any fun f => liesBelow f.1 name

/-- The content under a clean absolute name.  The null device is an empty file. -/
def content? (t : FileTree) (name : String) : Option String :=
  if name = "/dev/null" then some "" else t.files.lookup name

/-- The greatest number of bytes of a part and of a whole name. -/
def partLimit : Nat := 255
def nameLimit : Nat := 4095

/-- Follow parts from a folder that exists. -/
def walk (t : FileTree) : String → List String → FileStatus
  | _, [] => .folder
  | here, part :: rest =>
    if part.utf8ByteSize > partLimit then .fault .nameTooLong
    else
      let next := below here part
      if t.isFolder next then t.walk next rest
      else match t.content? next with
        | some content => if rest.isEmpty then .file content else .fault .notFolder
        | none => .fault .absent

/-- What a name leads to. -/
def status (t : FileTree) (path : String) : FileStatus :=
  if path.toList.contains (Char.ofNat 0) then .fault .invalidName
  else if path = "" then .fault .absent
  else if path.utf8ByteSize > nameLimit then .fault .nameTooLong
  else t.walk "/" (Path.parts (t.key path))

/-- Read a file. -/
def read (t : FileTree) (path : String) : Except FileError String :=
  match t.status path with
  | .file content => .ok content
  | .folder => .error ⟨"read", path, .isFolder⟩
  | .fault f => .error ⟨"open", path, f⟩

/-- Put a content under a clean absolute name. -/
def put (t : FileTree) (name content : String) : FileTree :=
  { t with files := (name, content) :: t.files.filter fun f => f.1 != name }

/-- Create a file, or empty it if it exists, and write it.  Only a file that was not there counts as
created. -/
def create (t : FileTree) (path content : String) : Except FileError FileTree :=
  let name := t.key path
  match t.status path with
  | .file _ => .ok (if name = "/dev/null" then t else t.put name content)
  | .folder => .error ⟨"open", path, .isFolder⟩
  | .fault .absent =>
    if path = "" then .error ⟨"open", path, .absent⟩
    else match t.walk "/" (Path.parts (Path.folderOf name)) with
      | .folder => .ok { t.put name content with created := t.created ++ [name] }
      | .file _ => .error ⟨"open", path, .notFolder⟩
      | .fault f => .error ⟨"open", path, f⟩
  | .fault f => .error ⟨"open", path, f⟩

/-- The names that a name passes through, each with a further part. -/
def ancestry (path : String) : List String :=
  let start := if Path.isAbsolute path then "/" else ""
  let grow (sofar : String × List String) (part : String) : String × List String :=
    let next := if sofar.1 = "" then part else if sofar.1 = "/" then "/" ++ part
      else sofar.1 ++ "/" ++ part
    (next, sofar.2 ++ [next])
  ((Path.parts path).foldl grow (start, [])).2

/-- Make a folder and every folder above it that is missing.  The error names the part that stands
in the way. -/
def makeFolder (t : FileTree) (path : String) : Except FileError FileTree :=
  (ancestry path).foldlM (fun t name =>
    match t.status name with
    | .folder => .ok t
    | .file _ => .error ⟨"mkdir", name, .notFolder⟩
    | .fault .absent => .ok { t with folders := t.folders ++ [t.key name] }
    | .fault f => .error ⟨"mkdir", name, f⟩) t

/-- A clean absolute name as seen from the working folder. -/
def relative (t : FileTree) (name : String) : String :=
  if liesBelow name t.root then
    String.ofList (name.toList.drop ((t.root.toList.length) + (if t.root = "/" then 0 else 1)))
  else name

/-- The created files with their contents, as seen from the working folder. -/
def createdFiles (t : FileTree) : List (String × String) :=
  t.created.filterMap fun name =>
    (t.files.lookup name).map fun content => (t.relative name, content)

/-- The files directly inside a folder, by their names in it. -/
def filesIn (t : FileTree) (path : String) : List (String × String) :=
  let folder := t.key path
  t.files.filterMap fun (name, content) =>
    if liesBelow name folder ∧ Path.folderOf name = folder then
      some (String.ofList (name.toList.reverse.takeWhile (· != '/')).reverse, content)
    else none

end FileTree

end Reckoner
