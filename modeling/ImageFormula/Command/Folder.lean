/-! The files that commands read and write, and the paths that lead to them.

A path goes through the parts between its slashes, from the folder on. What lies outside the folder
is not known, apart from the folders on the way to it. -/

namespace ImageFormula

/-- Why a file cannot be read. -/
inductive FileError where
  | notFound
  /-- A path goes on after a file. -/
  | notFolder
  /-- A path ends at a folder. -/
  | isFolder
  | nameTooLong
  deriving DecidableEq, Repr

namespace FileError

/-- The number that the system gives to it. -/
def code : FileError → Nat
  | notFound => 2
  | notFolder => 20
  | isFolder => 21
  | nameTooLong => 36

/-- The error of a number. -/
def ofCode? (number : Nat) : Option FileError :=
  [notFound, notFolder, isFolder, nameTooLong].find? fun error => error.code == number

/-- What the system says of it. -/
def reason (error : FileError) : String :=
  let words := match error with
    | notFound => "No such file or directory"
    | notFolder => "Not a directory"
    | isFolder => "Is a directory"
    | nameTooLong => "File name too long"
  words ++ " (os error " ++ toString error.code ++ ")"

end FileError

/-- Files by their names, each with its contents. -/
structure Folder where
  files : List (String × String)
  deriving DecidableEq, Repr

namespace Folder

def empty : Folder := ⟨[]⟩

/-- The contents of the file of a name. -/
def get? (folder : Folder) (name : String) : Option String := folder.files.lookup name

/-- The folder after a file is written, whether it was there before or not. -/
def put (folder : Folder) (name contents : String) : Folder :=
  match folder.get? name with
  | none => ⟨folder.files ++ [(name, contents)]⟩
  | some _ => ⟨folder.files.map fun file => if file.1 = name then (name, contents) else file⟩

private theorem lookup_append_new {name contents : String} :
    ∀ {files : List (String × String)}, files.lookup name = none →
      (files ++ [(name, contents)]).lookup name = some contents
  | [], _ => by simp
  | (other, old) :: rest, absent => by
    cases same : name == other with
    | true => simp [List.lookup_cons, same] at absent
    | false =>
      simp only [List.lookup_cons, same] at absent
      simpa [List.lookup_cons, same] using lookup_append_new absent

private theorem lookup_map_changed {name contents found : String} :
    ∀ {files : List (String × String)}, files.lookup name = some found →
      (files.map fun file => if file.1 = name then (name, contents) else file).lookup name =
        some contents
  | [], absent => by simp at absent
  | (other, old) :: rest, present => by
    by_cases same : other = name
    · simp [same]
    · have different : (name == other) = false := by simpa using Ne.symm same
      simp only [List.lookup_cons, different] at present
      simpa [List.lookup_cons, same, different] using lookup_map_changed present

/-- A file reads as it was written. -/
theorem get?_put (folder : Folder) (name contents : String) :
    (folder.put name contents).get? name = some contents := by
  unfold put
  split
  next absent => exact lookup_append_new absent
  next present => exact lookup_map_changed present

/-! ## Paths -/

/-- The length of the longest name of a file, in bytes. -/
def nameLimit : Nat := 255

/-- The length of the longest path, in bytes. -/
def pathLimit : Nat := 4095

/-- The parts of a text between slashes; `part` is the one that is being read, in reverse. -/
def partsFrom (part : List Char) : List Char → List String
  | [] => [String.ofList part.reverse]
  | c :: rest =>
    if c = '/' then String.ofList part.reverse :: partsFrom [] rest else partsFrom (c :: part) rest

/-- Follows the parts of a path, from the folder itself or from outside of it, to the name of a
file. -/
def follow (folder : Folder) (isInside : Bool) : List String → Except FileError String
  | [] => .error .isFolder
  | part :: more =>
    if part = "" ∨ part = "." then folder.follow isInside more
    else if part = ".." then folder.follow false more
    else if nameLimit < part.utf8ByteSize then .error .nameTooLong
    else if isInside && (folder.get? part).isSome then
      if more.isEmpty then .ok part else .error .notFolder
    else .error .notFound

/-- The name of the file that a path leads to. -/
def locate (folder : Folder) (path : String) : Except FileError String :=
  if pathLimit < path.utf8ByteSize then .error .nameTooLong
  else folder.follow (path.toList.head? != some '/') (partsFrom [] path.toList)

/-- The contents of the file that a path leads to. -/
def read (folder : Folder) (path : String) : Except FileError String :=
  match folder.locate path with
  | .error cause => .error cause
  | .ok name => (folder.get? name).elim (.error .notFound) .ok

/-- The folder after a write to the file that a path leads to, or to a new file of that name. -/
def write (folder : Folder) (path contents : String) : Folder :=
  match folder.locate path with
  | .error _ => folder.put path contents
  | .ok name => folder.put name contents

end Folder

end ImageFormula
