/-!
# Files and the paths that lead to them

* `ReadFault` — why a path cannot be read
* `Files` — what a call reads at each path
* `Folder` — the files below one folder
* `Folder.read` — what a path leads to, from that folder on
-/

namespace TreeScript

/-! ## Reading -/

/-- Why a path cannot be read. -/
inductive ReadFault where
  | missing
  | denied
  | notFolder
  | folder
  | nameTooLong
  deriving DecidableEq, Repr

namespace ReadFault

/-- Whether what a path leads to can be opened nevertheless. -/
def isOpened : ReadFault → Bool
  | folder => true
  | missing | denied | notFolder | nameTooLong => false

/-- The wording of a fault. -/
def message : ReadFault → String
  | missing => "No such file or directory (os error 2)"
  | denied => "Permission denied (os error 13)"
  | notFolder => "Not a directory (os error 20)"
  | folder => "Is a directory (os error 21)"
  | nameTooLong => "File name too long (os error 36)"

end ReadFault

/-- What a call reads at each path. -/
abbrev Files := String → Except ReadFault ByteArray

/-! ## Folders -/

/-- The files below one folder, each with the names that lead to it. -/
abbrev Folder := List (List String × ByteArray)

/-- Where a path has led so far: to the file or folder that names lead to from a given
folder, or to one of the folders that enclose it, about which nothing is known. -/
inductive Place where
  | within (names : List String)
  | around
  deriving DecidableEq, Repr

namespace Folder

/-- The greatest number of bytes of a name. -/
def maxName : Nat := 255

/-- The least number of bytes that is too many for a path. -/
def maxPath : Nat := 4096

/-- The contents of the file that names lead to. -/
def file? (folder : Folder) (names : List String) : Option ByteArray :=
  folder.lookup names

/-- Whether names lead to a folder: the given one, or one with a file below it. -/
def isFolder (folder : Folder) (names : List String) : Bool :=
  names.isEmpty ||
    folder.any (fun (path, _) => names.isPrefixOf path && names.length != path.length)

/-- Whether a path can go on from a place. -/
def canEnter (folder : Folder) : Place → Bool
  | .within names => folder.isFolder names
  | .around => true

/-- One step of a path. -/
def enter (folder : Folder) (place : Place) (name : String) : Except ReadFault Place :=
  if !folder.canEnter place then .error .notFolder
  else
    match name, place with
    | ".", _ => .ok place
    | "..", .within [] => .ok .around
    | "..", .within names => .ok (.within names.dropLast)
    | "..", .around => .ok .around
    | name, place =>
      if maxName < name.utf8ByteSize then .error .nameTooLong
      else
        match place with
        | .around => .error .missing
        | .within names =>
          let inner := names ++ [name]
          if (folder.file? inner).isSome || folder.isFolder inner then .ok (.within inner)
          else .error .missing

/-- The text between slashes.  `part` is what was read since the last slash, backwards. -/
def splitSlashes (part : List Char) : List Char → List String
  | [] => [String.ofList part.reverse]
  | c :: rest =>
    if c = '/' then String.ofList part.reverse :: splitSlashes [] rest
    else splitSlashes (c :: part) rest

/-- The steps of a path.  A slash at its end asks for a folder. -/
def steps (path : String) : List String :=
  let parts := splitSlashes [] path.toList
  parts.filter (· != "") ++ if parts.getLast? = some "" then ["."] else []

/-- What a path leads to, from the folder on.  A path that starts with a slash starts
outside. -/
def read (folder : Folder) : Files := fun path => do
  if path = "" then throw .missing
  if maxPath ≤ path.utf8ByteSize then throw .nameTooLong
  let start := if path.toList.head? = some '/' then Place.around else .within []
  match ← (steps path).foldlM folder.enter start with
  | .around => throw .folder
  | .within names =>
    match folder.file? names with
    | some contents => return contents
    | none => throw .folder

end Folder

end TreeScript
