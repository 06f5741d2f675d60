import Funlet.Text.Quoted

/-!
# File trees

The files that a run of the program can see, as a value, and the folder it runs in.  A path leads
from there, or from the root if it begins with a slash, through folders to a file or folder, as far
as that is permitted; reading and writing a file either succeed or fail with no effect.
-/

set_option autoImplicit false

namespace Funlet

inductive FileNode where
  | file (bytes : List UInt8)
  | folder
  deriving DecidableEq

/-- What may be done: nothing, reading a file or entering a folder, or changing it as well. -/
inductive Access where
  | none
  | read
  | write
  deriving DecidableEq

/-- The files and folders of a tree, by the names on the way to them from the root, and the way to
the folder that paths start from.  Everything may be done under a way that has no limit. -/
structure FileTree where
  nodes : List (List String × FileNode)
  home : List String
  limits : List (List String × Access)
  deriving DecidableEq

inductive FileError where
  | notFound (path : String)
  | notFolder (path : String)
  | isFolder (path : String)
  | nameTooLong (path : String)
  | denied (path : String)
  | nullCharacter
  deriving DecidableEq

namespace FileError

def message : FileError → String
  | .notFound path => "[Errno 2] No such file or directory: " ++ Text.quoted path
  | .notFolder path => "[Errno 20] Not a directory: " ++ Text.quoted path
  | .isFolder path => "[Errno 21] Is a directory: " ++ Text.quoted path
  | .nameTooLong path => "[Errno 36] File name too long: " ++ Text.quoted path
  | .denied path => "[Errno 13] Permission denied: " ++ Text.quoted path
  | .nullCharacter => "embedded null byte"

end FileError

namespace FileTree

def maxNameBytes : Nat := 255

def pathByteLimit : Nat := 4096

def node? (tree : FileTree) (way : List String) : Option FileNode :=
  match tree.nodes.find? (fun node => node.1 == way) with
  | some node => some node.2
  | none => none

def access (tree : FileTree) (way : List String) : Access :=
  match tree.limits.find? (fun limit => limit.1 == way) with
  | some limit => limit.2
  | none => .write

def lookUp (tree : FileTree) (path : String) (way : List String) (name : String) :
    Except FileError (Option FileNode) :=
  if maxNameBytes < name.utf8ByteSize then .error (.nameTooLong path)
  else .ok (tree.node? (way ++ [name]))

/-- Where a path leads: to a folder, or to a name in the folder at `way`, under which there need not
be anything.  A name with a slash after it can only be that of a folder. -/
inductive Target where
  | folder (way : List String)
  | name (way : List String) (name : String) (slashed : Bool)

/-- Follows the names of a path from the folder at `way`.  Two dots lead to the folder around a
folder, and from the root back to it. -/
def follow (tree : FileTree) (path : String) (way : List String) :
    List String → Except FileError Target
  | [] => .ok (.folder way)
  | step :: rest =>
    if step = "" then follow tree path way rest
    else if tree.access way = .none then .error (.denied path)
    else if step = "." then follow tree path way rest
    else if step = ".." then follow tree path way.dropLast rest
    else if rest.all (· == "") then .ok (.name way step (!rest.isEmpty))
    else
      match tree.lookUp path way step with
      | .error error => .error error
      | .ok (some .folder) => follow tree path (way ++ [step]) rest
      | .ok (some (.file _)) => .error (.notFolder path)
      | .ok none => .error (.notFound path)

def locate (tree : FileTree) (path : String) : Except FileError Target :=
  if path.toList.contains (Char.ofNat 0) then .error .nullCharacter
  else if pathByteLimit ≤ path.utf8ByteSize then .error (.nameTooLong path)
  else if path = "" then .error (.notFound path)
  else
    match (path.toList.splitOn '/').map String.ofList with
    | "" :: steps => follow tree path [] steps
    | steps => follow tree path tree.home steps

def folderError (tree : FileTree) (path : String) (way : List String) : FileError :=
  if tree.access way = .none then .denied path else .isFolder path

def read (tree : FileTree) (path : String) : Except FileError (List UInt8) :=
  match tree.locate path with
  | .error error => .error error
  | .ok (.folder way) => .error (tree.folderError path way)
  | .ok (.name way name slashed) =>
    match tree.lookUp path way name with
    | .error error => .error error
    | .ok (some (.file bytes)) =>
      if slashed then .error (.notFolder path)
      else if tree.access (way ++ [name]) = .none then .error (.denied path)
      else .ok bytes
    | .ok (some .folder) => .error (tree.folderError path (way ++ [name]))
    | .ok none => .error (.notFound path)

def set (way : List String) (node : FileNode) :
    List (List String × FileNode) → List (List String × FileNode)
  | [] => [(way, node)]
  | first :: rest => if first.1 = way then (way, node) :: rest else first :: set way node rest

/-- Whether a file may be written; a new one changes the folder. -/
def mayWrite (tree : FileTree) (way : List String) (name : String) : Bool :=
  tree.access (way ++ [name]) == .write &&
    ((tree.node? (way ++ [name])).isSome || tree.access way == .write)

def write (tree : FileTree) (path : String) (bytes : List UInt8) : Except FileError FileTree :=
  match tree.locate path with
  | .error error => .error error
  | .ok (.folder _) => .error (.isFolder path)
  | .ok (.name _ _ true) => .error (.isFolder path)
  | .ok (.name way name false) =>
    match tree.lookUp path way name with
    | .error error => .error error
    | .ok (some .folder) => .error (.isFolder path)
    | .ok _ =>
      if tree.mayWrite way name then
        .ok { tree with nodes := set (way ++ [name]) (.file bytes) tree.nodes }
      else .error (.denied path)

end FileTree

end Funlet
