import BagQuery.File

/-!
# File trees

A file tree is a file system held in memory: files by the names on their way from the root.  A
directory is there when a file is below it.  `FileTree.state` follows a path through the tree name
by name, as a system does, and says where and why it gets stuck.
-/

namespace BagQuery

/-- Files by the names on their way from the root, and the directory that relative paths start
from. -/
structure FileTree where
  files : List (List String × ByteArray)
  workDir : List String

namespace FileTree

/-- What is at a place. -/
inductive Entry where
  | directory
  | file (bytes : ByteArray)

/-- What is at a place, if anything. -/
def lookup? (tree : FileTree) (place : List String) : Option Entry :=
  match tree.files.lookup place with
  | some bytes => some (.file bytes)
  | none =>
    if place.isPrefixOf tree.workDir || tree.files.any (place.isPrefixOf ·.1) then
      some .directory
    else none

/-- The longest name that a place can have, in bytes. -/
def maxName : Nat := 255

/-- The longest path, in bytes. -/
def maxPath : Nat := 4095

/-- Follows names from a directory. -/
def follow (tree : FileTree) (place : List String) : List String → Except FileFault Entry
  | [] =>
    match tree.lookup? place with
    | some e => .ok e
    | none => .error .notFound
  | name :: names =>
    match tree.lookup? place with
    | none => .error .notFound
    | some (.file _) => .error .notDirectory
    | some .directory =>
      if name = "" ∨ name = "." then follow tree place names
      else if name = ".." then follow tree place.dropLast names
      else if maxName < name.utf8ByteSize then .error .nameTooLong
      else follow tree (place ++ [name]) names

/-- What a path leads to. -/
def state (tree : FileTree) (path : String) : FileState :=
  if '\x00' ∈ path.toList then .refused FileFault.nulInName.reason
  else if path = "" then .refused FileFault.notFound.reason
  else if maxPath < path.utf8ByteSize then .refused FileFault.nameTooLong.reason
  else
    let start := if Path.isAbsolute path then [] else tree.workDir
    match tree.follow start (path.splitOn "/") with
    | .ok (.file bytes) => .content bytes
    | .ok .directory => .unreadable FileFault.isDirectory.reason
    | .error fault => .refused fault.reason

end FileTree

end BagQuery
