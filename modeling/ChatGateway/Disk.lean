import ChatGateway.Text.Split

/-!
# The disk

A tree of files and directories below one root directory, with the operations
that storing a credential needs and the ways in which they fail.

Everything in the tree belongs to one user, who is also the one that all operations
are done for.  The permissions of a file say whether its owner may read it and open it
for writing; what they give to others is kept with it but never asked for.  Left out of
this picture are links, the permissions of directories, which are kept but never asked
for either, the times of files, limits on names and on space, and an owner whom no
permissions bind.
-/

namespace ChatGateway

/-- The names from the root down; the root itself is the empty path. -/
abbrev Path := List String

namespace Path

/-- Goes down by a name, or up by two dots; the root is above itself. -/
def enter (path : Path) (name : String) : Path :=
  if name = ".." then path.dropLast else path ++ [name]

/-- The names between the slashes of a text, but for those that lead nowhere. -/
def names (text : String) : List String :=
  ((Text.splitAll '/' text.toList).map String.ofList).filter fun name => name ≠ "" ∧ name ≠ "."

/-- The path that a text with slashes names if all of its directories are there. -/
def ofText (text : String) : Path :=
  (names text).foldl enter []

end Path

inductive Entry where
  | file (mode : Nat) (content : List UInt8)
  | directory (mode : Nat)
  deriving DecidableEq, Repr

/-- The owner of a file may read it. -/
def ownerReads (mode : Nat) : Bool := mode.testBit 8

/-- The owner of a file may write to it. -/
def ownerWrites (mode : Nat) : Bool := mode.testBit 7

structure Disk where
  /-- The entries below the root, each path once. -/
  entries : List (Path × Entry)
  deriving DecidableEq, Repr

namespace Disk

inductive Fault where
  | missing
  | occupied
  | notDirectory
  | isDirectory
  | denied
  deriving DecidableEq, Repr

/-- The wording of the operating system. -/
def Fault.message : Fault -> String
  | .missing => "No such file or directory (os error 2)"
  | .occupied => "File exists (os error 17)"
  | .notDirectory => "Not a directory (os error 20)"
  | .isDirectory => "Is a directory (os error 21)"
  | .denied => "Permission denied (os error 13)"

def empty : Disk := ⟨[]⟩

/-- The entry at a path; the root is always a directory. -/
def entry? (disk : Disk) (path : Path) : Option Entry :=
  match path with
  | [] => some (.directory 0o755)
  | _ => disk.entries.lookup path

/-- Puts an entry at a path, whatever stood there. -/
def put (disk : Disk) (path : Path) (entry : Entry) : Disk :=
  ⟨(path, entry) :: disk.entries.filter fun held => held.1 ≠ path⟩

def erase (disk : Disk) (path : Path) : Disk :=
  ⟨disk.entries.filter fun held => held.1 ≠ path⟩

/-- The directory `above` has to exist, and so has every directory of `names` below it. -/
def reach (disk : Disk) (above : Path) (names : List String) : Except Fault Unit :=
  match disk.entry? above with
  | none => .error .missing
  | some (.file _ _) => .error .notDirectory
  | some (.directory _) =>
      match names with
      | [] => .ok ()
      | name :: rest => reach disk (above ++ [name]) rest

/-- Every directory above a path has to exist. -/
def reachParent (disk : Disk) (path : Path) : Except Fault Unit :=
  disk.reach [] path.dropLast

/-- The entry at a path, or why there is none. -/
def find (disk : Disk) (path : Path) : Except Fault Entry := do
  disk.reachParent path
  match disk.entry? path with
  | some entry => .ok entry
  | none => .error .missing

/-- Where names lead to from a path on; each of them is looked for in a directory. -/
def follow (disk : Disk) (path : Path) : List String -> Except Fault Path
  | [] => .ok path
  | name :: rest =>
      match disk.entry? path with
      | none => .error .missing
      | some (.file _ _) => .error .notDirectory
      | some (.directory _) => disk.follow (path.enter name) rest

def read (disk : Disk) (path : Path) : Except Fault (List UInt8) := do
  match ← disk.find path with
  | .file mode content => if ownerReads mode then .ok content else .error .denied
  | .directory _ => .error .isDirectory

def mode? (disk : Disk) (path : Path) : Option Nat :=
  match disk.find path with
  | .ok (.file mode _) | .ok (.directory mode) => some mode
  | .error _ => none

/-- The directories of `names` below `above`; those that exist stay as they are. -/
def makeBelow (disk : Disk) (mode : Nat) (above : Path) : List String -> Except Fault Disk
  | [] => .ok disk
  | name :: rest =>
      let path := above ++ [name]
      match disk.entry? path with
      | none => makeBelow (disk.put path (.directory mode)) mode path rest
      | some (.directory _) => makeBelow disk mode path rest
      | some (.file _ _) => .error (if rest.isEmpty then .occupied else .notDirectory)

/-- A directory and the directories above it; those that exist stay as they are. -/
def makeDirectories (disk : Disk) (mode : Nat) (path : Path) : Except Fault Disk :=
  disk.makeBelow mode [] path

/--
Follows names and makes a directory wherever nothing is.  What was made stays, also if a
file is in the way in the end.
-/
def makeAlong (disk : Disk) (mode : Nat) (path : Path) :
    List String -> Disk × Except Fault Path
  | [] => (disk, .ok path)
  | name :: rest =>
      let next := path.enter name
      match disk.entry? next with
      | none => makeAlong (disk.put next (.directory mode)) mode next rest
      | some (.directory _) => makeAlong disk mode next rest
      | some (.file _ _) => (disk, .error .occupied)

/--
An empty file to write to.  A file that stands there keeps its permissions, which have to
let its owner write; a new one is open for writing whatever they are.
-/
def openEmpty (disk : Disk) (mode : Nat) (path : Path) : Except Fault Disk := do
  disk.reachParent path
  match disk.entry? path with
  | none => .ok (disk.put path (.file mode []))
  | some (.file mode _) =>
      if ownerWrites mode then .ok (disk.put path (.file mode [])) else .error .denied
  | some (.directory _) => .error .isDirectory

/-- Writes to a file that is open for writing. -/
def write (disk : Disk) (path : Path) (content : List UInt8) : Except Fault Disk := do
  match ← disk.find path with
  | .file mode _ => .ok (disk.put path (.file mode content))
  | .directory _ => .error .isDirectory

/-- A file with its content, made if it is not there. -/
def writeFile (disk : Disk) (mode : Nat) (path : Path) (content : List UInt8) :
    Except Fault Disk := do
  let disk ← disk.openEmpty mode path
  disk.write path content

/-- Gives a file another path; a file that stands there is replaced. -/
def renameFile (disk : Disk) (path target : Path) : Except Fault Disk := do
  let held ← disk.find path
  disk.reachParent target
  match held, disk.entry? target with
  | .directory _, _ => .error .isDirectory
  | .file _ _, some (.directory _) => .error .isDirectory
  | .file _ _, _ => .ok ((disk.erase path).put target held)

def removeFile (disk : Disk) (path : Path) : Except Fault Disk := do
  match ← disk.find path with
  | .file _ _ => .ok (disk.erase path)
  | .directory _ => .error .isDirectory

/-- Removes a file, or a directory with everything below it. -/
def removeAll (disk : Disk) (path : Path) : Except Fault Disk := do
  let _ ← disk.find path
  .ok ⟨disk.entries.filter fun held => !path.isPrefixOf held.1⟩

/-- The text of a path; that of a directory ends in a slash. -/
def listed : Path × Entry -> String
  | (path, .file _ _) => Text.join "/" path
  | (path, .directory _) => Text.join "/" path ++ "/"

/-- The texts of all paths in ascending order. -/
def listing (disk : Disk) : List String :=
  (disk.entries.map listed).mergeSort fun left right => left ≤ right

end Disk

end ChatGateway
