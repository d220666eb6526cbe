import ChatGateway.Credential.Record
import ChatGateway.Disk

/-!
# The store

The credential's file.  A record is written to a file beside it, which then
takes the file's place in one step, so that a reader finds the old record or the
new one and nothing in between.
-/

namespace ChatGateway

namespace Credential

/-- The store whose record is kept at a path. -/
structure Store where
  path : Path
  deriving DecidableEq, Repr

namespace Store

/-- A name without its last extension; a dot at its front begins none. -/
def stem (name : List Char) : List Char :=
  match name.reverse.dropWhile (· ≠ '.') with
  | _ :: c :: before => (c :: before).reverse
  | _ => name

/-- The file beside the store's that a record is written to first. -/
def draft (store : Store) : Path :=
  match store.path.getLast? with
  | some name =>
      store.path.dropLast ++ [String.ofList (stem name.toList ++ ".json.tmp".toList)]
  | none => store.path

def failure (fault : Disk.Fault) : Failure :=
  .storage fault.message

/-- The permissions of the files and directories that the store makes: the owner's alone. -/
def fileMode : Nat := 0o600

def directoryMode : Nat := 0o700

/-- The directory of the store, made if nothing is there. -/
def makeParent (store : Store) (disk : Disk) : Except Disk.Fault Disk :=
  let parent := store.path.dropLast
  match disk.find parent with
  | .ok _ => .ok disk
  | .error .missing => disk.makeDirectories directoryMode parent
  | .error fault => .error fault

/-- The steps of saving a record, in order. -/
inductive SaveStep where
  | makeParent
  | openDraft
  | writeDraft
  | replace
  deriving DecidableEq, Repr

def SaveStep.all : List SaveStep := [.makeParent, .openDraft, .writeDraft, .replace]

/-- The disk after one step of saving. -/
def saveStep (store : Store) (record : Record) (disk : Disk) :
    SaveStep -> Except Disk.Fault Disk
  | .makeParent => store.makeParent disk
  | .openDraft => disk.openEmpty fileMode store.draft
  | .writeDraft => disk.write store.draft (Text.bytes record.render)
  | .replace => disk.renameFile store.draft store.path

/-- The disk after a step that failed: a draft that could not replace the file is removed. -/
def abandon (store : Store) (disk : Disk) : SaveStep -> Disk
  | .replace => match disk.removeFile store.draft with
    | .ok disk => disk
    | .error _ => disk
  | _ => disk

/-- The disk after steps of saving, and whether all of them succeeded. -/
def saveSteps (store : Store) (record : Record) (disk : Disk) :
    List SaveStep -> Disk × Except Disk.Fault Unit
  | [] => (disk, .ok ())
  | step :: rest =>
      match store.saveStep record disk step with
      | .ok disk => saveSteps store record disk rest
      | .error fault => (store.abandon disk step, .error fault)

def save (store : Store) (record : Record) (disk : Disk) : Disk × Except Failure Unit :=
  let (disk, outcome) := store.saveSteps record disk SaveStep.all
  (disk, outcome.mapError failure)

/-- The stored record; a file that holds no record counts as none. -/
def load (store : Store) (disk : Disk) : Except Failure (Option Record) :=
  match disk.read store.path with
  | .error .missing => .ok none
  | .error fault => .error (failure fault)
  | .ok content =>
      if (Text.Utf8.decode? content).isSome then
        match Record.read content with
        | .ok record => .ok (some record)
        | .error _ => .ok none
      else .error (.storage "stream did not contain valid UTF-8")

/-- Removes the stored record; it is no fault if there is none. -/
def clear (store : Store) (disk : Disk) : Disk × Except Failure Unit :=
  match disk.removeFile store.path with
  | .ok disk => (disk, .ok ())
  | .error .missing => (disk, .ok ())
  | .error fault => (disk, .error (failure fault))

end Store

end Credential

end ChatGateway
