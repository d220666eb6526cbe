import ChatGateway.Credential.Traffic

/-!
# The token file

The store as it is set up, by the text of a path.  The names of the path are followed anew for
every operation, on the disk as it is then, and a name that goes up is no exception: the directory
that it goes up from has to be there.  Where the names lead to, the store does the rest.
-/

namespace ChatGateway

namespace Credential

/-- A store by the names of its path, of which `..` goes up. -/
structure TokenFile where
  names : List String
  deriving DecidableEq, Repr

namespace TokenFile

def ofText (text : String) : TokenFile :=
  ⟨Path.names text⟩

/-- The store that the names lead to. -/
def store? (file : TokenFile) (disk : Disk) : Except Disk.Fault Store :=
  (disk.follow [] file.names).map Store.mk

def load (file : TokenFile) (disk : Disk) : Except Failure (Option Record) :=
  match file.store? disk with
  | .ok store => store.load disk
  | .error .missing => .ok none
  | .error fault => .error (Store.failure fault)

def clear (file : TokenFile) (disk : Disk) : Disk × Except Failure Unit :=
  match file.store? disk with
  | .ok store => store.clear disk
  | .error .missing => (disk, .ok ())
  | .error fault => (disk, .error (Store.failure fault))

/-- Where the directory of the file is, if something is there. -/
def parent? (file : TokenFile) (disk : Disk) : Except Disk.Fault Path := do
  let path ← disk.follow [] file.names.dropLast
  let _ ← disk.find path
  .ok path

/-- The directory of the file, which is made along the names if nothing is there. -/
def makeParent (file : TokenFile) (disk : Disk) : Disk × Except Disk.Fault Path :=
  match file.parent? disk with
  | .error .missing => disk.makeAlong Store.directoryMode [] file.names.dropLast
  | found => (disk, found)

/-- The store below a directory; names that end by going up are those of no file. -/
def within? (file : TokenFile) (parent : Path) : Option Store :=
  match file.names.getLast? with
  | some name => if name = ".." then none else some ⟨parent ++ [name]⟩
  | none => none

/-- Saving on a machine that may fail at a step. -/
def saveAmid (file : TokenFile) (record : Record) (disk : Disk) (mishap : Option Mishap) :
    Disk × Except Failure Unit :=
  match file.makeParent disk with
  | (made, .error fault) => (made, .error (Store.failure fault))
  | (made, .ok parent) =>
      match file.within? parent, file.store? made with
      | some store, _ => store.saveAmid record made mishap
      | none, .ok _ => (made, .error (Store.failure .isDirectory))
      | none, .error fault => (made, .error (Store.failure fault))

def save (file : TokenFile) (record : Record) (disk : Disk) : Disk × Except Failure Unit :=
  file.saveAmid record disk none

end TokenFile

end Credential

end ChatGateway
