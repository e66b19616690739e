import FeatureAtlas.Files.Path
import FeatureAtlas.Store.Database

/-!
A disk: directories, and files that hold a text or a store. Operations fail as a file system does. A
failed operation changes nothing, but directories that it made on its way are kept.
-/

namespace FeatureAtlas

inductive FileError where
  | notFound
  | alreadyExists
  | notDirectory
  | isDirectory
  | nameTooLong
  | nulInName
  | notText
deriving DecidableEq, Repr

def FileError.message : FileError → String
  | .notFound => "No such file or directory (os error 2)"
  | .alreadyExists => "File exists (os error 17)"
  | .notDirectory => "Not a directory (os error 20)"
  | .isDirectory => "Is a directory (os error 21)"
  | .nameTooLong => "File name too long (os error 36)"
  | .nulInName => "file name contained an unexpected NUL byte"
  | .notText => "stream did not contain valid UTF-8"

/-- What a file holds. A store that is logged is changed by way of a log that stands beside it, and
an index of such a log is no text. -/
inductive FileContent where
  | text (text : String)
  | store (database : Database) (logged : Bool)
  | index
deriving DecidableEq, Repr

def FileContent.isShorterThan (bytes : Nat) : FileContent → Bool
  | .text content => content.utf8ByteSize < bytes
  | _ => false

inductive DiskEntry where
  | directory
  | file (content : FileContent)
deriving DecidableEq, Repr

abbrev Place := List String

/-- What is there besides the directory at the top, and the directory that paths start from. An
entry is kept with how deep its place is, which tells most places apart. -/
structure Disk where
  entries : List ((Nat × Place) × DiskEntry)
  workingDirectory : Place
deriving DecidableEq, Repr

namespace Disk

def empty : Disk := { entries := [], workingDirectory := [] }

def keyOf (place : Place) : Nat × Place := (place.length, place)

def entry? (disk : Disk) (place : Place) : Option DiskEntry :=
  if place = [] then some .directory else disk.entries.lookup (keyOf place)

def setEntry (disk : Disk) (place : Place) (entry : DiskEntry) : Disk :=
  let key := keyOf place
  if (disk.entries.lookup key).isSome then
    { disk with entries := disk.entries.map fun (other, old) =>
        (other, if other = key then entry else old) }
  else { disk with entries := disk.entries ++ [(key, entry)] }

def removeFile (disk : Disk) (place : Place) : Disk :=
  match disk.entry? place with
  | some (.file _) =>
      { disk with entries := disk.entries.filter fun (other, _) => other ≠ keyOf place }
  | _ => disk

def startOf (disk : Disk) (path : Path) : Place :=
  if path.fromTop then [] else disk.workingDirectory

def greatestNameLength : Nat := 255

def greatestPathLength : Nat := 4095

def isTooLong (name : String) : Bool := greatestNameLength < name.utf8ByteSize

def walk (disk : Disk) (here : Place) : List String → Except FileError Place
  | [] => .ok here
  | ".." :: rest => disk.walk here.dropLast rest
  | name :: rest =>
      if isTooLong name then .error .nameTooLong
      else
        match disk.entry? (here ++ [name]) with
        | none => .error .notFound
        | some .directory => disk.walk (here ++ [name]) rest
        | some (.file _) => .error .notDirectory

def checkPath (path : Path) : Except FileError Unit :=
  if path.names.any fun name => name.contains '\x00' then .error .nulInName
  else if path.isEmpty then .error .notFound
  else if greatestPathLength < path.length then .error .nameTooLong
  else .ok ()

def container (disk : Disk) (path : Path) : Except FileError Place := do
  checkPath path
  disk.walk (disk.startOf path) path.names.dropLast

def placeIn (directory : Place) (path : Path) : Except FileError Place :=
  match path.names.getLast? with
  | none => .ok directory
  | some ".." => .ok directory.dropLast
  | some name => if isTooLong name then .error .nameTooLong else .ok (directory ++ [name])

def locate (disk : Disk) (path : Path) : Except FileError Place := do
  placeIn (← disk.container path) path

def read (disk : Disk) (path : Path) : Except FileError FileContent := do
  match disk.entry? (← disk.locate path) with
  | none => .error .notFound
  | some .directory => .error .isDirectory
  | some (.file content) =>
      if path.ending = .name then return content else .error .notDirectory

def readText (disk : Disk) (path : Path) : Except FileError String := do
  match ← disk.read path with
  | .text text => return text
  | _ => .error .notText

def isThere (disk : Disk) (path : Path) : Bool :=
  match (disk.locate path).toOption.bind disk.entry? with
  | none => false
  | some .directory => true
  | some (.file _) => path.ending == .name

def makeAlong (disk : Disk) (here : Place) : List String → Disk × Except FileError Unit
  | [] => (disk, .ok ())
  | ".." :: rest => disk.makeAlong here.dropLast rest
  | name :: rest =>
      let next := here ++ [name]
      if isTooLong name then (disk, .error .nameTooLong)
      else
        match disk.entry? next with
        | none => (disk.setEntry next .directory).makeAlong next rest
        | some .directory => disk.makeAlong next rest
        | some (.file _) =>
            (disk, .error (if rest.isEmpty then .alreadyExists else .notDirectory))

def makeDirectories (disk : Disk) (path : Path) : Disk × Except FileError Unit :=
  if path.names = [] then (disk, .ok ())
  else
    match checkPath path with
    | .error error => (disk, .error error)
    | .ok () => disk.makeAlong (disk.startOf path) path.names

def makeParent (disk : Disk) (path : Path) : Disk × Except FileError Unit :=
  match path.parent? with
  | some parent => disk.makeDirectories parent
  | none => (disk, .ok ())

/-- Writes a whole file, in the place of what it held. A path with a slash behind its last name is
taken for a directory, whatever there is. -/
def write (disk : Disk) (path : Path) (content : FileContent) : Except FileError Disk := do
  let directory ← disk.container path
  if path.ending = .slash then .error .isDirectory
  else
    let place ← placeIn directory path
    match path.ending, disk.entry? place with
    | _, some .directory => .error .isDirectory
    | .name, _ => return disk.setEntry place (.file content)
    | _, some (.file _) => .error .notDirectory
    | _, none => .error .notFound

def texts (disk : Disk) : List (Place × String) :=
  disk.entries.filterMap fun ((_, place), entry) =>
    match entry with
    | .file (.text text) => some (place, text)
    | _ => none

end Disk

end FeatureAtlas
