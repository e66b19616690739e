import FeatureAtlas.Files.Address
import FeatureAtlas.Files.Disk

/-!
How the store at an address is used: in memory, where it is forgotten with the run, or in a file, on
which the parameters of the address set conditions.
-/

namespace FeatureAtlas

inductive AccessMode where
  | readOnly
  | existing
  | creating
  | memory
deriving DecidableEq, Repr

namespace AccessMode

def named : List (String × AccessMode) :=
  [("ro", readOnly), ("rw", existing), ("rwc", creating), ("memory", memory)]

def rank : AccessMode → Nat
  | readOnly => 0
  | existing => 1
  | creating => 2
  | memory => 3

def canReplace (mode current : AccessMode) : Bool := mode == memory || mode.rank ≤ current.rank

end AccessMode

/-- How runs that use one file keep out of each other's way: they share it, one of them keeps it for
itself, a directory beside the file marks that it is used, or they do not care. -/
inductive FileUse where
  | shared
  | exclusive
  | marked
  | careless
deriving DecidableEq, Repr

inductive StoreMedium where
  | file (use : FileUse)
  | memory
deriving DecidableEq, Repr

namespace StoreMedium

def named : List (String × StoreMedium) :=
  [("unix", file .shared), ("unix-excl", file .exclusive), ("unix-dotfile", file .marked),
    ("unix-none", file .careless), ("memdb", memory)]

def greatestMemoryName : Nat := 1016

end StoreMedium

structure Opening where
  mode : AccessMode
  medium : String
deriving DecidableEq, Repr

namespace Opening

def initial : Opening := { mode := .creating, medium := "unix" }

def apply (opening : Opening) : String × String → Option Opening
  | ("vfs", medium) => some { opening with medium }
  | ("cache", value) => if ["shared", "private"].contains value then some opening else none
  | ("mode", name) => do
      let mode ← AccessMode.named.lookup name
      if mode.canReplace opening.mode then some { opening with mode } else none
  | _ => some opening

def ofAddress? (address : Address) : Option Opening :=
  address.parameters.foldlM apply initial

end Opening

/-- How a store in a file is used. A store that is taken to be fixed is changed by no one, and one
without locks is used by no one else. The index of its log may not be changed when it is kept, and a
file that is made may have to be like another one. -/
structure StoreAccess where
  place : Place
  mode : AccessMode
  use : FileUse
  isFixed : Bool
  withoutLocks : Bool
  keepsIndex : Bool
  likeFile : Option String
deriving DecidableEq, Repr

namespace StoreAccess

def mayChange (access : StoreAccess) : Bool := access.mode != .readOnly && !access.isFixed

def canLog (access : StoreAccess) : Bool :=
  !access.isFixed && !access.withoutLocks &&
    match access.use with
    | .shared | .exclusive => true
    | .marked | .careless => false

/-! The files that come to stand beside the file of a store. -/

def journalEnding : String := "-journal"

def logEnding : String := "-wal"

def indexEnding : String := "-shm"

def markEnding : String := ".lock"

def endings : List String := [journalEnding, logEnding, indexEnding, markEnding]

def beside? (access : StoreAccess) (ending : String) : Option Place := do
  let name := (← access.place.getLast?) ++ ending
  if Disk.isTooLong name then none else some (access.place.dropLast ++ [name])

end StoreAccess

namespace Disk

def greatestStoreName : Nat := 504

def greatestPassedName : Nat := 511

def nameLength (place : Place) : Nat :=
  (place.map fun name => name.utf8ByteSize + 1).foldl (· + ·) 0

/-- The place that some names lead to when two dots just take back the name before them. On the way
only files are in the way, and names that are too long. -/
def follow? (disk : Disk) (here : Place) : List String → Option Place
  | [] => some here
  | ".." :: rest => disk.follow? here.dropLast rest
  | name :: rest =>
      let next := here ++ [name]
      match disk.entry? here with
      | some (.file _) => none
      | _ =>
          if isTooLong name || greatestPassedName < nameLength next then none
          else disk.follow? next rest

def storePlace? (disk : Disk) (name : String) : Option Place := do
  let path := Path.ofText name
  let place ← disk.follow? (disk.startOf path) path.names
  if nameLength place ≤ greatestStoreName then some place else none

end Disk

/-- Where an address leads: to a store in memory, which may have to stay as it is, or to a file. -/
inductive StoreSite where
  | memory (writable : Bool)
  | file (access : StoreAccess)
deriving DecidableEq, Repr

def Address.site? (address : Address) (disk : Disk) : Option StoreSite := do
  let opening ← Opening.ofAddress? address
  let medium ← StoreMedium.named.lookup opening.medium
  let writable := opening.mode != .readOnly
  let isFixed := address.switch "immutable"
  if address.name = "" || address.name = ":memory:" || opening.mode = .memory then
    return .memory writable
  else
    match medium with
    | .memory =>
        if address.name.utf8ByteSize ≤ StoreMedium.greatestMemoryName then
          return .memory (writable && !isFixed)
        else none
    | .file use =>
        return .file
          { place := ← disk.storePlace? address.name
            mode := opening.mode, use, isFixed
            withoutLocks := address.switch "nolock"
            keepsIndex := address.switch "readonly_shm"
            likeFile := address.parameter "modeof" }

end FeatureAtlas
