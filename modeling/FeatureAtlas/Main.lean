import Std.Time
import FeatureAtlas.CommandLine.Run
import FeatureAtlas.Store.Archive

/-!
The command line. It reads the files that a run may touch, runs the command, writes what has changed
and reports on standard error.
-/

namespace FeatureAtlas.Main

def fullName (place : Place) : String := "/" ++ "/".intercalate place

def contentOf (text : String) : FileContent :=
  match Archive.read? text with
  | some (database, logged) => .store database logged
  | none => .text text

/-- What is at a place. What is there and cannot be read as a text counts as a directory. -/
def inspect (place : Place) : IO (Option DiskEntry) := do
  try
    return some (.file (contentOf (← IO.FS.readFile (fullName place))))
  catch
    | .noFileOrDirectory .. => return none
    | _ => return some .directory

def placesAlong (start : Place) : List String → List Place
  | [] => []
  | ".." :: rest => placesAlong start.dropLast rest
  | name :: rest => (start ++ [name]) :: placesAlong (start ++ [name]) rest

def inspectAll (disk : Disk) (places : List Place) : IO Disk :=
  places.foldlM
    (fun disk place => do
      match disk.entry? place with
      | some _ => return disk
      | none =>
          match ← inspect place with
          | some entry => return disk.setEntry place entry
          | none => return disk)
    disk

def inspectPath (disk : Disk) (path : String) : IO Disk :=
  let path := Path.ofText path
  inspectAll disk
    (placesAlong [] (disk.startOf path) ++ placesAlong (disk.startOf path) path.names)

def storePaths (text : String) : List String :=
  let address := Address.ofText? text
  let name := (address.map Address.name).getD text
  [text, name] ++ (StoreAccess.endings.map fun ending => name ++ ending) ++
    (address.bind fun address => address.parameter "modeof").toList

def mentioned (environment : Environment) (invocation : Invocation) (settings : Settings) :
    List String :=
  match invocation.command with
  | .build input _ output _ => input :: (output <|> settings.output).toList
  | .scan input => [input]
  | .store path command =>
      storePaths ((path <|> settings.storePath).getD environment.storePath) ++
        match command with
        | .save input _ => [input]
        | _ => []

def writeEntry (place : Place) : DiskEntry → IO Unit
  | .directory => IO.FS.createDirAll (fullName place)
  | .file (.text text) => IO.FS.writeFile (fullName place) text
  | .file (.store database logged) =>
      IO.FS.writeFile (fullName place) (Archive.write database logged)
  | .file .index => IO.FS.writeFile (fullName place) ""

def writeChanges (before after : Disk) : IO Unit := do
  for ((_, place), entry) in after.entries do
    if before.entry? place ≠ some entry then writeEntry place entry
  for ((_, place), _) in before.entries do
    if Option.isNone <| after.entry? place then IO.FS.removeFile (fullName place)

def freshId : IO SnapshotId := do
  let bytes ← IO.getRandomBytes 16
  let digits := bytes.toList.flatMap fun byte =>
    [Quoting.hexDigit (byte.toNat / 16), Quoting.hexDigit (byte.toNat % 16)]
  let variant := ['8', '9', 'a', 'b'].getD ((bytes.toList.getD 8 0).toNat % 4) '8'
  return String.ofList
    (Identifier.hyphenate Identifier.groups ((digits.set 12 '4').set 16 variant))

def currentTime : IO String := do
  let now ← Std.Time.Timestamp.now
  let universal := Std.Time.DateTime.ofTimestampWithZone now Std.Time.TimeZone.UTC
  return universal.toPlainDateTime.toLeanDateTimeString ++ "+00:00"

def userDirectory (variableName fallback : String) : IO String := do
  match ← IO.getEnv variableName with
  | some directory => return directory
  | none => return ((← IO.getEnv "HOME").getD "") ++ "/" ++ fallback

def environment : IO Environment := do
  return {
    settingsPath := (← userDirectory "XDG_CONFIG_HOME" ".config") ++ "/feature-lens/config.json"
    storePath := (← userDirectory "XDG_DATA_HOME" ".local/share") ++ "/feature-lens/models.db"
    freshId := ← freshId
    time := ← currentTime }

def startingDisk : IO Disk := do
  let directory ← IO.currentDir
  return { Disk.empty with workingDirectory := (Path.ofText directory.toString).names }

def showEvent (event : JournalEvent) : IO Unit :=
  match event.level with
  | .debug => return ()
  | .info => IO.eprintln ("INFO " ++ event.message)
  | .warn => IO.eprintln ("WARN " ++ event.message)

def report (outcome : Outcome) : IO Unit := do
  outcome.journal.forM showEvent
  if let some problem := outcome.problem then IO.eprintln ("Error: " ++ problem.message)
  IO.print outcome.output

def runInvocation (environment : Environment) (invocation : Invocation) : IO Outcome := do
  let settingsPath := invocation.settingsPath.getD environment.settingsPath
  let disk ← inspectPath (← startingDisk) settingsPath
  let settings := ((settingsFor environment invocation.settingsPath disk).toOption).getD {}
  let disk ← (mentioned environment invocation settings).foldlM inspectPath disk
  let outcome := invocation.run environment disk
  writeChanges disk outcome.disk
  return outcome

end FeatureAtlas.Main

open FeatureAtlas in
def main (arguments : List String) : IO UInt32 := do
  let environment ← Main.environment
  let outcome ←
    match Invocation.ofArguments arguments with
    | .error error => pure (Outcome.failed .empty (.usage error) [])
    | .ok invocation => Main.runInvocation environment invocation
  Main.report outcome
  return outcome.status.code.toUInt32
