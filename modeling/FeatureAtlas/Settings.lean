import FeatureAtlas.Files.Disk
import FeatureAtlas.Export.Format
import FeatureAtlas.Model.FailurePolicy

/-!
Settings: what the command line does where no flag says otherwise. They are kept in a JSON file, in
which every member may be left out.
-/

namespace FeatureAtlas

structure Settings where
  failOn : FailurePolicy := .error
  format : ExportFormat := .json
  output : Option String := none
  logFilter : Option String := none
  storePath : Option String := none
deriving DecidableEq, Repr, Inhabited

inductive SettingsError where
  | unreadable (path : String) (cause : FileError)
  | unparsable (path : String) (cause : DecodeError)
  | noDirectory (cause : FileError)
  | unwritable (cause : FileError)
deriving DecidableEq, Repr

def SettingsError.context : SettingsError → String
  | .unreadable path _ => "Failed to read config file " ++ path
  | .unparsable path _ => "Failed to parse config file " ++ path
  | .noDirectory _ => "Failed to create config directory"
  | .unwritable _ => "Failed to write config file"

namespace Settings

def nullable : Option String → Json
  | some value => .text value
  | none => .null

def members (settings : Settings) : List (String × Json) :=
  [("fail_on", .text settings.failOn.name), ("format", .text settings.format.name),
    ("output", nullable settings.output), ("log_filter", nullable settings.logFilter),
    ("store_path", nullable settings.storePath)]

def toJson (settings : Settings) : Json := .record settings.members

def recordFormat : RecordFormat Settings where
  blank := {}
  fields := [
    .optionalField "fail_on" FailurePolicy.decoder fun failOn record => { record with failOn },
    .optionalField "format" ExportFormat.decoder fun format record => { record with format },
    .optionalField "output" (Decoder.optional Decoder.text)
      fun output record => { record with output },
    .optionalField "log_filter" (Decoder.optional Decoder.text)
      fun logFilter record => { record with logFilter },
    .optionalField "store_path" (Decoder.optional Decoder.text)
      fun storePath record => { record with storePath }]

def write (settings : Settings) : String := settings.toJson.pretty

def parse (text : String) : Except DecodeError Settings := decodeText recordFormat.decoder text

def load (disk : Disk) (path : String) : Except SettingsError Settings := do
  let text ← (disk.readText (.ofText path)).mapError (.unreadable path)
  (parse text).mapError (.unparsable path)

def save (settings : Settings) (disk : Disk) (path : String) : Except SettingsError Disk := do
  let (prepared, result) := disk.makeParent (.ofText path)
  result.mapError .noDirectory
  (prepared.write (.ofText path) (.text settings.write)).mapError .unwritable

end Settings

end FeatureAtlas
