import FeatureAtlas.Files.Disk
import FeatureAtlas.Export.Sink

/-!
Exporting a model into a file.
-/

namespace FeatureAtlas

inductive ExportError where
  | sink (cause : SinkError)
  | file (cause : FileError)
deriving DecidableEq, Repr

def ExportError.message (error : ExportError) : String :=
  "Failed to write exported model: " ++
    match error with
    | .sink cause => cause.message
    | .file cause => cause.message

namespace FeatureModel

def exportToFile (model : FeatureModel) (format : ExportFormat) (path : Path) (disk : Disk) :
    Disk × Except FileError Unit :=
  match disk.makeParent path with
  | (prepared, .error error) => (prepared, .error error)
  | (prepared, .ok ()) =>
      match prepared.write path (.text (model.exportText format)) with
      | .error error => (prepared, .error error)
      | .ok written => (written, .ok ())

end FeatureModel

def exportedEvent (path : String) : JournalEvent :=
  .info ("Exported feature model to " ++ path)

end FeatureAtlas
