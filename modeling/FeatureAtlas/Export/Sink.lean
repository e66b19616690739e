import FeatureAtlas.Export.Format

/-!
Writing an export into a sink that holds a limited number of bytes. A write takes as much as there
is room for, so what a full sink holds is the beginning of the text.
-/

namespace FeatureAtlas

inductive SinkError where
  | full
  | flushRefused
deriving DecidableEq, Repr

def SinkError.message : SinkError → String
  | .full => "sink full"
  | .flushRefused => "flush refused"

/-- The bytes taken so far, the room left, and how often the sink has been flushed, whether or not
it refused. -/
structure Sink where
  taken : List UInt8
  room : Nat
  refusesFlush : Bool
  flushes : Nat
deriving DecidableEq, Repr

def textBytes (text : String) : List UInt8 := text.toUTF8.toList

namespace Sink

def empty (room : Nat) (refusesFlush : Bool) : Sink :=
  { taken := [], room, refusesFlush, flushes := 0 }

def write (sink : Sink) (bytes : List UInt8) : Sink × List UInt8 :=
  ({ sink with
      taken := sink.taken ++ bytes.take sink.room
      room := sink.room - bytes.length },
    bytes.drop sink.room)

def writeAll (sink : Sink) (bytes : List UInt8) : Sink × Except SinkError Unit :=
  if bytes = [] then (sink, .ok ())
  else if sink.room = 0 then (sink, .error .full)
  else (sink.write bytes).1.writeAll (sink.write bytes).2
termination_by bytes.length
decreasing_by
  rename_i some room
  have taken : 0 < bytes.length := List.length_pos_iff.mpr some
  simp only [write, List.length_drop]
  omega

def flush (sink : Sink) : Sink × Except SinkError Unit :=
  ({ sink with flushes := sink.flushes + 1 },
    if sink.refusesFlush then .error .flushRefused else .ok ())

def writeTexts (sink : Sink) : List String → Sink × Except SinkError Unit
  | [] => (sink, .ok ())
  | text :: rest =>
      match sink.writeAll (textBytes text) with
      | (sink, .ok ()) => sink.writeTexts rest
      | (sink, .error error) => (sink, .error error)

def receive (sink : Sink) (texts : List String) : Sink × Except SinkError Unit :=
  match sink.writeTexts texts with
  | (sink, .ok ()) => sink.flush
  | (sink, .error error) => (sink, .error error)

end Sink

namespace FeatureModel

/-- Exports a model into a sink. A failed export changes the sink alone. -/
def exportInto (model : FeatureModel) (format : ExportFormat) (sink : Sink) :
    Sink × Except SinkError Unit :=
  sink.receive (model.exportParts format)

end FeatureModel

end FeatureAtlas
