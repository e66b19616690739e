import FeatureAtlas.Model.Node

/-!
Diagnostics: the problems that building a model reports without giving up.
-/

namespace FeatureAtlas

inductive Severity where
  | warning
  | error
deriving DecidableEq, Repr, Inhabited

namespace Severity

def all : List Severity := [warning, error]

def name : Severity → String
  | warning => "WARNING"
  | error => "ERROR"

def named : List (String × Severity) := all.map fun value => (value.name, value)

def ofName? (name : String) : Option Severity := named.lookup name

def rank : Severity → Nat
  | warning => 0
  | error => 1

def reaches (severity threshold : Severity) : Bool := threshold.rank ≤ severity.rank

def worse (first second : Severity) : Severity :=
  if first.reaches second then first else second

end Severity

inductive DiagnosticKind where
  | duplicateFeature
  | unresolvedParent
  | cycle
  | emptyName
deriving DecidableEq, Repr, Inhabited

namespace DiagnosticKind

def all : List DiagnosticKind := [duplicateFeature, unresolvedParent, cycle, emptyName]

def name : DiagnosticKind → String
  | duplicateFeature => "DUPLICATE_FEATURE"
  | unresolvedParent => "UNRESOLVED_PARENT"
  | cycle => "CYCLE"
  | emptyName => "EMPTY_NAME"

def named : List (String × DiagnosticKind) := all.map fun value => (value.name, value)

def ofName? (name : String) : Option DiagnosticKind := named.lookup name

def severity : DiagnosticKind → Severity
  | duplicateFeature | unresolvedParent => .warning
  | cycle | emptyName => .error

end DiagnosticKind

structure Diagnostic where
  kind : DiagnosticKind := .duplicateFeature
  severity : Severity := .warning
  elements : List ElementRef := []
  message : String := ""
deriving DecidableEq, Repr, Inhabited

namespace Diagnostic

def ofKind (kind : DiagnosticKind) (elements : List ElementRef) (message : String) : Diagnostic :=
  { kind, severity := kind.severity, elements, message }

def duplicateFeature (element : ElementRef) (kept ignored : String) : Diagnostic :=
  ofKind .duplicateFeature [element]
    (element.qualifiedName ++ " declares feature '" ++ ignored ++ "' but already declares '" ++
      kept ++ "'; keeping the first")

def emptyMappingName (element : ElementRef) : Diagnostic :=
  ofKind .emptyName [element]
    (element.qualifiedName ++ " maps to a concept with an empty name; no node created")

def emptyFeatureName (element : ElementRef) : Diagnostic :=
  ofKind .emptyName [element]
    (element.qualifiedName ++ " declares a feature with an empty name; declaration ignored")

def unresolvedParent (container content : ElementRef) (containerKey contentKey : NodeKey) :
    Diagnostic :=
  ofKind .unresolvedParent [container, content]
    (container.qualifiedName ++ " (" ++ containerKey.display ++ ") cannot contain " ++
      content.qualifiedName ++ " (" ++ contentKey.display ++ "): a " ++
      containerKey.granularity.name ++ " does not contain a " ++ contentKey.granularity.name)

/-- A closed path of nodes, the first of which is also the last. -/
def cycle (path : List NodeKey) (elements : List ElementRef) : Diagnostic :=
  ofKind .cycle elements
    ("containment cycle: " ++ " -> ".intercalate (path.map NodeKey.display))

def display (diagnostic : Diagnostic) : String :=
  diagnostic.severity.name ++ " [" ++ diagnostic.kind.name ++ "] " ++ diagnostic.message

end Diagnostic

/-! The written form. -/

def Severity.decoder : Decoder Severity := .variant Severity.named

def DiagnosticKind.decoder : Decoder DiagnosticKind := .variant DiagnosticKind.named

def Diagnostic.toJson (diagnostic : Diagnostic) : Json :=
  .record [("kind", .text diagnostic.kind.name), ("severity", .text diagnostic.severity.name),
    ("elements", .array (diagnostic.elements.map ElementRef.toJson)),
    ("message", .text diagnostic.message)]

def Diagnostic.format : RecordFormat Diagnostic where
  blank := {}
  fields := [
    .requiredField "kind" DiagnosticKind.decoder fun kind record => { record with kind },
    .requiredField "severity" Severity.decoder fun severity record => { record with severity },
    .requiredField "elements" (Decoder.list ElementRef.format.decoder)
      fun elements record => { record with elements },
    .requiredField "message" Decoder.text fun message record => { record with message }]

end FeatureAtlas
