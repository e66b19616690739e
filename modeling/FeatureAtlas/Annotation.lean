import FeatureAtlas.Basic
import FeatureAtlas.Json.Decode

/-!
Annotations: what a source element declares about the feature it implements or the concept it
belongs to, and how they are written.
-/

namespace FeatureAtlas

inductive FeatureType where
  | functional
  | nonFunctional
deriving DecidableEq, Repr, Inhabited

namespace FeatureType

def all : List FeatureType := [functional, nonFunctional]

def name : FeatureType → String
  | functional => "FUNCTIONAL"
  | nonFunctional => "NON_FUNCTIONAL"

def named : List (String × FeatureType) := all.map fun value => (value.name, value)

def ofName? (name : String) : Option FeatureType := named.lookup name

end FeatureType

inductive Granularity where
  | concept
  | module
  | component
  | data
deriving DecidableEq, Repr, Inhabited

namespace Granularity

def all : List Granularity := [concept, module, component, data]

def name : Granularity → String
  | concept => "CONCEPT"
  | module => "MODULE"
  | component => "COMPONENT"
  | data => "DATA"

def named : List (String × Granularity) := all.map fun value => (value.name, value)

def ofName? (name : String) : Option Granularity := named.lookup name

def rank : Granularity → Nat
  | concept => 0
  | module => 1
  | component => 2
  | data => 3

/-- A level may contain itself and every finer level. -/
def canContain (container content : Granularity) : Bool :=
  container.rank ≤ content.rank

end Granularity

structure FeatureDeclaration where
  name : String := ""
  description : String := ""
  featureType : FeatureType := .functional
deriving DecidableEq, Repr, Inhabited

structure MappingDeclaration where
  targetConcept : String := ""
  granularity : Granularity := .concept
deriving DecidableEq, Repr, Inhabited

/-- One annotation of an element. Annotations of other tools are kept as `other`. -/
inductive Annotation where
  | feature (declaration : FeatureDeclaration)
  | mapping (declaration : MappingDeclaration)
  | other
deriving DecidableEq, Repr, Inhabited

namespace Annotation

def isDeclaration : Annotation → Bool
  | other => false
  | _ => true

def isBlank : Annotation → Bool
  | feature declaration => FeatureAtlas.isBlank declaration.name
  | mapping declaration => FeatureAtlas.isBlank declaration.targetConcept
  | other => false

end Annotation

/-! The written form. -/

def FeatureDeclaration.members (declaration : FeatureDeclaration) : List (String × Json) :=
  [("name", .text declaration.name), ("description", .text declaration.description),
    ("type", .text declaration.featureType.name)]

def MappingDeclaration.members (declaration : MappingDeclaration) : List (String × Json) :=
  [("target_concept", .text declaration.targetConcept),
    ("granularity", .text declaration.granularity.name)]

def Annotation.toJson : Annotation → Json
  | .feature declaration => .record (("annotation", .text "feature") :: declaration.members)
  | .mapping declaration => .record (("annotation", .text "mapping") :: declaration.members)
  | .other => .record [("annotation", .text "other")]

def FeatureType.decoder : Decoder FeatureType := .variant FeatureType.named

def Granularity.decoder : Decoder Granularity := .variant Granularity.named

def FeatureDeclaration.format : RecordFormat FeatureDeclaration where
  blank := {}
  fields := [
    .optionalField "name" Decoder.text fun name record => { record with name },
    .optionalField "description" Decoder.text fun description record => { record with description },
    .optionalField "type" FeatureType.decoder fun featureType record => { record with featureType }]

def MappingDeclaration.format : RecordFormat MappingDeclaration where
  blank := {}
  fields := [
    .optionalField "target_concept" Decoder.text
      fun targetConcept record => { record with targetConcept },
    .optionalField "granularity" Granularity.decoder
      fun granularity record => { record with granularity }]

namespace Annotation

/-- Parts an annotation object into its tag and its other members, which may stand before the tag
and so are held until the tag is known. -/
def splitTag (levels : Nat) :
    List (Option String × Json) → Option String → List (Option String × Json) →
      Except DecodeError (Option String × List (Option String × Json))
  | [], tag, held => .ok (tag, held.reverse)
  | (none, _) :: _, _, _ => .error .malformed
  | (some "annotation", value) :: rest, tag, held =>
      match tag, value with
      | some _, _ => .error (.duplicateField "annotation")
      | none, .string (some tag) => splitTag levels rest (some tag) held
      | none, _ => .error .malformed
  | (some name, value) :: rest, tag, held =>
      if value.holdable levels then splitTag levels rest tag ((some name, value) :: held)
      else .error .malformed

def ofHeldMembers (tag : String) (levels : Nat) (members : List (Option String × Json)) :
    Except DecodeError Annotation :=
  match tag with
  | "feature" => (FeatureDeclaration.format.ofMembers .held levels members).map feature
  | "mapping" => (MappingDeclaration.format.ofMembers .held levels members).map mapping
  | _ => .ok other

def ofHeldItems (tag : String) (levels : Nat) (items : List Json) : Except DecodeError Annotation :=
  match tag, items with
  | "feature", _ =>
      (RecordFormat.storeItems .held levels FeatureDeclaration.format.fields items {}).map feature
  | "mapping", _ =>
      (RecordFormat.storeItems .held levels MappingDeclaration.format.fields items {}).map mapping
  | _, [] => .ok other
  | _, _ :: _ => .error .malformed

def decoder : Decoder Annotation
  | _, levels + 1, .object members => do
      match ← splitTag levels members none [] with
      | (some tag, held) => ofHeldMembers tag levels held
      | (none, _) => .error (.missingField "annotation")
  | _, _ + 1, .array [] => .error (.missingField "annotation")
  | _, levels + 1, .array (.string (some tag) :: items) =>
      if items.all (·.holdable levels) then ofHeldItems tag levels items else .error .malformed
  | _, _, _ => .error .malformed

end Annotation

end FeatureAtlas
