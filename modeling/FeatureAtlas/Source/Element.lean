import FeatureAtlas.Annotation

/-!
Source elements: what a parser reports about a type, field, method or constructor.
-/

namespace FeatureAtlas

inductive ElementKind where
  | type
  | field
  | method
  | constructor
deriving DecidableEq, Repr, Inhabited

namespace ElementKind

def all : List ElementKind := [type, field, method, constructor]

def name : ElementKind → String
  | type => "TYPE"
  | field => "FIELD"
  | method => "METHOD"
  | constructor => "CONSTRUCTOR"

def named : List (String × ElementKind) := all.map fun value => (value.name, value)

end ElementKind

abbrev ElementId := Nat

def showId (id : ElementId) : String := "#" ++ toString id

structure Location where
  file : String := ""
  startLine : UInt32 := 0
  endLine : UInt32 := 0
  startColumn : UInt32 := 0
  endColumn : UInt32 := 0
deriving DecidableEq, Repr, Inhabited

def Location.display (location : Location) : String :=
  location.file ++ ":" ++ toString location.startLine

structure ElementRef where
  id : ElementId := 0
  kind : ElementKind := .type
  qualifiedName : String := ""
  location : Option Location := none
deriving DecidableEq, Repr, Inhabited

def ElementRef.display (element : ElementRef) : String :=
  match element.location with
  | some location => element.qualifiedName ++ " (" ++ location.display ++ ")"
  | none => element.qualifiedName

def addElement (elements : List ElementRef) (element : ElementRef) : List ElementRef :=
  if elements.any fun known => known.id == element.id then elements else elements ++ [element]

/-- An element of a source tree. It names its parent and lists its children by number. -/
structure Element where
  id : ElementId
  kind : ElementKind
  name : String
  qualifiedName : String
  parent : Option ElementId
  children : List ElementId
  annotations : List Annotation
  location : Option Location
deriving DecidableEq, Repr, Inhabited

def Element.toRef (element : Element) : ElementRef :=
  { id := element.id, kind := element.kind, qualifiedName := element.qualifiedName,
    location := element.location }

/-! The written form. -/

def ElementKind.decoder : Decoder ElementKind := .variant ElementKind.named

def Location.toJson (location : Location) : Json :=
  .record [("file", .text location.file), ("start_line", .natural location.startLine.toNat),
    ("end_line", .natural location.endLine.toNat),
    ("start_column", .natural location.startColumn.toNat),
    ("end_column", .natural location.endColumn.toNat)]

def Location.format : RecordFormat Location where
  blank := {}
  fields := [
    .requiredField "file" Decoder.text fun file record => { record with file },
    .requiredField "start_line" Decoder.narrow fun startLine record => { record with startLine },
    .requiredField "end_line" Decoder.narrow fun endLine record => { record with endLine },
    .optionalField "start_column" Decoder.narrow
      fun startColumn record => { record with startColumn },
    .optionalField "end_column" Decoder.narrow fun endColumn record => { record with endColumn }]

def optionalMember {α : Type} (name : String) (toJson : α → Json) (value : Option α) :
    List (String × Json) :=
  match value with
  | some value => [(name, toJson value)]
  | none => []

def ElementRef.toJson (element : ElementRef) : Json :=
  .record ([("id", .natural element.id), ("kind", .text element.kind.name),
    ("qualified_name", .text element.qualifiedName)] ++
    optionalMember "location" Location.toJson element.location)

def ElementRef.format : RecordFormat ElementRef where
  blank := {}
  fields := [
    .requiredField "id" Decoder.wide fun id record => { record with id },
    .requiredField "kind" ElementKind.decoder fun kind record => { record with kind },
    .requiredField "qualified_name" Decoder.text
      fun qualifiedName record => { record with qualifiedName },
    .optionalField "location" (Decoder.optional Location.format.decoder)
      fun location record => { record with location }]

end FeatureAtlas
