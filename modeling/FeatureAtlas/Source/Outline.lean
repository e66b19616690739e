import FeatureAtlas.Json.Printer
import FeatureAtlas.Source.Element

/-!
Outlines: the nested descriptions of elements that a parser hands over. The written form of an
outline spends two levels of nesting on each level of elements.
-/

namespace FeatureAtlas

/-- An element with everything nested in it. Without a qualified name of its own it is called by
its parent's qualified name, a dot and its name. -/
structure Outline where
  kind : ElementKind := .type
  name : String := ""
  qualifiedName : Option String := none
  location : Option Location := none
  annotations : List Annotation := []
  children : List Outline := []
deriving Inhabited, Repr

namespace Outline

def new (kind : ElementKind) (name : String) : Outline := { kind, name }

def qualified (outline : Outline) (qualifiedName : String) : Outline :=
  { outline with qualifiedName := some qualifiedName }

def located (outline : Outline) (location : Location) : Outline :=
  { outline with location := some location }

def annotated (outline : Outline) (added : Annotation) : Outline :=
  { outline with annotations := outline.annotations ++ [added] }

def nesting (outline child : Outline) : Outline :=
  { outline with children := outline.children ++ [child] }

mutual

def count : Outline → Nat
  | { children, .. } => countAll children + 1

def countAll : List Outline → Nat
  | [] => 0
  | outline :: rest => outline.count + countAll rest

end

mutual

def levels : Outline → Nat
  | { children, .. } => levelsAll children + 1

def levelsAll : List Outline → Nat
  | [] => 0
  | outline :: rest => max outline.levels (levelsAll rest)

end

end Outline

structure SourceDocument where
  roots : List Outline := []
deriving Inhabited, Repr

/-! The written form. -/

namespace Outline

mutual

def toJson : Outline → Json
  | { kind, name, qualifiedName, location, annotations, children } =>
      .record ([("kind", .text kind.name), ("name", .text name)] ++
        optionalMember "qualified_name" Json.text qualifiedName ++
        optionalMember "location" Location.toJson location ++
        [("metadata", .array (annotations.map Annotation.toJson)),
          ("children", .array (allToJson children))])

def allToJson : List Outline → List Json
  | [] => []
  | outline :: rest => outline.toJson :: allToJson rest

end

def format (children : Decoder (List Outline)) : RecordFormat Outline where
  blank := {}
  fields := [
    .requiredField "kind" ElementKind.decoder fun kind record => { record with kind },
    .requiredField "name" Decoder.text fun name record => { record with name },
    .optionalField "qualified_name" (Decoder.optional Decoder.text)
      fun qualifiedName record => { record with qualifiedName },
    .optionalField "location" (Decoder.optional Location.format.decoder)
      fun location record => { record with location },
    .optionalField "metadata" (Decoder.list Annotation.decoder)
      fun annotations record => { record with annotations },
    .optionalField "children" children fun children record => { record with children }]

/-- An outline takes one level of nesting and its list of children another, so the children are
read with two levels less. -/
def decoder : Decoder Outline
  | source, 0, value => (format fun _ _ _ => .error .malformed).decoder source 0 value
  | source, 1, value => (format fun _ _ _ => .error .malformed).decoder source 1 value
  | source, levels + 2, value =>
      (format fun _ _ children =>
        match children with
        | .array items => items.mapM (decoder source levels)
        | _ => .error .malformed).decoder source (levels + 2) value

end Outline

namespace SourceDocument

def toJson (document : SourceDocument) : Json :=
  .record [("roots", .array (Outline.allToJson document.roots))]

def format : RecordFormat SourceDocument where
  blank := {}
  fields := [
    .requiredField "roots" (Decoder.list Outline.decoder) fun roots record => { record with roots }]

def write (document : SourceDocument) : String := document.toJson.compact

def parse (text : String) : Except DecodeError SourceDocument := decodeText format.decoder text

end SourceDocument

end FeatureAtlas
