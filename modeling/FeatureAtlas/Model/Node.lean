import FeatureAtlas.Source.Element

/-!
Nodes of a feature model: named concepts at some granularity, and the elements mapped to them.
-/

namespace FeatureAtlas

/-- The identity of a node. The same name at two granularities makes two nodes. -/
structure NodeKey where
  name : String := ""
  granularity : Granularity := .concept
deriving DecidableEq, Repr, Inhabited

def NodeKey.display (key : NodeKey) : String := key.name ++ " [" ++ key.granularity.name ++ "]"

abbrev NodeIndex := Nat

structure FeatureNode where
  key : NodeKey
  members : List ElementRef
  children : List NodeIndex
  parents : List NodeIndex
deriving DecidableEq, Repr, Inhabited

def FeatureNode.new (key : NodeKey) : FeatureNode :=
  { key, members := [], children := [], parents := [] }

/-! The written form of a key. -/

def NodeKey.toJson (key : NodeKey) : Json :=
  .record [("name", .text key.name), ("granularity", .text key.granularity.name)]

def NodeKey.format : RecordFormat NodeKey where
  blank := {}
  fields := [
    .requiredField "name" Decoder.text fun name record => { record with name },
    .requiredField "granularity" Granularity.decoder
      fun granularity record => { record with granularity }]

end FeatureAtlas
