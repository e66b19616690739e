import FeatureAtlas.Model.Graph

/-!
The nested view of a model: a forest in which every containment edge shows once. A node is expanded
where it is first reached; its later occurrences are leaves that say whether they close a cycle or
only repeat.
-/

namespace FeatureAtlas

structure Occurrence where
  key : NodeKey := {}
  memberCount : Nat := 0
  children : List Occurrence := []
  cycle : Bool := false
  repeated : Bool := false
deriving Inhabited, Repr

namespace Occurrence

mutual

def preorder (depth : Nat) : Occurrence → List (Nat × Occurrence)
  | { key, memberCount, children, cycle, repeated } =>
      (depth, { key, memberCount, children, cycle, repeated }) ::
        preorderAll (depth + 1) children

def preorderAll (depth : Nat) : List Occurrence → List (Nat × Occurrence)
  | [] => []
  | occurrence :: rest => occurrence.preorder depth ++ preorderAll depth rest

end

end Occurrence

namespace FeatureModel

def leafAt (model : FeatureModel) (index : NodeIndex) (cycle repeated : Bool) : Occurrence :=
  { key := model.keyAt index
    memberCount := ((model.nodes[index]?).map fun node => node.members.length).getD 0
    children := [], cycle, repeated }

/-- The occurrence of a node below the nodes of `path`, and the nodes expanded by then. Each
expansion expands a further node, so as many levels as there are nodes suffice. -/
def expand (model : FeatureModel) :
    Nat → List NodeIndex → List NodeIndex → NodeIndex → Occurrence × List NodeIndex
  | levels, path, expanded, index =>
      if path.contains index then (model.leafAt index true false, expanded)
      else if expanded.contains index then (model.leafAt index false true, expanded)
      else
        match levels with
        | 0 => (model.leafAt index false false, expanded)
        | levels + 1 =>
            let (children, expanded) := (model.childIndices index).foldl
              (fun (children, expanded) child =>
                let (occurrence, expanded) := model.expand levels (index :: path) expanded child
                (children ++ [occurrence], expanded))
              ([], index :: expanded)
            ({ model.leafAt index false false with children }, expanded)

def expandTop (model : FeatureModel) (skip : List NodeIndex → NodeIndex → Bool)
    (view : List Occurrence × List NodeIndex) (index : NodeIndex) :
    List Occurrence × List NodeIndex :=
  if skip view.2 index then view
  else
    let (occurrence, expanded) := model.expand model.nodes.length [] view.2 index
    (view.1 ++ [occurrence], expanded)

def isNested (model : FeatureModel) (index : NodeIndex) : Bool :=
  (model.nodes[index]?.map fun node => !node.parents.isEmpty).getD true

/-- The nested view starts from the nodes that nothing contains; nodes that only a cycle leads to
come after them, so that nothing is dropped. -/
def nestedView (model : FeatureModel) : List Occurrence :=
  let indices := List.range model.nodes.length
  let rooted := indices.foldl (model.expandTop fun _ index => model.isNested index) ([], [])
  (indices.foldl (model.expandTop fun expanded index => expanded.contains index) rooted).1

end FeatureModel

/-! The written form. -/

namespace Occurrence

mutual

def toJson : Occurrence → Json
  | { key, memberCount, children, cycle, repeated } =>
      .record [("key", key.toJson), ("member_count", .natural memberCount),
        ("children", .array (allToJson children)), ("cycle", .bool cycle),
        ("repeated", .bool repeated)]

def allToJson : List Occurrence → List Json
  | [] => []
  | occurrence :: rest => occurrence.toJson :: allToJson rest

end

def format (children : Decoder (List Occurrence)) : RecordFormat Occurrence where
  blank := {}
  fields := [
    .requiredField "key" NodeKey.format.decoder fun key record => { record with key },
    .requiredField "member_count" Decoder.wide
      fun memberCount record => { record with memberCount },
    .requiredField "children" children fun children record => { record with children },
    .optionalField "cycle" Decoder.flag fun cycle record => { record with cycle },
    .optionalField "repeated" Decoder.flag fun repeated record => { record with repeated }]

def decoder : Decoder Occurrence
  | source, 0, value => (format fun _ _ _ => .error .malformed).decoder source 0 value
  | source, 1, value => (format fun _ _ _ => .error .malformed).decoder source 1 value
  | source, levels + 2, value =>
      (format fun _ _ children =>
        match children with
        | .array items => items.mapM (decoder source levels)
        | _ => .error .malformed).decoder source (levels + 2) value

end Occurrence

end FeatureAtlas
