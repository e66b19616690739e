import FeatureAtlas.Store.Snapshot

/-!
Loading the document of a snapshot. It is first looked up whether the snapshot is there, then its
rows are read. Members and edges name their nodes by position in the list of nodes as it was read.
-/

namespace FeatureAtlas

inductive StoreError where
  | database (cause : DatabaseError)
  | unrecognizedValue (value : String)
  | missingNode (position : Nat)
  | unreadableElements (cause : DecodeError)
deriving DecidableEq, Repr

namespace StoreError

def message? : StoreError → Option String
  | .database (.unknownNode name) => some ("Edge to unknown node " ++ name)
  | .unrecognizedValue value => some ("Unrecognized stored value '" ++ value ++ "'")
  | .missingNode position => some ("Stored edge points at missing node " ++ toString position)
  | .database _ | .unreadableElements _ => none

end StoreError

def readNamed {α : Type} (ofName? : String → Option α) (value : String) : Except StoreError α :=
  match ofName? value with
  | some found => .ok found
  | none => .error (.unrecognizedValue value)

namespace Database

def partRows {α : Type} (database : Database) (id : SnapshotId) (name : String)
    (order columns : List String) (read : Row → Except DatabaseError α) :
    Except StoreError (List α) := do
  let rows : Except DatabaseError (List α) := do
    (← database.table name).requireColumns columns
    (← database.select name [("snapshot_id", .text id)] order).mapM read
  rows.mapError .database

def readNodes (database : Database) (id : SnapshotId) : Except StoreError (List NodeRecord) := do
  let rows ← database.partRows id "nodes" ["position"] ["name", "granularity"] fun row => do
    return (← (row.cell "name").readText, ← (row.cell "granularity").readText)
  rows.mapM fun (name, granularity) => do
    return { name, granularity := ← readNamed Granularity.ofName? granularity }

def addMembers (nodes : List NodeRecord) (members : List (Nat × String)) : List NodeRecord :=
  members.foldl (fun nodes (position, member) =>
    nodes.modify position fun node =>
      { node with memberElements := node.memberElements ++ [member] }) nodes

def readMembers (database : Database) (id : SnapshotId) (nodes : List NodeRecord) :
    Except StoreError (List NodeRecord) := do
  let members ← database.partRows id "node_members" ["node_position", "position"]
    ["node_position", "qualified_name"] fun row => do
      return (← (row.cell "node_position").readNatural, ← (row.cell "qualified_name").readText)
  return addMembers nodes members

/-- Adds an edge. The child has to be in the list of nodes; where the parent is not, the edge is
passed over. -/
def addChild (nodes : List NodeRecord) (parent child : Nat) :
    Except StoreError (List NodeRecord) :=
  match nodes[child]? with
  | none => .error (.missingNode child)
  | some target =>
      .ok (nodes.modify parent fun node => { node with children := node.children ++ [target.key] })

def readEdges (database : Database) (id : SnapshotId) (nodes : List NodeRecord) :
    Except StoreError (List NodeRecord) := do
  let edges ← database.partRows id "edges" ["parent_position", "position"]
    ["parent_position", "child_position"] fun row => do
      return (← (row.cell "parent_position").readNatural,
        ← (row.cell "child_position").readNatural)
  edges.foldlM (fun nodes (parent, child) => addChild nodes parent child) nodes

structure FeatureTexts where
  element : String
  name : String
  description : String
  featureType : String

def readFeatures (database : Database) (id : SnapshotId) :
    Except StoreError (List FeatureRecord) := do
  let rows ← database.partRows id "features" ["position"]
    ["element", "name", "description", "feature_type"] fun row => do
      return ({ element := ← (row.cell "element").readText
                name := ← (row.cell "name").readText
                description := ← (row.cell "description").readText
                featureType := ← (row.cell "feature_type").readText } : FeatureTexts)
  rows.mapM fun { element, name, description, featureType } => do
    return { element, name, description
             featureType := ← readNamed FeatureType.ofName? featureType }

structure DiagnosticTexts where
  kind : String
  severity : String
  message : String
  elements : String

def readDiagnostics (database : Database) (id : SnapshotId) :
    Except StoreError (List DiagnosticRecord) := do
  let rows ← database.partRows id "diagnostics" ["position"]
    ["kind", "severity", "message", "elements"] fun row => do
      return ({ kind := ← (row.cell "kind").readText
                severity := ← (row.cell "severity").readText
                message := ← (row.cell "message").readText
                elements := ← (row.cell "elements").readText } : DiagnosticTexts)
  rows.mapM fun { kind, severity, message, elements } => do
    let kind ← readNamed DiagnosticKind.ofName? kind
    let severity ← readNamed Severity.ofName? severity
    let elements ←
      (decodeText (Decoder.list Decoder.text) elements).mapError StoreError.unreadableElements
    return { kind, severity, message, elements }

def readDocument (database : Database) (id : SnapshotId) : Except StoreError ModelDocument := do
  let nodes ← database.readNodes id
  let nodes ← database.readMembers id nodes
  let nodes ← database.readEdges id nodes
  let features ← database.readFeatures id
  let diagnostics ← database.readDiagnostics id
  return { nodes, features, diagnostics }

def loadDocument (database : Database) (id : SnapshotId) :
    Except StoreError (Option ModelDocument) := do
  match ← (database.getSnapshot? id).mapError StoreError.database with
  | none => return none
  | some _ => return some (← database.readDocument id)

end Database

end FeatureAtlas
