import FeatureAtlas.Source.Scan
import FeatureAtlas.Model.Cycles

/-!
Assembling the feature model of a scan. Declarations come first, in scan order; then every placed
element is linked below the nodes of its nearest placed ancestor; then the cycles are reported. A
problem becomes a diagnostic and never stops the assembly.
-/

namespace FeatureAtlas

/-- A model in the making. Beside it are kept the name of the feature of each element that has one,
the nodes that each mapped element takes part in, the mapped elements in the order of their first
mapping, the origins of the edges, and what was reported. -/
structure Assembly where
  model : FeatureModel := {}
  declared : Dictionary ElementId String := {}
  mapped : Dictionary ElementId (List NodeIndex) := {}
  mappedOrder : List ElementId := []
  origins : List EdgeOrigin := []
  journal : List JournalEvent := []
deriving Repr, Inhabited

def MappingDeclaration.key (declaration : MappingDeclaration) : NodeKey :=
  { name := declaration.targetConcept, granularity := declaration.granularity }

namespace Assembly

def note (assembly : Assembly) (event : JournalEvent) : Assembly :=
  { assembly with journal := assembly.journal ++ [event] }

def report (assembly : Assembly) (diagnostic : Diagnostic) : Assembly :=
  { assembly.note (.warn diagnostic.display) with
    model := assembly.model.addDiagnostic diagnostic }

def declareFeature (assembly : Assembly) (element : Element) (declaration : FeatureDeclaration) :
    Assembly :=
  if isBlank declaration.name then assembly.report (.emptyFeatureName element.toRef)
  else
    match assembly.declared.get? element.id with
    | some kept => assembly.report (.duplicateFeature element.toRef kept declaration.name)
    | none =>
        { assembly.note (.debug ("Feature '" ++ declaration.name ++ "' declared on " ++
            element.qualifiedName)) with
          model := assembly.model.addFeature { element := element.toRef, declaration }
          declared := assembly.declared.put element.id declaration.name }

def resolve (assembly : Assembly) (key : NodeKey) : NodeIndex × Assembly :=
  match assembly.model.indexOf? key with
  | some index => (index, assembly)
  | none =>
      (assembly.model.nodes.length,
        { assembly.note (.debug ("Created node " ++ key.display)) with
          model := assembly.model.addNode key })

def join (assembly : Assembly) (element : Element) (index : NodeIndex) : Assembly :=
  let nodes := (assembly.mapped.get? element.id).getD []
  { assembly with
    model := assembly.model.addMember index element.toRef
    mapped := assembly.mapped.put element.id
      (if nodes.contains index then nodes else nodes ++ [index])
    mappedOrder :=
      if assembly.mapped.contains element.id then assembly.mappedOrder
      else assembly.mappedOrder ++ [element.id] }

def declareMapping (assembly : Assembly) (element : Element) (declaration : MappingDeclaration) :
    Assembly :=
  if isBlank declaration.targetConcept then assembly.report (.emptyMappingName element.toRef)
  else
    let (index, resolved) := assembly.resolve declaration.key
    resolved.join element index

def declare (assembly : Assembly) (pair : ScanPair) : Assembly :=
  match pair.declared with
  | .feature declaration => assembly.declareFeature pair.element declaration
  | .mapping declaration => assembly.declareMapping pair.element declaration
  | .other => assembly

end Assembly

/-- An edge to be tried: `element` takes part in the child, `ancestor` in the parent. -/
structure LinkAttempt where
  parent : NodeIndex
  child : NodeIndex
  ancestor : Element
  element : Element
deriving DecidableEq, Repr

/-- The nearest ancestor of an element that takes part in nodes, and these. Ancestors that take part
in none are passed over, and nothing beyond the nearest one counts. -/
def nearestPlaced? (tree : SourceTree) (nodesOf? : ElementId → Option (List NodeIndex))
    (element : ElementId) : Option (Element × List NodeIndex) :=
  (tree.ancestors element).findSome? fun ancestor =>
    (nodesOf? ancestor.id).map fun nodes => (ancestor, nodes)

def attemptsFor (tree : SourceTree) (nodesOf? : ElementId → Option (List NodeIndex))
    (id : ElementId) : List LinkAttempt :=
  match tree.get? id, nodesOf? id, nearestPlaced? tree nodesOf? id with
  | some element, some nodes, some (ancestor, above) =>
      nodes.flatMap fun child => above.map fun parent => { parent, child, ancestor, element }
  | _, _, _ => []

def linkAttempts (tree : SourceTree) (nodesOf? : ElementId → Option (List NodeIndex))
    (order : List ElementId) : List LinkAttempt :=
  order.flatMap (attemptsFor tree nodesOf?)

namespace Assembly

/-- Adds an edge unless it is there. The first attempt that adds it is its origin. -/
def connect (assembly : Assembly) (attempt : LinkAttempt) : Assembly :=
  if assembly.model.hasEdge attempt.parent attempt.child then assembly
  else
    { assembly.note (.debug ("Linked " ++ (assembly.model.keyAt attempt.parent).display ++
        " -> " ++ (assembly.model.keyAt attempt.child).display)) with
      model := assembly.model.addEdge attempt.parent attempt.child
      origins := assembly.origins ++
        [{ parent := attempt.parent, child := attempt.child,
           ancestor := attempt.ancestor.toRef, element := attempt.element.toRef }] }

/-- Follows up an attempt. An element that is nested in its own node adds nothing, and a level that
cannot contain the other is reported. -/
def link (assembly : Assembly) (attempt : LinkAttempt) : Assembly :=
  let parentKey := assembly.model.keyAt attempt.parent
  let childKey := assembly.model.keyAt attempt.child
  if attempt.parent = attempt.child then assembly
  else if parentKey.granularity.canContain childKey.granularity then assembly.connect attempt
  else
    assembly.report
      (.unresolvedParent attempt.ancestor.toRef attempt.element.toRef parentKey childKey)

def declareAll (assembly : Assembly) (pairs : List ScanPair) : Assembly :=
  pairs.foldl declare assembly

def linkAll (assembly : Assembly) (attempts : List LinkAttempt) : Assembly :=
  attempts.foldl link assembly

def reportAll (assembly : Assembly) (diagnostics : List Diagnostic) : Assembly :=
  diagnostics.foldl report assembly

def contain (assembly : Assembly) (tree : SourceTree) : Assembly :=
  assembly.linkAll (linkAttempts tree assembly.mapped.get? assembly.mappedOrder)

def reportCycles (assembly : Assembly) : Assembly :=
  assembly.reportAll (assembly.model.detectCycles assembly.origins)

def summary (assembly : Assembly) : JournalEvent :=
  .info ("Built feature model: " ++ toString assembly.model.nodes.length ++ " nodes, " ++
    toString assembly.model.edgeCount ++ " edges, " ++
    toString assembly.model.features.length ++ " features, " ++
    toString assembly.model.diagnostics.length ++ " diagnostics")

def ofScan (scan : Scan) : Assembly :=
  ((({} : Assembly).declareAll scan.pairs).contain scan.tree).reportCycles

end Assembly

namespace Scan

def build (scan : Scan) : FeatureModel := (Assembly.ofScan scan).model

def buildJournal (scan : Scan) : List JournalEvent :=
  let assembly := Assembly.ofScan scan
  assembly.journal ++ [assembly.summary]

end Scan

end FeatureAtlas
