import FeatureAtlas.Source.Outline

/-!
Source trees: elements in numbered slots. A tree that is put together by hand may be inconsistent in
every way; one that outlines are put into, one after the other, is not.
-/

namespace FeatureAtlas

structure SourceTree where
  elements : List Element
  roots : List ElementId
deriving DecidableEq, Repr, Inhabited

namespace SourceTree

/-- The element with a given number, provided that it occupies the slot of that number. -/
def get? (tree : SourceTree) (id : ElementId) : Option Element :=
  tree.elements[id]?.filter fun element => element.id == id

def size (tree : SourceTree) : Nat := tree.elements.length

def isEmpty (tree : SourceTree) : Bool := tree.elements.isEmpty

def find? (tree : SourceTree) (qualifiedName : String) : Option Element :=
  tree.elements.find? fun element => element.qualifiedName == qualifiedName

def parentOf? (tree : SourceTree) (element : Element) : Option Element :=
  element.parent.bind tree.get?

def ancestor? (tree : SourceTree) (id : ElementId) : Nat → Option Element
  | 0 => (tree.get? id).bind tree.parentOf?
  | steps + 1 => (tree.ancestor? id steps).bind tree.parentOf?

def ancestorsWithin (tree : SourceTree) : Nat → Element → List Element
  | 0, _ => []
  | steps + 1, element =>
      match tree.parentOf? element with
      | none => []
      | some parent => parent :: tree.ancestorsWithin steps parent

/-- The ancestors of an element, nearest first. A chain of parents that ends passes each slot at
most once, so as many steps as there are slots list all of it. -/
def ancestors (tree : SourceTree) (id : ElementId) : List Element :=
  match tree.get? id with
  | none => []
  | some element => tree.ancestorsWithin tree.size element

def qualify (parentName explicit : Option String) (name : String) : String :=
  match explicit, parentName with
  | some explicit, _ => explicit
  | none, some parentName => parentName ++ "." ++ name
  | none, none => name

def nameAt? (tree : SourceTree) (slot : Option ElementId) : Option String :=
  slot.bind fun id => tree.elements[id]?.map Element.qualifiedName

def adopt (tree : SourceTree) (parent child : ElementId) : SourceTree :=
  { tree with elements := tree.elements.modify parent fun element =>
      { element with children := element.children ++ [child] } }

mutual

/-- Puts an outline behind the elements that are there: itself into the next slot, and behind it
what is nested in it. -/
def push (parent : Option ElementId) (tree : SourceTree) : Outline → SourceTree × ElementId
  | { kind, name, qualifiedName, location, annotations, children } =>
      let id := tree.elements.length
      let element : Element :=
        { id, kind, name, qualifiedName := qualify (tree.nameAt? parent) qualifiedName name, parent,
          children := [], annotations, location }
      (pushAll id { tree with elements := tree.elements ++ [element] } children, id)

def pushAll (parent : ElementId) (tree : SourceTree) : List Outline → SourceTree
  | [] => tree
  | outline :: rest =>
      let (grown, child) := push (some parent) tree outline
      pushAll parent (grown.adopt parent child) rest

end

def pushRoot (tree : SourceTree) (outline : Outline) : SourceTree :=
  let (grown, root) := push none tree outline
  { grown with roots := grown.roots ++ [root] }

def ofOutlines (outlines : List Outline) : SourceTree :=
  outlines.foldl pushRoot { elements := [], roots := [] }

def ofDocument (document : SourceDocument) : SourceTree := ofOutlines document.roots

end SourceTree

end FeatureAtlas
