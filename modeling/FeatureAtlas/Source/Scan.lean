import FeatureAtlas.Source.Tree

/-!
Scanning a source tree from its roots. The walk works off an agenda of links to follow: a link to
an element is checked against what the walk has seen, then the element is entered and the links to
its children come next. Scanning ends on every tree because each link that is followed enters an
element for the first time.
-/

namespace FeatureAtlas

inductive ScanError where
  | unknownRoot (root : ElementId)
  | unknownElement (parent child : ElementId)
  | containmentCycle (element : ElementId)
  | sharedChild (element : ElementId)
  | parentMismatch (element : ElementId) (expected found : Option ElementId)
deriving DecidableEq, Repr

def showParent : Option ElementId → String
  | none => "None"
  | some id => "Some(ElementId(" ++ toString id ++ "))"

def ScanError.message : ScanError → String
  | .unknownRoot root => "Root " ++ showId root ++ " does not exist in the source tree"
  | .unknownElement parent child =>
      "Element " ++ showId parent ++ " lists child " ++ showId child ++ ", which does not exist"
  | .containmentCycle element =>
      "Element " ++ showId element ++ " contains itself through its children"
  | .sharedChild element => "Element " ++ showId element ++ " is nested under more than one parent"
  | .parentMismatch element expected found =>
      "Element " ++ showId element ++ " names parent " ++ showParent found ++
        " but is nested under " ++ showParent expected

structure ScanPair where
  element : Element
  declared : Annotation
deriving DecidableEq, Repr

inductive Link where
  | root (target : ElementId)
  | child (holder target : ElementId)
deriving DecidableEq, Repr

namespace Link

def target : Link → ElementId
  | root target => target
  | child _ target => target

def holder : Link → Option ElementId
  | root _ => none
  | child holder _ => some holder

end Link

inductive Errand where
  | follow (link : Link)
  | leave
deriving DecidableEq, Repr

/-- How far a scan has come: the elements entered so far, in order, those entered and not yet
left, innermost first, and the declarations found. -/
structure Walk where
  visited : List ElementId
  path : List ElementId
  pairs : List ScanPair
deriving DecidableEq, Repr

def Element.pairs (element : Element) : List ScanPair :=
  (element.annotations.filter Annotation.isDeclaration).map fun declared =>
    { element, declared }

namespace Walk

def start : Walk := { visited := [], path := [], pairs := [] }

def enter (walk : Walk) (element : Element) : Walk :=
  { visited := walk.visited ++ [element.id], path := element.id :: walk.path,
    pairs := walk.pairs ++ element.pairs }

def leave (walk : Walk) : Walk := { walk with path := walk.path.tail }

end Walk

def Element.errands (element : Element) : List Errand :=
  element.children.map (fun child => .follow (.child element.id child)) ++ [.leave]

namespace SourceTree

/-- The element that a link leads to, if it is there, has not been entered before and names the
holder of the link as its parent. -/
def accept (tree : SourceTree) (walk : Walk) : Link → Except ScanError Element
  | .root target =>
      match tree.get? target with
      | none => .error (.unknownRoot target)
      | some element =>
          if element.parent.isSome then .error (.parentMismatch target none element.parent)
          else if target ∈ walk.visited then .error (.sharedChild target)
          else .ok element
  | .child holder target =>
      match tree.get? target with
      | none => .error (.unknownElement holder target)
      | some element =>
          if target ∈ walk.path then .error (.containmentCycle target)
          else if target ∈ walk.visited then .error (.sharedChild target)
          else if element.parent ≠ some holder then
            .error (.parentMismatch target (some holder) element.parent)
          else .ok element

def unvisited (tree : SourceTree) (walk : Walk) : Nat :=
  (List.range tree.size).countP fun id => id ∉ walk.visited

theorem get?_id {tree : SourceTree} {id : ElementId} {element : Element}
    (found : tree.get? id = some element) : element.id = id ∧ id < tree.size := by
  simp only [get?, Option.filter_eq_some_iff, beq_iff_eq] at found
  exact ⟨found.2, (List.getElem?_eq_some_iff.mp found.1).1⟩

theorem accept_get? {tree : SourceTree} {walk : Walk} {link : Link} {element : Element}
    (accepted : tree.accept walk link = .ok element) :
    tree.get? link.target = some element ∧ element.parent = link.holder ∧
      link.target ∉ walk.visited := by
  cases link with
  | root target =>
      simp only [accept] at accepted
      split at accepted
      · simp at accepted
      · rename_i found stored
        split at accepted
        · simp at accepted
        · split at accepted
          · simp at accepted
          · rename_i orphan fresh
            simp only [Except.ok.injEq] at accepted
            subst accepted
            exact ⟨stored, by simpa [Link.holder] using orphan, fresh⟩
  | child holder target =>
      simp only [accept] at accepted
      split at accepted
      · simp at accepted
      · rename_i found stored
        split at accepted
        · simp at accepted
        · split at accepted
          · simp at accepted
          · split at accepted
            · simp at accepted
            · rename_i fresh named
              simp only [Except.ok.injEq] at accepted
              subst accepted
              exact ⟨stored, by simpa [Link.holder] using named, fresh⟩

theorem countP_lt_of_imp {α : Type} {fewer more : α → Bool} {items : List α}
    (weaker : ∀ item, fewer item = true → more item = true) {witness : α}
    (member : witness ∈ items) (gained : more witness = true) (lost : fewer witness = false) :
    items.countP fewer < items.countP more := by
  induction items with
  | nil => simp at member
  | cons head tail ih =>
      have tailLe := List.countP_mono_left (p := fewer) (q := more) (l := tail)
        fun item _ holds => weaker item holds
      rcases List.mem_cons.mp member with same | member
      · subst same
        simp only [List.countP_cons, gained, lost]
        simp
        omega
      · have tailLt := ih member
        have headLe : (if fewer head then 1 else 0) ≤ (if more head then 1 else 0) := by
          by_cases holds : fewer head = true
          · simp [holds, weaker head holds]
          · simp [holds]
        simp only [List.countP_cons]
        omega

theorem unvisited_enter {tree : SourceTree} {walk : Walk} {link : Link} {element : Element}
    (accepted : tree.accept walk link = .ok element) :
    tree.unvisited (walk.enter element) < tree.unvisited walk := by
  obtain ⟨stored, _, fresh⟩ := accept_get? accepted
  obtain ⟨same, bound⟩ := get?_id stored
  refine countP_lt_of_imp ?_ (List.mem_range.mpr bound) ?_ ?_
  · intro id unseen
    simp only [Walk.enter, List.mem_append, List.mem_singleton, not_or, decide_eq_true_eq] at unseen
    simpa using unseen.1
  · simpa using fresh
  · simp [Walk.enter, same]

def run (tree : SourceTree) : List Errand → Walk → Except ScanError Walk
  | [], walk => .ok walk
  | .leave :: rest, walk => tree.run rest walk.leave
  | .follow link :: rest, walk =>
      match _accepted : tree.accept walk link with
      | .error error => .error error
      | .ok element => tree.run (element.errands ++ rest) (walk.enter element)
termination_by agenda walk => (tree.unvisited walk, agenda.length)
decreasing_by
  · apply Prod.Lex.right
    simp
  · apply Prod.Lex.left
    exact unvisited_enter _accepted

end SourceTree

structure Scan where
  tree : SourceTree
  visited : List ElementId
  pairs : List ScanPair
deriving Repr

namespace Scan

def elementCount (scan : Scan) : Nat := scan.visited.length

def isEmpty (scan : Scan) : Bool := scan.pairs.isEmpty

def journal (scan : Scan) : List JournalEvent :=
  [.debug ("Scanned " ++ toString scan.elementCount ++ " elements, " ++
    toString scan.pairs.length ++ " metadata instances")]

def toJson (scan : Scan) : Json :=
  .array (scan.pairs.map fun pair =>
    .record [("element", pair.element.toRef.toJson),
      ("parent", (pair.element.parent.map Json.natural).getD .null),
      ("metadata", pair.declared.toJson)])

end Scan

namespace SourceTree

def scanRoots (tree : SourceTree) (roots : List ElementId) : Except ScanError Scan := do
  let walk ← tree.run (roots.map fun root => .follow (.root root)) .start
  return { tree, visited := walk.visited, pairs := walk.pairs }

def scan (tree : SourceTree) : Except ScanError Scan := tree.scanRoots tree.roots

end SourceTree

end FeatureAtlas
