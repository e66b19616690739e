import FeatureAtlas.Model.Graph

/-!
Containment cycles, found by a depth-first search over the nodes and their children in order. The
search works off an agenda; an edge that leads to a node on the stack closes a cycle, which is
reported as the closed path from that node to the top of the stack and back.
-/

namespace FeatureAtlas

inductive Mark where
  | unvisited
  | onStack
  | done
deriving DecidableEq, Repr

inductive SearchTask where
  | start (node : NodeIndex)
  | examine (parent child : NodeIndex)
  | leave (node : NodeIndex)
deriving DecidableEq, Repr

/-- What is left to do, the mark of every node, the nodes entered and not yet left, outermost
first, and the cycles found. -/
structure CycleSearch where
  agenda : List SearchTask
  marks : List Mark
  stack : List NodeIndex
  cycles : List (List NodeIndex)
deriving DecidableEq, Repr

/-- The part of the stack from a node to its top, closed by that node; `none` when the node is not
on the stack. -/
def closedPath? (stack : List NodeIndex) (node : NodeIndex) : Option (List NodeIndex) :=
  match stack.dropWhile fun entered => entered != node with
  | [] => none
  | path => some (path ++ [node])

namespace CycleSearch

def begin (model : FeatureModel) : CycleSearch :=
  { agenda := (List.range model.nodes.length).map .start,
    marks := List.replicate model.nodes.length .unvisited, stack := [], cycles := [] }

def markOf (search : CycleSearch) (node : NodeIndex) : Mark :=
  search.marks.getD node .done

def enter (model : FeatureModel) (search : CycleSearch) (node : NodeIndex) : CycleSearch :=
  { search with
    agenda := (model.childIndices node).map (.examine node) ++ .leave node :: search.agenda
    marks := search.marks.set node .onStack
    stack := search.stack ++ [node] }

def leave (search : CycleSearch) (node : NodeIndex) : CycleSearch :=
  { search with marks := search.marks.set node .done, stack := search.stack.dropLast }

def report (search : CycleSearch) (node : NodeIndex) : CycleSearch :=
  { search with cycles := search.cycles ++ (closedPath? search.stack node).toList }

def perform (model : FeatureModel) (search : CycleSearch) : SearchTask → CycleSearch
  | .start node =>
      match search.markOf node with
      | .unvisited => search.enter model node
      | .onStack | .done => search
  | .examine _ child =>
      match search.markOf child with
      | .unvisited => search.enter model child
      | .onStack => search.report child
      | .done => search
  | .leave node => search.leave node

def step? (model : FeatureModel) (search : CycleSearch) : Option CycleSearch :=
  match search.agenda with
  | [] => none
  | task :: rest => some ({ search with agenda := rest }.perform model task)

def unvisited (search : CycleSearch) : Nat := search.marks.count .unvisited

theorem unvisited_enter {model : FeatureModel} {search : CycleSearch} {node : NodeIndex}
    (fresh : search.markOf node = .unvisited) :
    (search.enter model node).unvisited < search.unvisited := by
  rw [markOf, List.getD_eq_getElem?_getD] at fresh
  cases found : search.marks[node]? with
  | none => simp [found] at fresh
  | some mark =>
      simp only [found, Option.getD_some] at fresh
      subst fresh
      obtain ⟨bound, stored⟩ := List.getElem?_eq_some_iff.mp found
      have here : 0 < search.marks.count .unvisited :=
        List.count_pos_iff.mpr (stored ▸ List.getElem_mem bound)
      have gone : (Mark.unvisited == Mark.unvisited) = true := rfl
      have kept : (Mark.onStack == Mark.unvisited) = false := rfl
      simp only [unvisited, enter, List.count_set bound, stored, gone, kept, if_true,
        Bool.false_eq_true, if_false]
      omega

theorem unvisited_leave (search : CycleSearch) (node : NodeIndex) :
    (search.leave node).unvisited ≤ search.unvisited := by
  simp only [unvisited, leave]
  by_cases bound : node < search.marks.length
  · rw [List.count_set bound]
    simp
  · exact Nat.le_of_eq
      (congrArg (List.count _) (List.set_eq_of_length_le (Nat.le_of_not_lt bound)))

theorem step?_decreases {model : FeatureModel} {search next : CycleSearch}
    (stepped : search.step? model = some next) :
    Prod.Lex (· < ·) (· < ·) (next.unvisited, next.agenda.length)
      (search.unvisited, search.agenda.length) := by
  obtain ⟨agenda, marks, stack, cycles⟩ := search
  cases agenda with
  | nil => simp [step?] at stepped
  | cons task rest =>
      simp only [step?, Option.some.injEq] at stepped
      subst stepped
      have shorter : Prod.Lex (· < ·) (· < ·) (marks.count Mark.unvisited, rest.length)
          (marks.count Mark.unvisited, (task :: rest).length) :=
        Prod.Lex.right _ (by simp)
      cases task with
      | start node =>
          simp only [perform]
          split
          · exact Prod.Lex.left _ _ (unvisited_enter ‹_›)
          · exact shorter
          · exact shorter
      | examine parent child =>
          simp only [perform]
          split
          · exact Prod.Lex.left _ _ (unvisited_enter ‹_›)
          · exact shorter
          · exact shorter
      | leave node =>
          simp only [perform]
          rcases Nat.lt_or_eq_of_le
            (unvisited_leave { agenda := rest, marks, stack, cycles } node) with fewer | same
          · exact Prod.Lex.left _ _ fewer
          · rw [same]
            exact shorter

def run (model : FeatureModel) (search : CycleSearch) : CycleSearch :=
  match _stepped : search.step? model with
  | none => search
  | some next => next.run model
termination_by (search.unvisited, search.agenda.length)
decreasing_by exact step?_decreases _stepped

end CycleSearch

/-- The elements that brought about a containment edge: `element` takes part in the child, and
`ancestor`, its nearest mapped ancestor, in the parent. -/
structure EdgeOrigin where
  parent : NodeIndex
  child : NodeIndex
  ancestor : ElementRef
  element : ElementRef
deriving DecidableEq, Repr, Inhabited

/-- The origin of an edge. A later entry replaces an earlier one. -/
def originOf? (origins : List EdgeOrigin) (parent child : NodeIndex) : Option EdgeOrigin :=
  origins.reverse.find? fun origin => origin.parent == parent && origin.child == child

def elementsBehind (origins : List EdgeOrigin) (parent child : NodeIndex) : List ElementRef :=
  match originOf? origins parent child with
  | some origin => [origin.ancestor, origin.element]
  | none => []

def elementsAlong (origins : List EdgeOrigin) (path : List NodeIndex) : List ElementRef :=
  ((path.zip path.tail).flatMap fun (parent, child) => elementsBehind origins parent child).foldl
    addElement []

namespace FeatureModel

def cyclePaths (model : FeatureModel) : List (List NodeIndex) :=
  ((CycleSearch.begin model).run model).cycles

def cycleDiagnostic (model : FeatureModel) (origins : List EdgeOrigin) (path : List NodeIndex) :
    Diagnostic :=
  .cycle (path.map model.keyAt) (elementsAlong origins path)

def detectCycles (model : FeatureModel) (origins : List EdgeOrigin) : List Diagnostic :=
  model.cyclePaths.map (model.cycleDiagnostic origins)

end FeatureModel

end FeatureAtlas
