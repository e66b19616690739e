import Mathlib.Logic.Relation
import FeatureAtlas.Model.Cycles

/-!
The cycle search as a descent through nodes. Each node on the stack is visited: some of its
children are examined and the others are still to come. Agenda and stack of the search can be read
off the visits, and the steps of the search are moves on them.
-/

namespace FeatureAtlas

/-- A node on the stack with its children, those examined and those to come. -/
structure Visit where
  node : NodeIndex
  examined : List NodeIndex
  pending : List NodeIndex
deriving DecidableEq, Repr

def Visit.tasks (visit : Visit) : List SearchTask :=
  visit.pending.map (.examine visit.node) ++ [.leave visit.node]

def markIn (marks : List Mark) (node : NodeIndex) : Mark := marks.getD node .done

theorem CycleSearch.markOf_eq (search : CycleSearch) (node : NodeIndex) :
    search.markOf node = markIn search.marks node := rfl

/-- The visits, innermost first, the nodes to start from when there is none left, the marks and the
cycles found. -/
structure Descent where
  visits : List Visit
  starts : List NodeIndex
  marks : List Mark
  cycles : List (List NodeIndex)
deriving DecidableEq, Repr

namespace Descent

def nodes (descent : Descent) : List NodeIndex := descent.visits.map Visit.node

def markOf (descent : Descent) (node : NodeIndex) : Mark := markIn descent.marks node

def search (descent : Descent) : CycleSearch :=
  { agenda := descent.visits.flatMap Visit.tasks ++ descent.starts.map .start
    marks := descent.marks
    stack := descent.nodes.reverse
    cycles := descent.cycles }

def begin (model : FeatureModel) : Descent :=
  { visits := [], starts := List.range model.nodes.length,
    marks := List.replicate model.nodes.length .unvisited, cycles := [] }

theorem search_begin (model : FeatureModel) : (begin model).search = CycleSearch.begin model := rfl

def enter (model : FeatureModel) (descent : Descent) (node : NodeIndex) : Descent :=
  { descent with
    visits := { node, examined := [], pending := model.childIndices node } :: descent.visits
    marks := descent.marks.set node .onStack }

inductive Move (model : FeatureModel) : Descent → Descent → Prop
  | start {node : NodeIndex} {starts : List NodeIndex} {marks : List Mark}
      {cycles : List (List NodeIndex)} : markIn marks node = .unvisited →
      Move model ⟨[], node :: starts, marks, cycles⟩ (enter model ⟨[], starts, marks, cycles⟩ node)
  | pass {node : NodeIndex} {starts : List NodeIndex} {marks : List Mark}
      {cycles : List (List NodeIndex)} : markIn marks node ≠ .unvisited →
      Move model ⟨[], node :: starts, marks, cycles⟩ ⟨[], starts, marks, cycles⟩
  | descend {node child : NodeIndex} {examined pending : List NodeIndex} {below : List Visit}
      {starts : List NodeIndex} {marks : List Mark} {cycles : List (List NodeIndex)} :
      markIn marks child = .unvisited →
      Move model ⟨⟨node, examined, child :: pending⟩ :: below, starts, marks, cycles⟩
        (enter model ⟨⟨node, examined ++ [child], pending⟩ :: below, starts, marks, cycles⟩ child)
  | report {node child : NodeIndex} {examined pending : List NodeIndex} {below : List Visit}
      {starts : List NodeIndex} {marks : List Mark} {cycles : List (List NodeIndex)} :
      markIn marks child = .onStack →
      Move model ⟨⟨node, examined, child :: pending⟩ :: below, starts, marks, cycles⟩
        ⟨⟨node, examined ++ [child], pending⟩ :: below, starts, marks,
          cycles ++ (closedPath? (node :: below.map Visit.node).reverse child).toList⟩
  | skip {node child : NodeIndex} {examined pending : List NodeIndex} {below : List Visit}
      {starts : List NodeIndex} {marks : List Mark} {cycles : List (List NodeIndex)} :
      markIn marks child = .done →
      Move model ⟨⟨node, examined, child :: pending⟩ :: below, starts, marks, cycles⟩
        ⟨⟨node, examined ++ [child], pending⟩ :: below, starts, marks, cycles⟩
  | leave {node : NodeIndex} {examined : List NodeIndex} {below : List Visit}
      {starts : List NodeIndex} {marks : List Mark} {cycles : List (List NodeIndex)} :
      Move model ⟨⟨node, examined, []⟩ :: below, starts, marks, cycles⟩
        ⟨below, starts, marks.set node .done, cycles⟩

theorem Move.step? {model : FeatureModel} {descent next : Descent}
    (move : Move model descent next) : descent.search.step? model = some next.search := by
  cases move with
  | start fresh =>
      simp [CycleSearch.step?, search, CycleSearch.perform, CycleSearch.markOf_eq, fresh,
        CycleSearch.enter, enter, nodes, Visit.tasks]
  | @pass node _ marks _ known =>
      cases mark : markIn marks node with
      | unvisited => exact absurd mark known
      | onStack =>
          simp [CycleSearch.step?, search, CycleSearch.perform, CycleSearch.markOf_eq, mark, nodes]
      | done =>
          simp [CycleSearch.step?, search, CycleSearch.perform, CycleSearch.markOf_eq, mark, nodes]
  | descend fresh =>
      simp [CycleSearch.step?, search, Visit.tasks, CycleSearch.perform, CycleSearch.markOf_eq,
        fresh, CycleSearch.enter, enter, nodes]
  | report onStack =>
      simp [CycleSearch.step?, search, Visit.tasks, CycleSearch.perform, CycleSearch.markOf_eq,
        onStack, CycleSearch.report, nodes]
  | skip done =>
      simp [CycleSearch.step?, search, Visit.tasks, CycleSearch.perform, CycleSearch.markOf_eq,
        done, nodes]
  | leave =>
      simp [CycleSearch.step?, search, CycleSearch.perform, CycleSearch.leave, nodes, Visit.tasks]

theorem exists_move (model : FeatureModel) (descent : Descent) :
    (descent.visits = [] ∧ descent.starts = []) ∨ ∃ next, Move model descent next := by
  obtain ⟨visits, starts, marks, cycles⟩ := descent
  cases visits with
  | nil =>
      cases starts with
      | nil => exact .inl ⟨rfl, rfl⟩
      | cons node starts =>
          right
          by_cases fresh : markIn marks node = .unvisited
          · exact ⟨_, .start fresh⟩
          · exact ⟨_, .pass fresh⟩
  | cons visit below =>
      right
      obtain ⟨node, examined, pending⟩ := visit
      cases pending with
      | nil => exact ⟨_, .leave⟩
      | cons child pending =>
          cases mark : markIn marks child with
          | unvisited => exact ⟨_, .descend mark⟩
          | onStack => exact ⟨_, .report mark⟩
          | done => exact ⟨_, .skip mark⟩

theorem exists_move_of_step {model : FeatureModel} {descent : Descent} {search : CycleSearch}
    (stepped : descent.search.step? model = some search) :
    ∃ next, Move model descent next ∧ next.search = search := by
  rcases exists_move model descent with ⟨noVisit, noStart⟩ | ⟨next, move⟩
  · simp [Descent.search, noVisit, noStart, CycleSearch.step?] at stepped
  · exact ⟨next, move, Option.some.inj (move.step?.symm.trans stepped)⟩

def Moves (model : FeatureModel) : Descent → Descent → Prop :=
  Relation.ReflTransGen (Move model)

end Descent

namespace CycleSearch

def Steps (model : FeatureModel) : CycleSearch → CycleSearch → Prop :=
  Relation.ReflTransGen fun search next => search.step? model = some next

theorem run_of_step {model : FeatureModel} {search next : CycleSearch}
    (stepped : search.step? model = some next) : search.run model = next.run model := by
  rw [run]
  split
  · rename_i ended
    simp [ended] at stepped
  · rename_i after stepped'
    rw [Option.some.inj (stepped'.symm.trans stepped)]

theorem run_of_steps {model : FeatureModel} {search last : CycleSearch}
    (steps : Steps model search last) : search.run model = last.run model := by
  induction steps with
  | refl => rfl
  | tail _ stepped ih => exact ih.trans (run_of_step stepped)

end CycleSearch

namespace Descent

variable {model : FeatureModel}

theorem exists_moves_of_steps {descent : Descent} {search : CycleSearch}
    (steps : CycleSearch.Steps model descent.search search) :
    ∃ last, Moves model descent last ∧ last.search = search := by
  induction steps with
  | refl => exact ⟨descent, .refl, rfl⟩
  | tail _ stepped ih =>
      obtain ⟨middle, moves, rfl⟩ := ih
      obtain ⟨next, move, described⟩ := exists_move_of_step stepped
      exact ⟨next, moves.tail move, described⟩

theorem Moves.steps {descent last : Descent} (moves : Moves model descent last) :
    CycleSearch.Steps model descent.search last.search := by
  induction moves with
  | refl => exact .refl
  | tail _ move ih => exact ih.tail move.step?

theorem exists_moves_run (descent : Descent) :
    ∃ last, Moves model descent last ∧ last.visits = [] ∧ last.starts = [] ∧
      descent.search.run model = last.search := by
  generalize described : descent.search = search
  induction search using CycleSearch.run.induct model generalizing descent with
  | case1 search ended =>
      subst described
      rcases exists_move model descent with ⟨noVisit, noStart⟩ | ⟨next, move⟩
      · refine ⟨descent, .refl, noVisit, noStart, ?_⟩
        rw [CycleSearch.run]
        split
        · rfl
        · simp_all
      · simp [move.step?] at ended
  | case2 search next stepped ih =>
      subst described
      obtain ⟨after, move, described⟩ := exists_move_of_step stepped
      obtain ⟨last, moves, noVisit, noStart, ran⟩ := ih after described
      refine ⟨last, .head move moves, noVisit, noStart, ?_⟩
      rw [CycleSearch.run_of_step stepped, ran]

end Descent

end FeatureAtlas
