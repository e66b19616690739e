import Mathlib.Data.List.Perm.Basic
import FeatureAtlas.Proofs.Model.CycleReports

/-!
The course of the cycle search. Its moments are those between two steps; a step that puts a node on
the stack or takes it off changes the mark at once. At every moment the marks agree with the stack,
and what the search is done with leads to nothing that it has not met. By its end each node has been
put on the stack once, and each edge has been examined once.
-/

namespace FeatureAtlas

def FeatureModel.InRange (model : FeatureModel) : Prop :=
  ∀ node ∈ model.nodes, ∀ child ∈ node.children, child < model.nodes.length

instance (model : FeatureModel) : Decidable model.InRange :=
  inferInstanceAs (Decidable (∀ node ∈ model.nodes, ∀ child ∈ node.children,
    child < model.nodes.length))

theorem FeatureModel.InRange.child {model : FeatureModel} (inRange : model.InRange)
    {parent child : NodeIndex} (isChild : child ∈ model.childIndices parent) :
    child < model.nodes.length := by
  obtain ⟨node, stored, member⟩ := exists_of_mem_childIndices isChild
  exact inRange node (List.mem_of_getElem? stored) child member

def SearchTask.node : SearchTask → NodeIndex
  | .start node => node
  | .examine _ child => child
  | .leave node => node

def endsBelow (edges : List (NodeIndex × NodeIndex)) (parent : NodeIndex) : List NodeIndex :=
  (edges.filter fun edge => edge.1 == parent).map Prod.snd

theorem endsBelow_append (edges more : List (NodeIndex × NodeIndex)) (parent : NodeIndex) :
    endsBelow (edges ++ more) parent = endsBelow edges parent ++ endsBelow more parent := by
  rw [endsBelow, List.filter_append, List.map_append, endsBelow, endsBelow]

theorem endsBelow_single (node child parent : NodeIndex) :
    endsBelow [(node, child)] parent = if node = parent then [child] else [] := by
  by_cases same : node = parent
  · simp [endsBelow, same]
  · simp [endsBelow, same]

namespace CycleSearch

def examining (search : CycleSearch) : List (NodeIndex × NodeIndex) :=
  match search.agenda with
  | .examine parent child :: _ => [(parent, child)]
  | _ => []

def entering (search next : CycleSearch) : List NodeIndex := next.stack.drop search.stack.length

/-- The search goes on from one moment to another. Meanwhile some nodes are put on the stack and
some edges are examined. -/
inductive Course (model : FeatureModel) : CycleSearch → List NodeIndex →
    List (NodeIndex × NodeIndex) → CycleSearch → Prop
  | stay (search : CycleSearch) : Course model search [] [] search
  | step {search next last : CycleSearch} {entered : List NodeIndex}
      {examined : List (NodeIndex × NodeIndex)} :
      search.step? model = some next → Course model next entered examined last →
        Course model search (search.entering next ++ entered) (search.examining ++ examined) last

/-- Marks, stack and reports agree, and there is a mark wherever one is looked up. -/
structure Consistent (model : FeatureModel) (search : CycleSearch) : Prop where
  sized : search.marks.length = model.nodes.length
  known : ∀ task ∈ search.agenda, task.node < search.marks.length
  onStack : ∀ node, search.markOf node = .onStack ↔ node ∈ search.stack
  distinct : search.stack.Nodup
  path : search.stack.IsChain model.Edge
  met : ∀ parent, search.markOf parent = .done →
    ∀ child ∈ model.childIndices parent, search.markOf child ≠ .unvisited
  closed : ∀ parent, search.markOf parent = .done →
    ∀ child ∈ model.childIndices parent, search.markOf child = .onStack →
      ∃ path ∈ search.cycles, model.ClosedPath path ∧ closingEdge path = (parent, child)
  reports : ∀ parent child rest, search.agenda = .examine parent child :: rest →
    search.markOf child = .onStack →
      ∃ path, closedPath? search.stack child = some path ∧ model.ClosedPath path ∧
        closingEdge path = (parent, child)

/-- What has been entered and examined so far: no node twice, and the edges from each node in their
order, as many as its visit has come to. -/
structure Accounts (model : FeatureModel) (search : CycleSearch) (entered : List NodeIndex)
    (examined : List (NodeIndex × NodeIndex)) : Prop where
  once : entered.Nodup
  visited : ∀ node, node ∈ entered ↔
    node < model.nodes.length ∧ search.markOf node ≠ .unvisited
  inOrder : ∀ parent, endsBelow examined parent <+: model.childIndices parent
  whole : ∀ parent, search.markOf parent = .done →
    endsBelow examined parent = model.childIndices parent

end CycleSearch

namespace Descent

variable {model : FeatureModel} {descent next : Descent} {node child : NodeIndex}
  {examined pending : List NodeIndex} {below : List Visit} {starts : List NodeIndex}
  {marks : List Mark} {cycles : List (List NodeIndex)} {entered : List NodeIndex}
  {edges : List (NodeIndex × NodeIndex)}

theorem markIn_set_unvisited {mark : Mark} (bound : node < marks.length) (set : mark ≠ .unvisited)
    (other : NodeIndex) : markIn (marks.set node mark) other = .unvisited ↔
      other ≠ node ∧ markIn marks other = .unvisited := by
  rw [markIn_set bound]
  by_cases here : other = node
  · simp [here, set]
  · simp [here]

structure Recounts (model : FeatureModel) (descent : Descent) (entered : List NodeIndex)
    (edges : List (NodeIndex × NodeIndex)) : Prop where
  once : entered.Nodup
  visited : ∀ node, node ∈ entered ↔
    node < model.nodes.length ∧ descent.markOf node ≠ .unvisited
  going : ∀ visit ∈ descent.visits, endsBelow edges visit.node = visit.examined
  untouched : ∀ node, descent.markOf node = .unvisited → endsBelow edges node = []
  finished : ∀ node, descent.markOf node = .done → endsBelow edges node = model.childIndices node

namespace Recounts

theorem enter (recounts : Recounts model descent entered edges)
    (sized : descent.marks.length = model.nodes.length)
    (fresh : descent.markOf node = .unvisited) :
    Recounts model (descent.enter model node) (entered ++ [node]) edges := by
  have bound := bound_of_markIn fresh (by simp)
  have now (other : NodeIndex) : (descent.enter model node).markOf other = .unvisited ↔
      other ≠ node ∧ descent.markOf other = .unvisited :=
    markIn_set_unvisited bound (by simp) other
  refine ⟨?_, ?_, ?_, ?_, ?_⟩
  · have absent : node ∉ entered := fun member => ((recounts.visited node).mp member).2 fresh
    exact List.Nodup.append recounts.once (List.nodup_singleton node) (by simpa using absent)
  · intro other
    rw [List.mem_append, List.mem_singleton, recounts.visited, ne_eq, ne_eq, now]
    by_cases here : other = node
    · simp [here, ← sized, bound]
    · simp [here]
  · exact List.forall_mem_cons.mpr ⟨recounts.untouched node fresh, recounts.going⟩
  · exact fun other unvisited => recounts.untouched other ((now other).mp unvisited).2
  · exact fun other done => recounts.finished other ((markIn_set_onStack fresh other).mp done)

theorem examine {more : List (List NodeIndex)}
    (recounts : Recounts model ⟨⟨node, examined, child :: pending⟩ :: below, starts, marks, cycles⟩
      entered edges)
    (tracks : Tracks model ⟨⟨node, examined, child :: pending⟩ :: below, starts, marks, cycles⟩) :
    Recounts model ⟨⟨node, examined ++ [child], pending⟩ :: below, starts, marks, more⟩ entered
      (edges ++ [(node, child)]) := by
  have onStack := tracks.marked.top.1
  have other {parent : NodeIndex} (different : node ≠ parent) :
      endsBelow (edges ++ [(node, child)]) parent = endsBelow edges parent := by
    rw [endsBelow_append, endsBelow_single, if_neg different, List.append_nil]
  have apart {parent : NodeIndex} (notOnStack : markIn marks parent ≠ .onStack) :
      endsBelow (edges ++ [(node, child)]) parent = endsBelow edges parent :=
    other fun same => notOnStack (same ▸ onStack)
  obtain ⟨here, lower⟩ := List.forall_mem_cons.mp recounts.going
  obtain ⟨absent, _⟩ := List.nodup_cons.mp tracks.marked.distinct
  refine ⟨recounts.once, recounts.visited, ?_, ?_, ?_⟩
  · refine List.forall_mem_cons.mpr ⟨?_, fun visit member => ?_⟩
    · rw [endsBelow_append, endsBelow_single, if_pos rfl]
      exact congrArg (· ++ [child]) here
    · have beneath : visit.node ∈ below.map Visit.node := List.mem_map_of_mem member
      rw [other fun same => absent (same ▸ beneath)]
      exact lower visit member
  · intro parent unvisited
    rw [apart (unvisited.trans_ne (by simp))]
    exact recounts.untouched parent unvisited
  · intro parent done
    rw [apart (done.trans_ne (by simp))]
    exact recounts.finished parent done

theorem leave
    (recounts : Recounts model ⟨⟨node, examined, []⟩ :: below, starts, marks, cycles⟩ entered edges)
    (tracks : Tracks model ⟨⟨node, examined, []⟩ :: below, starts, marks, cycles⟩) :
    Recounts model ⟨below, starts, marks.set node .done, cycles⟩ entered edges := by
  obtain ⟨onStack, bound⟩ := tracks.marked.top
  have now (other : NodeIndex) : markIn (marks.set node .done) other = .unvisited ↔
      other ≠ node ∧ markIn marks other = .unvisited := markIn_set_unvisited bound (by simp) other
  obtain ⟨here, lower⟩ := List.forall_mem_cons.mp recounts.going
  refine ⟨recounts.once, ?_, lower, ?_, ?_⟩
  · intro other
    rw [recounts.visited, ne_eq, ne_eq, markOf, markOf, now]
    by_cases same : other = node
    · simp [same, onStack]
    · simp [same]
  · exact fun other unvisited => recounts.untouched other ((now other).mp unvisited).2
  · intro other done
    rcases (markIn_set_done bound other).mp done with rfl | before
    · have split := tracks.explored.split _ List.mem_cons_self
      rw [here, split, List.append_nil]
    · exact recounts.finished other before

theorem drop (recounts : Recounts model ⟨[], node :: starts, marks, cycles⟩ entered edges) :
    Recounts model ⟨[], starts, marks, cycles⟩ entered edges :=
  ⟨recounts.once, recounts.visited, recounts.going, recounts.untouched, recounts.finished⟩

end Recounts

theorem recounts_begin (model : FeatureModel) : Recounts model (begin model) [] [] := by
  refine ⟨.nil, ?_, by simp [begin], fun _ _ => rfl, ?_⟩
  · intro node
    rw [markOf_begin]
    simp
  · intro node done
    rw [markOf_begin] at done
    split at done
    · cases done
    · rename_i beyond
      simp [FeatureModel.childIndices, List.getElem?_eq_none (Nat.le_of_not_lt beyond), endsBelow]

theorem entering_push (push : next.nodes = node :: descent.nodes) :
    descent.search.entering next.search = [node] := by
  rw [CycleSearch.entering, search, search, push, List.reverse_cons]
  exact List.drop_left

theorem entering_none (fewer : next.nodes.length ≤ descent.nodes.length) :
    descent.search.entering next.search = [] := by
  refine List.drop_eq_nil_of_le ?_
  rw [search, search, List.length_reverse, List.length_reverse]
  exact fewer

theorem examining_start (node : NodeIndex) :
    (search ⟨[], node :: starts, marks, cycles⟩).examining = [] := rfl

theorem examining_child (child : NodeIndex) :
    (search ⟨⟨node, examined, child :: pending⟩ :: below, starts, marks, cycles⟩).examining =
      [(node, child)] := rfl

theorem examining_leave (node : NodeIndex) :
    (search ⟨⟨node, examined, []⟩ :: below, starts, marks, cycles⟩).examining = [] := rfl

theorem Recounts.move (recounts : Recounts model descent entered edges)
    (tracks : Tracks model descent) (move : Move model descent next) :
    Recounts model next (entered ++ descent.search.entering next.search)
      (edges ++ descent.search.examining) := by
  have sized := tracks.marked.sized
  cases move with
  | @start node starts marks cycles fresh =>
      have push : (search ⟨[], node :: starts, marks, cycles⟩).entering
          (Descent.enter model ⟨[], starts, marks, cycles⟩ node).search = [node] :=
        entering_push rfl
      rw [push, examining_start, List.append_nil]
      exact recounts.drop.enter sized fresh
  | pass _ =>
      rw [entering_none (by simp [nodes]), examining_start, List.append_nil, List.append_nil]
      exact recounts.drop
  | @descend node child examined pending below starts marks cycles fresh =>
      have push : (search ⟨⟨node, examined, child :: pending⟩ :: below, starts, marks,
          cycles⟩).entering (Descent.enter model
            ⟨⟨node, examined ++ [child], pending⟩ :: below, starts, marks, cycles⟩ child).search =
              [child] := entering_push rfl
      rw [push, examining_child]
      exact (recounts.examine tracks).enter sized fresh
  | report _ =>
      rw [entering_none (by simp [nodes]), List.append_nil, examining_child]
      exact recounts.examine tracks
  | skip _ =>
      rw [entering_none (by simp [nodes]), List.append_nil, examining_child]
      exact recounts.examine tracks
  | leave =>
      rw [entering_none (by simp [nodes]), examining_leave, List.append_nil, List.append_nil]
      exact recounts.leave tracks

theorem Recounts.course {first last : CycleSearch} {more : List NodeIndex}
    {moreEdges : List (NodeIndex × NodeIndex)}
    (course : CycleSearch.Course model first more moreEdges last) :
    ∀ {descent entered edges}, descent.search = first → Recounts model descent entered edges →
      Tracks model descent → ∃ later, later.search = last ∧ Tracks model later ∧
        Recounts model later (entered ++ more) (edges ++ moreEdges) := by
  -- A search is described by a descent at its first moment, and so at each that follows.
  induction course with
  | stay search =>
      intro descent entered edges described recounts tracks
      exact ⟨descent, described, tracks, by simpa using recounts⟩
  | step stepped _ ih =>
      rintro descent entered edges rfl recounts tracks
      obtain ⟨next, move, rfl⟩ := exists_move_of_step stepped
      have further := ih rfl (recounts.move tracks move) (tracks.move move)
      simpa only [List.append_assoc] using further

/-! What holds at every moment. -/

variable {parent : NodeIndex}

theorem Tracks.settled (tracks : Tracks model descent) (done : descent.markOf parent = .done)
    (isChild : child ∈ model.childIndices parent) :
    descent.markOf child = .done ∨ ∃ path ∈ descent.cycles, model.ClosedPath path ∧
      closingEdge path = (parent, child) := by
  rcases tracks.explored.finished parent done child isChild with known | closing
  · exact .inl known
  · obtain ⟨path, member, closes⟩ := List.mem_map.mp closing
    exact .inr ⟨path, member, tracks.closed path member, closes⟩

theorem exists_visit_of_examine {rest : List SearchTask}
    (agenda : descent.search.agenda = .examine parent child :: rest) :
    ∃ examined pending below, descent.visits = ⟨parent, examined, child :: pending⟩ :: below := by
  obtain ⟨visits, starts, marks, cycles⟩ := descent
  match visits with
  | [] => cases starts <;> simp [search] at agenda
  | ⟨node, examined, []⟩ :: below => simp [search, Visit.tasks] at agenda
  | ⟨node, examined, next :: pending⟩ :: below =>
      simp only [search, Visit.tasks, List.flatMap_cons, List.map_cons, List.cons_append,
        List.cons.injEq, SearchTask.examine.injEq] at agenda
      obtain ⟨⟨rfl, rfl⟩, _⟩ := agenda
      exact ⟨examined, pending, below, rfl⟩

theorem Tracks.consistent (tracks : Tracks model descent)
    (known : ∀ task ∈ descent.search.agenda, task.node < model.nodes.length) :
    descent.search.Consistent model where
  sized := tracks.marked.sized
  known := tracks.marked.sized ▸ known
  onStack node := (tracks.marked.entered node).trans List.mem_reverse.symm
  distinct := List.nodup_reverse.mpr tracks.marked.distinct
  path := List.isChain_reverse.mpr (tracks.explored.descending.isChain tracks.explored.split)
  met parent done child isChild := by
    rcases tracks.settled done isChild with known | ⟨path, member, closed, closes⟩
    · exact fun unvisited => absurd (known.symm.trans unvisited) (by simp)
    · exact tracks.visited path member child (closed.closingEdge_mem closes).2.1
  closed parent done child isChild onStack := by
    refine (tracks.settled done isChild).resolve_left fun known => ?_
    exact absurd (known.symm.trans onStack) (by simp)
  reports parent child rest agenda onStack := by
    obtain ⟨examined, pending, below, visits⟩ := exists_visit_of_examine agenda
    have explored := tracks.explored
    have marked := tracks.marked
    rw [visits] at explored
    rw [nodes, visits] at marked
    obtain ⟨_, _, path, _, _, _, found, closed, closes⟩ := exists_report marked explored onStack
    refine ⟨path, ?_, closed, closes⟩
    rw [search, nodes, visits]
    exact found

theorem Tracks.marks_eq (tracks : Tracks model descent)
    (done : ∀ node, descent.markOf node = .done) :
    descent.marks = List.replicate model.nodes.length .done := by
  refine List.eq_replicate_iff.mpr ⟨tracks.marked.sized, fun mark member => ?_⟩
  obtain ⟨node, bound, rfl⟩ := List.getElem_of_mem member
  have found := done node
  rwa [markOf, markIn, List.getD_eq_getElem?_getD, List.getElem?_eq_getElem bound] at found

theorem Recounts.accounts (recounts : Recounts model descent entered edges)
    (tracks : Tracks model descent) :
    descent.search.Accounts model entered edges where
  once := recounts.once
  visited := recounts.visited
  whole := recounts.finished
  inOrder parent := by
    cases mark : descent.markOf parent with
    | unvisited =>
        rw [recounts.untouched parent mark]
        exact List.nil_prefix
    | done => rw [recounts.finished parent mark]
    | onStack =>
        obtain ⟨visit, member, rfl⟩ := List.mem_map.mp ((tracks.marked.entered parent).mp mark)
        rw [recounts.going visit member, tracks.explored.split visit member]
        exact List.prefix_append _ _

end Descent

namespace CycleSearch

variable {model : FeatureModel} {search next last : CycleSearch} {entered : List NodeIndex}
  {examined : List (NodeIndex × NodeIndex)}

theorem agenda_perform (model : FeatureModel) (search : CycleSearch) (task : SearchTask) :
    (search.perform model task).agenda = search.agenda ∨
      (search.perform model task).agenda =
        (model.childIndices task.node).map (.examine task.node) ++
          .leave task.node :: search.agenda := by
  cases task with
  | start node =>
      rw [perform]
      split
      · exact .inr rfl
      · exact .inl rfl
      · exact .inl rfl
  | examine parent child =>
      rw [perform]
      split
      · exact .inr rfl
      · exact .inl rfl
      · exact .inl rfl
  | leave node => exact .inl rfl

theorem node_of_step (inRange : model.InRange)
    (known : ∀ task ∈ search.agenda, task.node < model.nodes.length)
    (stepped : search.step? model = some next) :
    ∀ task ∈ next.agenda, task.node < model.nodes.length := by
  obtain ⟨agenda, marks, stack, cycles⟩ := search
  cases agenda with
  | nil => simp [step?] at stepped
  | cons task rest =>
      obtain ⟨here, later⟩ := List.forall_mem_cons.mp known
      simp only [step?, Option.some.injEq] at stepped
      rw [← stepped]
      rcases agenda_perform model ⟨rest, marks, stack, cycles⟩ task with same | entered
      · rw [same]
        exact later
      · rw [entered]
        refine List.forall_mem_append.mpr ⟨?_, List.forall_mem_cons.mpr ⟨here, later⟩⟩
        exact List.forall_mem_map.mpr fun child isChild => inRange.child isChild

theorem Course.node_of_agenda (course : Course model search entered examined last)
    (inRange : model.InRange) (known : ∀ task ∈ search.agenda, task.node < model.nodes.length) :
    ∀ task ∈ last.agenda, task.node < model.nodes.length := by
  induction course with
  | stay _ => exact known
  | step stepped _ ih => exact ih (node_of_step inRange known stepped)

theorem Course.exists_descent (course : Course model (begin model) entered examined search) :
    ∃ descent, descent.search = search ∧ Descent.Tracks model descent ∧
      Descent.Recounts model descent entered examined :=
  Descent.Recounts.course course rfl (Descent.recounts_begin model) (Descent.tracks_begin model)

theorem Course.consistent (course : Course model (begin model) entered examined search)
    (inRange : model.InRange) : search.Consistent model := by
  obtain ⟨descent, rfl, tracks, _⟩ := course.exists_descent
  refine tracks.consistent (course.node_of_agenda inRange ?_)
  exact List.forall_mem_map.mpr fun node member => List.mem_range.mp member

theorem Course.accounts (course : Course model (begin model) entered examined search) :
    search.Accounts model entered examined := by
  obtain ⟨descent, rfl, tracks, recounts⟩ := course.exists_descent
  exact recounts.accounts tracks

/-! The whole course. -/

theorem exists_course_run (model : FeatureModel) (search : CycleSearch) :
    ∃ entered examined, Course model search entered examined (search.run model) ∧
      (search.run model).step? model = none := by
  induction search using CycleSearch.run.induct model with
  | case1 search ended =>
      have stays : search.run model = search := by
        rw [run]
        split
        · rfl
        · simp_all
      rw [stays]
      exact ⟨[], [], .stay search, ended⟩
  | case2 search next stepped ih =>
      rw [run_of_step stepped]
      obtain ⟨entered, examined, course, ended⟩ := ih
      exact ⟨_, _, .step stepped course, ended⟩

theorem Course.exists_rest (course : Course model search entered examined next)
    {all : List NodeIndex} {allEdges : List (NodeIndex × NodeIndex)}
    (whole : Course model search all allEdges last) (ended : last.step? model = none) :
    ∃ rest restEdges, all = entered ++ rest ∧ allEdges = examined ++ restEdges ∧
      Course model next rest restEdges last := by
  induction course generalizing all allEdges with
  | stay search => exact ⟨all, allEdges, rfl, rfl, whole⟩
  | step stepped _ ih =>
      cases whole with
      | stay => simp [ended] at stepped
      | step otherStepped further =>
          obtain rfl := Option.some.inj (stepped.symm.trans otherStepped)
          obtain ⟨rest, restEdges, rfl, rfl, later⟩ := ih further
          exact ⟨rest, restEdges, by rw [List.append_assoc], by rw [List.append_assoc], later⟩

/-- The search has nothing left to do. Every node has been entered once and left again, and the
edges from every node have been examined in their order, each once. -/
structure Completed (model : FeatureModel) (search : CycleSearch) (entered : List NodeIndex)
    (examined : List (NodeIndex × NodeIndex)) : Prop where
  agenda : search.agenda = []
  stack : search.stack = []
  marks : search.marks = List.replicate model.nodes.length .done
  nodes : entered.Perm (List.range model.nodes.length)
  edges : ∀ parent, endsBelow examined parent = model.childIndices parent

theorem Course.completed (course : Course model (begin model) entered examined last)
    (ended : last.step? model = none) : last.Completed model entered examined := by
  obtain ⟨descent, rfl, tracks, recounts⟩ := course.exists_descent
  obtain ⟨noVisit, noStart⟩ | ⟨next, move⟩ := Descent.exists_move model descent
  · have done := tracks.done noVisit noStart
    refine ⟨?_, ?_, tracks.marks_eq done, ?_, fun parent => recounts.finished parent (done parent)⟩
    · simp [Descent.search, noVisit, noStart]
    · simp [Descent.search, Descent.nodes, noVisit]
    · refine (List.perm_ext_iff_of_nodup recounts.once List.nodup_range).mpr fun node => ?_
      rw [recounts.visited, List.mem_range, done]
      simp
  · simp [move.step?] at ended

/-- At every moment of the cycle search, whatever the edges lead around, marks, stack and reports
agree, and a child on the stack is found there. The search goes on from every moment to the same
end; until then each node is entered once and each edge examined once. -/
theorem consistent_throughout (model : FeatureModel) (inRange : model.InRange) :
    (∀ entered examined search, Course model (begin model) entered examined search →
      search.Consistent model ∧ search.Accounts model entered examined) ∧
      ∃ entered examined,
        Course model (begin model) entered examined ((begin model).run model) ∧
          ((begin model).run model).Completed model entered examined ∧
          ∀ before beforeEdges search, Course model (begin model) before beforeEdges search →
            ∃ rest restEdges, entered = before ++ rest ∧ examined = beforeEdges ++ restEdges ∧
              Course model search rest restEdges ((begin model).run model) := by
  obtain ⟨entered, examined, whole, ended⟩ := exists_course_run model (begin model)
  refine ⟨?_, entered, examined, whole, whole.completed ended, ?_⟩
  · exact fun _ _ _ course => ⟨course.consistent inRange, course.accounts⟩
  · exact fun _ _ _ course => course.exists_rest whole ended

def tangle : FeatureModel :=
  { nodes := [
      { key := { name := "whole" }, members := [], children := [0, 1, 2, 1], parents := [0, 1] },
      { key := { name := "part" }, members := [], children := [2, 0], parents := [0, 0] },
      { key := { name := "detail" }, members := [], children := [], parents := [0, 1] }]
    index := { entries := [({ name := "whole" }, 0), ({ name := "part" }, 1),
      ({ name := "detail" }, 2)] } }

theorem tangle_completed : ∃ entered examined,
    Course tangle (begin tangle) entered examined ((begin tangle).run tangle) ∧
      entered.Perm [0, 1, 2] ∧ endsBelow examined 0 = [0, 1, 2, 1] ∧
        ((begin tangle).run tangle).stack = [] ∧ ((begin tangle).run tangle).Consistent tangle := by
  obtain ⟨throughout, entered, examined, course, completed, _⟩ :=
    consistent_throughout tangle (by decide)
  exact ⟨entered, examined, course, completed.nodes, completed.edges 0, completed.stack,
    (throughout _ _ _ course).1⟩

end CycleSearch

end FeatureAtlas
