import Mathlib.Data.List.Chain
import Mathlib.Data.List.Nodup
import FeatureAtlas.Proofs.Model.Descent

/-!
What the cycle search keeps, whatever the edges: the nodes marked as on the stack are the visited
ones, every child examined is done or on the reported closing edge to it, and the edges that close
no reported cycle do not lead around.
-/

namespace FeatureAtlas

abbrev FeatureModel.Edge (model : FeatureModel) (parent child : NodeIndex) : Prop :=
  child ∈ model.childIndices parent

/-- A path along edges that ends where it begins and passes no node twice before. -/
structure FeatureModel.ClosedPath (model : FeatureModel) (path : List NodeIndex) : Prop where
  long : 2 ≤ path.length
  closed : path.head? = path.getLast?
  distinct : path.dropLast.Nodup
  edges : path.IsChain model.Edge

def closingEdge (path : List NodeIndex) : NodeIndex × NodeIndex :=
  (path.dropLast.getLast?.getD 0, path.getLast?.getD 0)

def FeatureModel.Remains (model : FeatureModel) (closings : List (NodeIndex × NodeIndex))
    (parent child : NodeIndex) : Prop :=
  model.Edge parent child ∧ (parent, child) ∉ closings

theorem closedPath?_append {outer inner : List NodeIndex} {node : NodeIndex}
    (fresh : node ∉ outer) :
    closedPath? (outer ++ node :: inner) node = some (node :: inner ++ [node]) := by
  have passed : ∀ entered ∈ outer, (entered != node) = true := by
    intro entered member
    simpa using fun same : entered = node => fresh (same ▸ member)
  rw [closedPath?, List.dropWhile_append_of_pos passed, List.dropWhile_cons_of_neg (by simp)]

theorem closingEdge_snoc (first : NodeIndex) {path : List NodeIndex} {last : NodeIndex}
    (isLast : path.getLast? = some last) : closingEdge (path ++ [first]) = (last, first) := by
  simp [closingEdge, isLast]

theorem markIn_set {marks : List Mark} {node : NodeIndex} (bound : node < marks.length)
    (mark : Mark) (other : NodeIndex) :
    markIn (marks.set node mark) other = if other = node then mark else markIn marks other := by
  rw [markIn, markIn, List.getD_eq_getElem?_getD, List.getD_eq_getElem?_getD, List.getElem?_set]
  by_cases same : other = node
  · simp [same, bound]
  · simp [same, Ne.symm same]

theorem bound_of_markIn {marks : List Mark} {node : NodeIndex} {mark : Mark}
    (found : markIn marks node = mark) (unfinished : mark ≠ .done) : node < marks.length := by
  by_contra beyond
  apply unfinished
  rw [← found, markIn, List.getD_eq_getElem?_getD, List.getElem?_eq_none (Nat.le_of_not_lt beyond)]
  rfl

theorem markIn_set_onStack {marks : List Mark} {node : NodeIndex}
    (fresh : markIn marks node = .unvisited) (other : NodeIndex) :
    markIn (marks.set node .onStack) other = .done ↔ markIn marks other = .done := by
  rw [markIn_set (bound_of_markIn fresh (by simp))]
  by_cases here : other = node
  · simp [here, fresh]
  · simp [here]

theorem markIn_set_done {marks : List Mark} {node : NodeIndex} (bound : node < marks.length)
    (other : NodeIndex) :
    markIn (marks.set node .done) other = .done ↔ other = node ∨ markIn marks other = .done := by
  rw [markIn_set bound]
  by_cases here : other = node
  · simp [here]
  · simp [here]

/-! The marks. -/

structure Marked (model : FeatureModel) (nodes starts : List NodeIndex) (marks : List Mark) :
    Prop where
  sized : marks.length = model.nodes.length
  entered : ∀ node, markIn marks node = .onStack ↔ node ∈ nodes
  distinct : nodes.Nodup
  started : ∀ node < model.nodes.length, node ∈ starts ∨ markIn marks node ≠ .unvisited

namespace Marked

variable {model : FeatureModel} {nodes starts : List NodeIndex} {marks : List Mark}
  {node : NodeIndex}

theorem top (marked : Marked model (node :: nodes) starts marks) :
    markIn marks node = .onStack ∧ node < marks.length := by
  have onStack := (marked.entered node).mpr List.mem_cons_self
  exact ⟨onStack, bound_of_markIn onStack (by simp)⟩

theorem enter (marked : Marked model nodes starts marks)
    (fresh : markIn marks node = .unvisited) :
    Marked model (node :: nodes) starts (marks.set node .onStack) := by
  have bound := bound_of_markIn fresh (by simp)
  have absent : node ∉ nodes := by
    rw [← marked.entered]
    simp [fresh]
  refine ⟨by simp [marked.sized], ?_, List.nodup_cons.mpr ⟨absent, marked.distinct⟩, ?_⟩
  · intro other
    rw [markIn_set bound, List.mem_cons, ← marked.entered]
    by_cases same : other = node
    · simp [same]
    · simp [same]
  · intro other otherBound
    rw [markIn_set bound]
    by_cases same : other = node
    · simp [same]
    · simpa [same] using marked.started other otherBound

theorem leave (marked : Marked model (node :: nodes) starts marks) :
    Marked model nodes starts (marks.set node .done) := by
  obtain ⟨absent, distinct⟩ := List.nodup_cons.mp marked.distinct
  have bound := marked.top.2
  refine ⟨by simp [marked.sized], ?_, distinct, ?_⟩
  · intro other
    rw [markIn_set bound]
    by_cases same : other = node
    · simp [same, absent]
    · simp [same, marked.entered]
  · intro other otherBound
    rw [markIn_set bound]
    by_cases same : other = node
    · simp [same]
    · simpa [same] using marked.started other otherBound

theorem drop (marked : Marked model nodes (node :: starts) marks)
    (known : markIn marks node ≠ .unvisited) : Marked model nodes starts marks := by
  refine ⟨marked.sized, marked.entered, marked.distinct, ?_⟩
  intro other otherBound
  rcases marked.started other otherBound with start | visited
  · rcases List.mem_cons.mp start with rfl | later
    · exact .inr known
    · exact .inl later
  · exact .inr visited

end Marked

/-! The edges. -/

/-- There is nothing left to find along an edge: its end is done or it closes a reported cycle. -/
def Settled (marks : List Mark) (closings : List (NodeIndex × NodeIndex))
    (parent child : NodeIndex) : Prop :=
  markIn marks child = .done ∨ (parent, child) ∈ closings

/-- Each visit has come from an examined child of the one below, and all other examined children
are settled. -/
def Descending (settled : NodeIndex → NodeIndex → Prop) : Option NodeIndex → List Visit → Prop
  | _, [] => True
  | above, visit :: below =>
      (∀ child ∈ visit.examined, settled visit.node child ∨ above = some child) ∧
        (∀ child, above = some child → child ∈ visit.examined) ∧
        Descending settled (some visit.node) below

theorem Descending.imp {settled further : NodeIndex → NodeIndex → Prop}
    (more : ∀ parent child, settled parent child → further parent child)
    {above : Option NodeIndex} {visits : List Visit}
    (descending : Descending settled above visits) : Descending further above visits := by
  induction visits generalizing above with
  | nil => trivial
  | cons visit below ih =>
      obtain ⟨examined, from', rest⟩ := descending
      refine ⟨?_, from', ih rest⟩
      intro child member
      exact (examined child member).imp (more visit.node child) id

theorem Descending.leave {settled : NodeIndex → NodeIndex → Prop} {node : NodeIndex}
    {visits : List Visit} (finished : ∀ parent, settled parent node)
    (descending : Descending settled (some node) visits) : Descending settled none visits := by
  cases visits with
  | nil => trivial
  | cons visit below =>
      obtain ⟨examined, _, rest⟩ := descending
      refine ⟨?_, by simp, rest⟩
      intro child member
      rcases examined child member with known | here
      · exact .inl known
      · exact .inl (Option.some.inj here ▸ finished visit.node)

theorem Descending.isChain {settled : NodeIndex → NodeIndex → Prop} {model : FeatureModel}
    {above : Option NodeIndex} {visits : List Visit} (descending : Descending settled above visits)
    (split : ∀ visit ∈ visits, model.childIndices visit.node = visit.examined ++ visit.pending) :
    (above.toList ++ visits.map Visit.node).IsChain fun upper lower => model.Edge lower upper := by
  induction visits generalizing above with
  | nil => cases above <;> simp
  | cons visit below ih =>
      obtain ⟨_, from', rest⟩ := descending
      have lower := ih rest fun other member => split other (by simp [member])
      cases above with
      | none => exact lower
      | some node =>
          refine List.isChain_cons_cons.mpr ⟨?_, lower⟩
          rw [FeatureModel.Edge, split visit (by simp)]
          exact List.mem_append_left _ (from' node rfl)

/-- The children of visited nodes are examined in order, those of done nodes are settled, and
nothing leads around below a done node but over closing edges. -/
structure Explored (model : FeatureModel) (visits : List Visit) (marks : List Mark)
    (closings : List (NodeIndex × NodeIndex)) : Prop where
  split : ∀ visit ∈ visits, model.childIndices visit.node = visit.examined ++ visit.pending
  descending : Descending (Settled marks closings) none visits
  finished : ∀ node, markIn marks node = .done →
    ∀ child ∈ model.childIndices node, Settled marks closings node child
  grounded : ∀ node, markIn marks node = .done →
    Acc (fun child parent => model.Remains closings parent child) node

namespace Explored

variable {model : FeatureModel} {visits : List Visit} {marks : List Mark}
  {closings : List (NodeIndex × NodeIndex)}

theorem examine {node child : NodeIndex} {examined pending : List NodeIndex} {below : List Visit}
    (explored : Explored model (⟨node, examined, child :: pending⟩ :: below) marks closings)
    {more : List (NodeIndex × NodeIndex)} (grows : closings ⊆ more)
    (settled : Settled marks more node child) :
    Explored model (⟨node, examined ++ [child], pending⟩ :: below) marks more := by
  have further : ∀ parent other, Settled marks closings parent other →
      Settled marks more parent other := fun _ _ known => known.imp id fun member => grows member
  obtain ⟨settledChildren, _, rest⟩ := explored.descending
  refine ⟨?_, ⟨?_, by simp, rest.imp further⟩, ?_, ?_⟩
  · intro visit member
    rcases List.mem_cons.mp member with rfl | lower
    · simpa using explored.split _ List.mem_cons_self
    · exact explored.split visit (by simp [lower])
  · intro other member
    rcases List.mem_append.mp member with old | new
    · exact (settledChildren other old).imp (further node other) id
    · exact .inl (List.mem_singleton.mp new ▸ settled)
  · intro other done next isChild
    exact further other next (explored.finished other done next isChild)
  · intro other done
    exact Subrelation.accessible (fun remains => ⟨remains.1, fun member =>
      remains.2 (grows member)⟩) (explored.grounded other done)

theorem mark {node : NodeIndex} (explored : Explored model visits marks closings)
    (fresh : markIn marks node = .unvisited) :
    Explored model visits (marks.set node .onStack) closings := by
  have same := markIn_set_onStack fresh
  have further : ∀ parent child, Settled marks closings parent child →
      Settled (marks.set node .onStack) closings parent child :=
    fun _ child known => known.imp (same child).mpr id
  refine ⟨explored.split, explored.descending.imp further, ?_, ?_⟩
  · intro other done child isChild
    exact further other child (explored.finished other ((same other).mp done) child isChild)
  · exact fun other done => explored.grounded other ((same other).mp done)

theorem start {node : NodeIndex} (explored : Explored model [] marks closings)
    (fresh : markIn marks node = .unvisited) :
    Explored model [⟨node, [], model.childIndices node⟩] (marks.set node .onStack) closings := by
  have marked := explored.mark fresh
  refine ⟨by simp, ⟨by simp, by simp, trivial⟩, marked.finished, marked.grounded⟩

theorem descend {node child : NodeIndex} {examined pending : List NodeIndex} {below : List Visit}
    (explored : Explored model (⟨node, examined, child :: pending⟩ :: below) marks closings)
    (fresh : markIn marks child = .unvisited) :
    Explored model (⟨child, [], model.childIndices child⟩ ::
      ⟨node, examined ++ [child], pending⟩ :: below) (marks.set child .onStack) closings := by
  have marked := explored.mark fresh
  obtain ⟨settledChildren, _, rest⟩ := marked.descending
  refine ⟨?_, ⟨by simp, by simp, ?_, by simp, rest⟩, marked.finished, marked.grounded⟩
  · intro visit member
    rcases List.mem_cons.mp member with rfl | lower
    · rfl
    · rcases List.mem_cons.mp lower with rfl | lowest
      · simpa using marked.split _ List.mem_cons_self
      · exact marked.split visit (by simp [lowest])
  · intro other member
    rcases List.mem_append.mp member with old | new
    · exact (settledChildren other old).imp id (by simp)
    · exact .inr (congrArg some (List.mem_singleton.mp new).symm)

theorem leave {node : NodeIndex} {examined : List NodeIndex} {below : List Visit}
    (explored : Explored model (⟨node, examined, []⟩ :: below) marks closings)
    (bound : node < marks.length) :
    Explored model below (marks.set node .done) closings := by
  have children : model.childIndices node = examined := by
    simpa using explored.split _ List.mem_cons_self
  have now := markIn_set_done bound
  have further : ∀ parent child, Settled marks closings parent child →
      Settled (marks.set node .done) closings parent child :=
    fun _ child known => known.imp (fun done => (now child).mpr (.inr done)) id
  obtain ⟨settledChildren, _, rest⟩ := explored.descending
  have settled : ∀ child ∈ model.childIndices node, Settled marks closings node child := by
    intro child isChild
    exact (settledChildren child (children ▸ isChild)).resolve_right (by simp)
  refine ⟨?_, ?_, ?_, ?_⟩
  · exact fun visit member => explored.split visit (by simp [member])
  · exact (rest.imp further).leave fun parent => .inl ((now node).mpr (.inl rfl))
  · intro other done child isChild
    rcases (now other).mp done with rfl | earlier
    · exact further other child (settled child isChild)
    · exact further other child (explored.finished other earlier child isChild)
  · -- all that is left to follow from the node leads to done nodes, which are grounded already
    intro other done
    rcases (now other).mp done with rfl | earlier
    · refine .intro other fun child remains => explored.grounded child ?_
      exact (settled child remains.1).resolve_right remains.2
    · exact explored.grounded other earlier

end Explored

/-! The reports. -/

theorem closedPath_of_chain {model : FeatureModel} {outer inner : List NodeIndex}
    {node child : NodeIndex} (chain : (outer ++ child :: inner).IsChain model.Edge)
    (distinct : (outer ++ child :: inner).Nodup) (last : (child :: inner).getLast? = some node)
    (back : model.Edge node child) : model.ClosedPath (child :: inner ++ [child]) := by
  refine ⟨by simp, by rw [List.getLast?_concat]; rfl, ?_, ?_⟩
  · rw [List.dropLast_concat]
    exact distinct.of_append_right
  · refine chain.right_of_append.append (by simp) ?_
    intro parent isLast other isFirst
    rw [last] at isLast
    simp only [Option.mem_some_iff, List.head?_cons] at isLast isFirst
    exact isLast ▸ isFirst ▸ back

theorem exists_report {model : FeatureModel} {node child : NodeIndex}
    {examined pending : List NodeIndex} {below : List Visit} {starts : List NodeIndex}
    {marks : List Mark} {closings : List (NodeIndex × NodeIndex)}
    (marked : Marked model (node :: below.map Visit.node) starts marks)
    (explored : Explored model (⟨node, examined, child :: pending⟩ :: below) marks closings)
    (onStack : markIn marks child = .onStack) :
    ∃ outer inner path, (node :: below.map Visit.node).reverse = outer ++ child :: inner ∧
      child ∉ outer ∧ path = child :: inner ++ [child] ∧
      closedPath? (node :: below.map Visit.node).reverse child = some path ∧
      model.ClosedPath path ∧ closingEdge path = (node, child) := by
  have member : child ∈ (node :: below.map Visit.node).reverse := by
    rw [List.mem_reverse, ← marked.entered]
    exact onStack
  obtain ⟨outer, inner, stack, fresh⟩ := List.eq_append_cons_of_mem member
  have isChild : child ∈ model.childIndices node := by
    rw [explored.split _ List.mem_cons_self]
    simp
  have last : (child :: inner).getLast? = some node := by
    have top : (outer ++ child :: inner).getLast? = some node := by
      rw [← stack, List.getLast?_reverse]
      rfl
    rw [← top, List.getLast?_append_cons]
  have chain : (outer ++ child :: inner).IsChain model.Edge := by
    rw [← stack, List.isChain_reverse]
    exact explored.descending.isChain explored.split
  have distinct : (outer ++ child :: inner).Nodup := by
    rw [← stack, List.nodup_reverse]
    exact marked.distinct
  exact ⟨outer, inner, _, stack, fresh, rfl, stack ▸ closedPath?_append fresh,
    closedPath_of_chain chain distinct last isChild, closingEdge_snoc child last⟩

namespace Descent

def closings (descent : Descent) : List (NodeIndex × NodeIndex) := descent.cycles.map closingEdge

structure Tracks (model : FeatureModel) (descent : Descent) : Prop where
  marked : Marked model descent.nodes descent.starts descent.marks
  explored : Explored model descent.visits descent.marks descent.closings
  closed : ∀ path ∈ descent.cycles, model.ClosedPath path
  visited : ∀ path ∈ descent.cycles, ∀ node ∈ path, descent.markOf node ≠ .unvisited

variable {model : FeatureModel} {descent next : Descent}

theorem markOf_begin (model : FeatureModel) (node : NodeIndex) :
    (begin model).markOf node = if node < model.nodes.length then .unvisited else .done := by
  rw [markOf, markIn, begin, List.getD_eq_getElem?_getD, List.getElem?_replicate]
  split <;> rfl

theorem tracks_begin (model : FeatureModel) : Tracks model (begin model) := by
  have beyond : ∀ node, (begin model).markOf node = .done → model.childIndices node = [] := by
    intro node done
    rw [markOf_begin] at done
    split at done
    · simp at done
    · rename_i outside
      simp [FeatureModel.childIndices, List.getElem?_eq_none (Nat.le_of_not_lt outside)]
  refine ⟨⟨by simp [begin], ?_, by simp [nodes, begin], ?_⟩, ⟨by simp [begin], trivial, ?_, ?_⟩,
    by simp [begin], by simp [begin]⟩
  · intro node
    refine iff_of_false ?_ (by simp [nodes, begin])
    change (begin model).markOf node ≠ .onStack
    rw [markOf_begin]
    split <;> simp
  · intro node bound
    exact .inl (List.mem_range.mpr bound)
  · intro node done child isChild
    rw [beyond node done] at isChild
    simp at isChild
  · intro node done
    refine .intro node fun child remains => ?_
    have isChild := remains.1
    rw [FeatureModel.Edge, beyond node done] at isChild
    simp at isChild

theorem visited_set {cycles : List (List NodeIndex)} {marks : List Mark} {node : NodeIndex}
    {mark : Mark} (visited : ∀ path ∈ cycles, ∀ other ∈ path, markIn marks other ≠ .unvisited)
    (bound : node < marks.length) (set : mark ≠ .unvisited) :
    ∀ path ∈ cycles, ∀ other ∈ path, markIn (marks.set node mark) other ≠ .unvisited := by
  intro path member other otherMember
  rw [markIn_set bound]
  split
  · exact set
  · exact visited path member other otherMember

theorem Tracks.move (tracks : Tracks model descent) (move : Move model descent next) :
    Tracks model next := by
  obtain ⟨marked, explored, closed, visited⟩ := tracks
  cases move with
  | start fresh =>
      have bound := bound_of_markIn fresh (by simp)
      refine ⟨(marked.enter fresh).drop ?_, explored.start fresh, closed,
        visited_set visited bound (by simp)⟩
      simp [markIn_set bound]
  | pass known => exact ⟨marked.drop known, explored, closed, visited⟩
  | descend fresh =>
      have bound := bound_of_markIn fresh (by simp)
      exact ⟨marked.enter fresh, explored.descend fresh, closed,
        visited_set visited bound (by simp)⟩
  | @report _ child _ _ _ _ _ _ onStack =>
      obtain ⟨outer, inner, path, stack, _, isPath, found, isClosed, closes⟩ :=
        exists_report marked explored onStack
      rw [found]
      refine ⟨marked, ?_, ?_, ?_⟩
      · refine explored.examine ?_ (.inr ?_)
        · simp [closings]
        · simp [closings, closes]
      · intro other member
        rcases List.mem_append.mp member with old | new
        · exact closed other old
        · exact List.mem_singleton.mp new ▸ isClosed
      · intro other member node nodeMember
        rcases List.mem_append.mp member with old | new
        · exact visited other old node nodeMember
        · have entered : node ∈ outer ++ child :: inner := by
            rw [List.mem_singleton.mp new, isPath] at nodeMember
            rcases List.mem_append.mp nodeMember with inside | last
            · exact List.mem_append_right _ inside
            · rw [List.mem_singleton.mp last]
              simp
          rw [← stack, List.mem_reverse] at entered
          have onStack := (marked.entered node).mpr entered
          simp [markOf, onStack]
  | skip done => exact ⟨marked, explored.examine (List.Subset.refl _) (.inl done), closed, visited⟩
  | leave =>
      have bound := marked.top.2
      exact ⟨marked.leave, explored.leave bound, closed, visited_set visited bound (by simp)⟩

theorem Move.done (tracks : Tracks model descent) (move : Move model descent next)
    {node : NodeIndex} (done : descent.markOf node = .done) : next.markOf node = .done := by
  cases move with
  | start fresh => exact (markIn_set_onStack fresh node).mpr done
  | pass _ => exact done
  | descend fresh => exact (markIn_set_onStack fresh node).mpr done
  | report _ => exact done
  | skip _ => exact done
  | leave => exact (markIn_set_done tracks.marked.top.2 node).mpr (.inr done)

theorem Tracks.moves (tracks : Tracks model descent) (moves : Moves model descent next) :
    Tracks model next := by
  induction moves with
  | refl => exact tracks
  | tail _ move ih => exact ih.move move

theorem Tracks.done (tracks : Tracks model descent) (noVisit : descent.visits = [])
    (noStart : descent.starts = []) (node : NodeIndex) : descent.markOf node = .done := by
  cases mark : descent.markOf node with
  | done => rfl
  | onStack =>
      have entered := (tracks.marked.entered node).mp mark
      simp [nodes, noVisit] at entered
  | unvisited =>
      have bound := bound_of_markIn mark (by simp)
      rw [tracks.marked.sized] at bound
      have started := tracks.marked.started node bound
      rw [noStart] at started
      exact absurd mark (started.resolve_left (by simp))

end Descent

theorem not_transGen_of_acc {α : Type} {leads : α → α → Prop} {node : α}
    (ends : Acc (fun next last => leads last next) node) : ¬Relation.TransGen leads node node := by
  induction ends with
  | intro node _ ih =>
      intro around
      obtain ⟨next, first, rest⟩ := Relation.TransGen.head'_iff.mp around
      exact ih next first (Relation.TransGen.tail' rest first)

theorem Descent.Tracks.acyclic {model : FeatureModel} {descent : Descent}
    (tracks : Tracks model descent) (noVisit : descent.visits = []) (noStart : descent.starts = [])
    (node : NodeIndex) : ¬Relation.TransGen (model.Remains descent.closings) node node :=
  not_transGen_of_acc (tracks.explored.grounded node (tracks.done noVisit noStart node))

theorem FeatureModel.cyclePaths_eq (model : FeatureModel) :
    ∃ last, Descent.Moves model (.begin model) last ∧ last.visits = [] ∧ last.starts = [] ∧
      model.cyclePaths = last.cycles := by
  obtain ⟨last, moves, noVisit, noStart, ran⟩ := Descent.exists_moves_run (Descent.begin model)
  refine ⟨last, moves, noVisit, noStart, ?_⟩
  rw [cyclePaths, ← Descent.search_begin, ran]
  rfl

theorem FeatureModel.closed_cyclePaths (model : FeatureModel) :
    ∀ path ∈ model.cyclePaths, model.ClosedPath path := by
  obtain ⟨last, moves, _, _, reported⟩ := model.cyclePaths_eq
  rw [reported]
  exact ((Descent.tracks_begin model).moves moves).closed

end FeatureAtlas
