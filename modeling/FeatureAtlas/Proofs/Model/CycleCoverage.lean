import FeatureAtlas.Proofs.Model.CycleReports
import FeatureAtlas.Proofs.Model.Reporting

/-!
Which nodes the reported cycles pass. The search reports a cycle through a node exactly when the
node, at the moment it is reached, lies on a cycle of nodes that are not done. A node whose cycles
all lead over nodes done before is on no reported path.
-/

namespace FeatureAtlas

namespace FeatureModel

/-- A step of a search that has come this far would begin the visit of a node. -/
structure Reaches (model : FeatureModel) (search : CycleSearch) (node : NodeIndex) : Prop where
  steps : CycleSearch.Steps model (.begin model) search
  fresh : search.markOf node = .unvisited
  enters : ∃ next, search.step? model = some next ∧ next.markOf node = .onStack

structure Unfinished (model : FeatureModel) (search : CycleSearch) (parent child : NodeIndex) :
    Prop where
  edge : model.Edge parent child
  source : search.markOf parent ≠ .done
  target : search.markOf child ≠ .done

end FeatureModel

namespace Descent

variable {model : FeatureModel} {descent next : Descent} {node : NodeIndex}

theorem Move.cycles (move : Move model descent next) {path : List NodeIndex}
    (member : path ∈ descent.cycles) : path ∈ next.cycles := by
  cases move with
  | report _ => exact List.mem_append_left _ member
  | start _ => exact member
  | pass _ => exact member
  | descend _ => exact member
  | skip _ => exact member
  | leave => exact member

theorem Moves.cycles (moves : Moves model descent next) {path : List NodeIndex}
    (member : path ∈ descent.cycles) : path ∈ next.cycles := by
  induction moves with
  | refl => exact member
  | tail _ move ih => exact move.cycles ih

structure Enters (model : FeatureModel) (node : NodeIndex) (descent next : Descent) : Prop where
  reached : Moves model (begin model) descent
  move : Move model descent next
  fresh : descent.markOf node = .unvisited
  onStack : next.markOf node = .onStack

theorem Enters.reaches (enters : Enters model node descent next) :
    model.Reaches descent.search node :=
  ⟨enters.reached.steps, enters.fresh, next.search, enters.move.step?, enters.onStack⟩

theorem exists_enters {search : CycleSearch} (reaches : model.Reaches search node) :
    ∃ descent next, Enters model node descent next ∧ descent.search = search := by
  obtain ⟨steps, fresh, after, stepped, onStack⟩ := reaches
  rw [← search_begin] at steps
  obtain ⟨descent, moves, rfl⟩ := exists_moves_of_steps steps
  obtain ⟨next, move, rfl⟩ := exists_move_of_step stepped
  exact ⟨descent, next, ⟨moves, move, fresh, onStack⟩, rfl⟩

/-! From a reported path to the moment at which a node on it was reached. -/

theorem Move.reported (tracks : Tracks model descent) (move : Move model descent next)
    {path : List NodeIndex} (member : path ∈ next.cycles) :
    path ∈ descent.cycles ∨
      model.ClosedPath path ∧ ∀ node ∈ path, descent.markOf node = .onStack := by
  cases move with
  | report onStack =>
      obtain ⟨outer, inner, reported, stack, _, isPath, found, closed, _⟩ :=
        exists_report tracks.marked tracks.explored onStack
      rw [found] at member
      rcases List.mem_append.mp member with old | new
      · exact .inl old
      · right
        rw [List.mem_singleton.mp new]
        refine ⟨closed, ?_⟩
        intro node nodeMember
        refine (tracks.marked.entered node).mpr (List.mem_reverse.mp ?_)
        rw [isPath] at nodeMember
        refine stack ▸ List.mem_append_right _ ?_
        rcases List.mem_append.mp nodeMember with inside | last
        · exact inside
        · simp [List.mem_singleton.mp last]
  | start _ => exact .inl member
  | pass _ => exact .inl member
  | descend _ => exact .inl member
  | skip _ => exact .inl member
  | leave => exact .inl member

/-- Every node on the stack was entered when no more was done than now, and every node on a
reported path when it lay on a cycle of nodes not done. -/
structure Explained (model : FeatureModel) (descent : Descent) : Prop where
  entered : ∀ node, descent.markOf node = .onStack → ∃ first second,
    Enters model node first second ∧
      ∀ other, first.markOf other = .done → descent.markOf other = .done
  covered : ∀ path ∈ descent.cycles, ∀ node ∈ path, ∃ first second,
    Enters model node first second ∧
      Relation.TransGen (model.Unfinished first.search) node node

theorem Explained.move (explained : Explained model descent)
    (reached : Moves model (begin model) descent) (move : Move model descent next) :
    Explained model next := by
  have tracks := (tracks_begin model).moves reached
  refine ⟨?_, ?_⟩
  · intro node onStack
    cases mark : descent.markOf node with
    | unvisited =>
        exact ⟨descent, next, ⟨reached, move, mark, onStack⟩, fun other => move.done tracks⟩
    | onStack =>
        obtain ⟨first, second, enters, kept⟩ := explained.entered node mark
        exact ⟨first, second, enters, fun other done => move.done tracks (kept other done)⟩
    | done =>
        have done := move.done tracks mark
        simp [done] at onStack
  · intro path member node nodeMember
    rcases move.reported tracks member with old | ⟨closed, stacked⟩
    · exact explained.covered path old node nodeMember
    · obtain ⟨first, second, enters, kept⟩ := explained.entered node (stacked node nodeMember)
      have unfinished : ∀ other ∈ path, first.search.markOf other ≠ .done := by
        intro other otherMember done
        have now := kept other done
        simp [stacked other otherMember] at now
      refine ⟨first, second, enters, closed.transGen ?_ nodeMember⟩
      refine closed.edges.imp_of_mem_imp fun parent child parentMember childMember edge => ?_
      exact ⟨edge, unfinished parent parentMember, unfinished child childMember⟩

theorem explained_begin (model : FeatureModel) : Explained model (begin model) := by
  refine ⟨?_, by simp [begin]⟩
  intro node onStack
  rw [markOf_begin] at onStack
  split at onStack <;> simp at onStack

theorem explained (reached : Moves model (begin model) descent) : Explained model descent := by
  induction reached with
  | refl => exact explained_begin model
  | tail before move ih => exact ih.move before move

/-! From a cycle of nodes that are not done to a reported path. -/

/-- The visit of a node is going on above others. Since it began, a path that was reported and
begins at the node or below leads through the node. -/
structure Within (descent : Descent) (node : NodeIndex) (below : List Visit)
    (known : List (List NodeIndex)) : Prop where
  shape : ∃ inner examined pending, descent.visits = inner ++ ⟨node, examined, pending⟩ :: below
  through : ∀ path ∈ descent.cycles, path ∉ known →
    ∀ first ∈ path.head?, first ∈ node :: below.map Visit.node → node ∈ path

theorem mem_report {above below : List NodeIndex} {child : NodeIndex} {outer inner : List NodeIndex}
    (stack : (above ++ node :: below).reverse = outer ++ child :: inner) (fresh : child ∉ outer)
    (low : child ∈ node :: below) : node ∈ child :: inner := by
  rw [List.reverse_append, List.reverse_cons, List.append_assoc, List.singleton_append] at stack
  rcases List.mem_cons.mp low with rfl | beneath
  · exact List.mem_cons_self
  · rcases List.append_eq_append_iff.mp stack with ⟨rest, isOuter, _⟩ | ⟨rest, _, isPath⟩
    · apply absurd _ fresh
      rw [isOuter]
      exact List.mem_append_left _ (List.mem_reverse.mpr beneath)
    · rw [isPath]
      simp

theorem shape_examine {top child : NodeIndex} {seen coming : List NodeIndex} {rest : List Visit}
    {inner below : List Visit} {examined pending : List NodeIndex}
    (visits : ⟨top, seen, child :: coming⟩ :: rest = inner ++ ⟨node, examined, pending⟩ :: below) :
    ∃ inner examined pending,
      (⟨top, seen ++ [child], coming⟩ : Visit) :: rest =
        inner ++ ⟨node, examined, pending⟩ :: below := by
  cases inner with
  | nil =>
      obtain ⟨same, rfl⟩ := List.cons.inj visits
      obtain ⟨rfl, rfl, rfl⟩ := Visit.mk.inj same
      exact ⟨[], _, _, rfl⟩
  | cons first inner =>
      obtain ⟨_, rfl⟩ := List.cons.inj visits
      exact ⟨_ :: inner, examined, pending, rfl⟩

theorem Within.move {below : List Visit} {known : List (List NodeIndex)}
    (within : Within descent node below known) (tracks : Tracks model descent)
    (move : Move model descent next) :
    (∃ examined, descent.visits = ⟨node, examined, []⟩ :: below) ∨
      Within next node below known := by
  obtain ⟨⟨inner, examined, pending, visits⟩, through⟩ := within
  cases move with
  | start _ => simp at visits
  | pass _ => simp at visits
  | descend _ =>
      obtain ⟨inner, examined, pending, shape⟩ := shape_examine visits
      exact .inr ⟨⟨_ :: inner, examined, pending, congrArg _ shape⟩, through⟩
  | skip _ => exact .inr ⟨shape_examine visits, through⟩
  | report onStack =>
      obtain ⟨outer, around, reported, stack, fresh, isPath, found, _, _⟩ :=
        exists_report tracks.marked tracks.explored onStack
      refine .inr ⟨shape_examine visits, ?_⟩
      rw [found]
      intro path member unknown first isFirst low
      rcases List.mem_append.mp member with old | new
      · exact through path old unknown first isFirst low
      · have nodes := congrArg (List.map Visit.node) visits
        rw [List.map_append, List.map_cons, List.map_cons] at nodes
        rw [nodes] at stack
        rw [List.mem_singleton.mp new, isPath] at isFirst ⊢
        obtain rfl : _ = first := Option.some.inj isFirst
        exact List.mem_append_left _ (mem_report stack fresh low)
  | leave =>
      cases inner with
      | nil =>
          obtain ⟨same, rfl⟩ := List.cons.inj visits
          obtain ⟨rfl, rfl, rfl⟩ := Visit.mk.inj same
          exact .inl ⟨_, rfl⟩
      | cons top inner =>
          obtain ⟨_, rfl⟩ := List.cons.inj visits
          exact .inr ⟨⟨inner, examined, pending, rfl⟩, through⟩

theorem Within.exists_end {last : Descent} {below : List Visit} {known : List (List NodeIndex)}
    (within : Within descent node below known) (tracks : Tracks model descent)
    (moves : Moves model descent last) (ended : last.visits = []) :
    ∃ middle examined, Moves model descent middle ∧ Moves model middle last ∧
      Within middle node below known ∧ middle.visits = ⟨node, examined, []⟩ :: below := by
  induction moves using Relation.ReflTransGen.head_induction_on with
  | refl =>
      obtain ⟨inner, _, _, visits⟩ := within.shape
      simp [ended] at visits
  | head move moves ih =>
      rcases within.move tracks move with ⟨examined, visits⟩ | further
      · exact ⟨_, examined, .refl, .head move moves, within, visits⟩
      · obtain ⟨middle, examined, before, facts⟩ := ih further (tracks.move move)
        exact ⟨middle, examined, .head move before, facts⟩

theorem Enters.eq (enters : Enters model node descent next) :
    ∃ below, next.visits = ⟨node, [], model.childIndices node⟩ :: below ∧
      next.marks = descent.marks.set node .onStack ∧ next.cycles = descent.cycles := by
  obtain ⟨reached, move, fresh, onStack⟩ := enters
  have tracks := (tracks_begin model).moves reached
  have isNode {marks : List Mark} {other : NodeIndex} {mark : Mark}
      (unvisited : markIn marks node = .unvisited) (bound : other < marks.length)
      (entered : markIn (marks.set other mark) node = .onStack) : node = other := by
    by_contra different
    rw [markIn_set bound, if_neg different, unvisited] at entered
    simp at entered
  cases move with
  | start unvisited =>
      obtain rfl := isNode fresh (bound_of_markIn unvisited (by simp)) onStack
      exact ⟨[], rfl, rfl, rfl⟩
  | pass _ => exact absurd (fresh.symm.trans onStack) (by simp)
  | descend unvisited =>
      obtain rfl := isNode fresh (bound_of_markIn unvisited (by simp)) onStack
      exact ⟨_, rfl, rfl, rfl⟩
  | report _ => exact absurd (fresh.symm.trans onStack) (by simp)
  | skip _ => exact absurd (fresh.symm.trans onStack) (by simp)
  | leave =>
      obtain ⟨top, bound⟩ := tracks.marked.top
      obtain rfl := isNode fresh bound onStack
      exact absurd (fresh.symm.trans top) (by simp)

/-- The visit of a node, from when it begins to when only leaving the node is left. -/
structure Passes (model : FeatureModel) (node : NodeIndex) (first last : Descent) : Prop where
  before : Tracks model first
  after : Tracks model last
  fresh : first.markOf node = .unvisited
  ends : ∃ examined below, last.visits = ⟨node, examined, []⟩ :: below ∧
    Within last node below first.cycles
  stacked : ∀ other, first.markOf other = .onStack → last.markOf other = .onStack

variable {first last : Descent}

theorem Enters.exists_passes (enters : Enters model node descent next) :
    ∃ middle, Passes model node descent middle ∧
      ∀ path ∈ middle.cycles, path ∈ model.cyclePaths := by
  have before := (tracks_begin model).moves enters.reached
  have begun := before.move enters.move
  obtain ⟨below, visits, marks, cycles⟩ := enters.eq
  obtain ⟨last, moves, ended, _, ran⟩ := exists_moves_run next
  have paths : model.cyclePaths = last.cycles := by
    have steps := Moves.steps (enters.reached.tail enters.move)
    rw [FeatureModel.cyclePaths, ← search_begin, CycleSearch.run_of_steps steps, ran]
    rfl
  have within : Within next node below descent.cycles := by
    refine ⟨⟨[], [], _, visits⟩, ?_⟩
    intro path member unknown
    exact absurd (cycles ▸ member) unknown
  obtain ⟨middle, examined, toMiddle, fromMiddle, kept, ends⟩ :=
    within.exists_end begun moves ended
  have after := begun.moves toMiddle
  refine ⟨middle, ⟨before, after, enters.fresh, ⟨examined, below, ends, kept⟩, ?_⟩, ?_⟩
  · intro other onStack
    have bound := bound_of_markIn enters.fresh (by simp)
    have still : next.markOf other = .onStack := by
      rw [markOf, marks, markIn_set bound]
      split
      · rfl
      · exact onStack
    have entered := (begun.marked.entered other).mp still
    refine (after.marked.entered other).mpr ?_
    rw [nodes, visits] at entered
    rw [nodes, ends]
    exact entered
  · intro path member
    rw [paths]
    exact fromMiddle.cycles member

theorem Passes.settled (passes : Passes model node first last) {parent child : NodeIndex}
    (passed : parent = node ∨ last.markOf parent = .done) (edge : model.Edge parent child) :
    Settled last.marks last.closings parent child := by
  rcases passed with rfl | done
  · obtain ⟨examined, below, ends, _⟩ := passes.ends
    have split := passes.after.explored.split
    have descending := passes.after.explored.descending
    rw [ends] at split descending
    have children := split _ List.mem_cons_self
    rw [List.append_nil] at children
    exact (descending.1 child (children ▸ edge)).resolve_right (by simp)
  · exact passes.after.explored.finished parent done child edge

def Passes.Back (first last : Descent) : Prop :=
  ∃ parent child, (parent, child) ∈ last.closings ∧ first.markOf parent = .unvisited ∧
    last.markOf child = .onStack

theorem Passes.step (passes : Passes model node first last) {parent child : NodeIndex}
    (fresh : first.markOf parent = .unvisited)
    (passed : parent = node ∨ last.markOf parent = .done)
    (unfinished : model.Unfinished first.search parent child) :
    (first.markOf child = .unvisited ∧ last.markOf child = .done) ∨ Passes.Back first last := by
  have forth (done : last.markOf child = .done) : first.markOf child = .unvisited := by
    cases mark : first.markOf child with
    | unvisited => rfl
    | onStack =>
        have still := passes.stacked child mark
        simp [done] at still
    | done => exact absurd mark unfinished.target
  rcases passes.settled passed unfinished.edge with done | closing
  · exact .inl ⟨forth done, done⟩
  · obtain ⟨path, member, closes⟩ := List.mem_map.mp closing
    obtain ⟨_, childMember, _⟩ := (passes.after.closed path member).closingEdge_mem closes
    cases mark : last.markOf child with
    | unvisited => exact absurd mark (passes.after.visited path member child childMember)
    | onStack => exact .inr ⟨parent, child, closing, fresh, mark⟩
    | done => exact .inl ⟨forth mark, rfl⟩

theorem Passes.back (passes : Passes model node first last)
    (around : Relation.TransGen (model.Unfinished first.search) node node) :
    Passes.Back first last := by
  have onStack : last.markOf node = .onStack := by
    obtain ⟨examined, below, ends, _⟩ := passes.ends
    refine (passes.after.marked.entered node).mpr ?_
    simp [nodes, ends]
  -- along the cycle all is entered and done during the visit, until an edge leads back to the
  -- stack; the last edge leads to the node itself, which is on the stack
  have along : ∀ final, Relation.ReflTransGen (model.Unfinished first.search) node final →
      (first.markOf final = .unvisited ∧ (final = node ∨ last.markOf final = .done)) ∨
        Passes.Back first last := by
    intro final leads
    induction leads with
    | refl => exact .inl ⟨passes.fresh, .inl rfl⟩
    | tail _ unfinished ih =>
        rcases ih with ⟨fresh, passed⟩ | back
        · exact (passes.step fresh passed unfinished).imp (And.imp id .inr) id
        · exact .inr back
  obtain ⟨final, leads, closes⟩ := Relation.TransGen.tail'_iff.mp around
  rcases along final leads with ⟨fresh, passed⟩ | back
  · rcases passes.step fresh passed closes with ⟨_, done⟩ | back
    · simp [onStack] at done
    · exact back
  · exact back

theorem Enters.exists_path (enters : Enters model node descent next)
    (around : Relation.TransGen (model.Unfinished descent.search) node node) :
    ∃ path ∈ model.cyclePaths, node ∈ path := by
  obtain ⟨middle, passes, reported⟩ := enters.exists_passes
  obtain ⟨parent, child, closing, fresh, onStack⟩ := passes.back around
  obtain ⟨path, member, closes⟩ := List.mem_map.mp closing
  obtain ⟨parentMember, _, head⟩ := (passes.after.closed path member).closingEdge_mem closes
  obtain ⟨examined, below, ends, within⟩ := passes.ends
  refine ⟨path, reported path member, within.through path member ?_ child head ?_⟩
  · exact fun known => passes.before.visited path known parent parentMember fresh
  · have entered := (passes.after.marked.entered child).mp onStack
    rw [nodes, ends] at entered
    exact entered

end Descent

namespace FeatureModel

theorem exists_cyclePath_iff (model : FeatureModel) (node : NodeIndex) :
    (∃ path ∈ model.cyclePaths, node ∈ path) ↔
      ∃ search, model.Reaches search node ∧
        Relation.TransGen (model.Unfinished search) node node := by
  constructor
  · rintro ⟨path, member, nodeMember⟩
    obtain ⟨last, moves, _, _, reported⟩ := model.cyclePaths_eq
    rw [reported] at member
    obtain ⟨first, second, enters, around⟩ :=
      (Descent.explained moves).covered path member node nodeMember
    exact ⟨first.search, enters.reaches, around⟩
  · rintro ⟨search, reaches, around⟩
    obtain ⟨descent, next, enters, rfl⟩ := Descent.exists_enters reaches
    exact enters.exists_path around

end FeatureModel

namespace Scan

/-- The cycles reported for a model that is built are the paths found, and a node is on one of them
exactly when it lies on a cycle of nodes that are not done at the moment the search reaches it. -/
theorem build_reports_unfinished_cycles (scan : Scan) :
    scan.build.diagnostics.filter (fun diagnostic => diagnostic.kind == .cycle) =
        scan.build.cyclePaths.map
          (scan.build.cycleDiagnostic (Assembly.ofScan scan).origins) ∧
      ∀ node, (∃ path ∈ scan.build.cyclePaths, node ∈ path) ↔
        ∃ search, scan.build.Reaches search node ∧
          Relation.TransGen (scan.build.Unfinished search) node node :=
  ⟨scan.build_cycle_diagnostics, scan.build.exists_cyclePath_iff⟩

def overlap : SourceTree :=
  let mapped (name : String) : List Annotation :=
    [.mapping { targetConcept := name, granularity := .module }]
  .ofOutlines [
    { name := "A", annotations := mapped "A",
      children := [{ kind := .method, name := "b", annotations := mapped "B" }] },
    { name := "B", annotations := mapped "B",
      children := [{ kind := .method, name := "a", annotations := mapped "A" }] },
    { name := "A2", annotations := mapped "A",
      children := [{ kind := .method, name := "c", annotations := mapped "C" }] },
    { name := "C", annotations := mapped "C",
      children := [{ kind := .method, name := "b", annotations := mapped "B" }] }]

def overlapScan : Scan :=
  { tree := overlap, visited := List.range 8, pairs := overlap.elements.flatMap Element.pairs }

/-- C lies on a cycle over A and B, but the search is done with B before it reaches C. -/
theorem overlap_misses_cycle :
    overlap.scanRoots overlap.roots = .ok overlapScan ∧
      overlapScan.build.keyAt 2 = { name := "C", granularity := .module } ∧
      Relation.TransGen overlapScan.build.Edge 2 2 ∧
      ¬(∃ path ∈ overlapScan.build.cyclePaths, 2 ∈ path) ∧
      (overlapScan.build.diagnostics.filter
        fun diagnostic => diagnostic.kind == .cycle).map Diagnostic.message =
          ["containment cycle: A [MODULE] -> B [MODULE] -> A [MODULE]"] := by
  have linked : overlapScan.build.nodes.map FeatureNode.children = [[1, 2], [0], [1]] := by
    rw [build_nodes]
    rfl
  have keys : overlapScan.build.keys =
      [{ name := "A", granularity := .module }, { name := "B", granularity := .module },
        { name := "C", granularity := .module }] := by
    rw [build_keys]
    rfl
  have paths : overlapScan.build.cyclePaths = [[0, 1, 0]] := by
    let triangle : FeatureModel :=
      { nodes := [[1, 2], [0], [1]].map fun children =>
          { key := {}, members := [], children, parents := [] } }
    have same : triangle.cyclePaths = [[0, 1, 0]] := by cbv
    rw [← same]
    exact FeatureModel.cyclePaths_congr linked
  have children : overlapScan.build.childIndices =
      fun index => ([[1, 2], [0], [1]][index]?).getD [] := by
    funext index
    rw [FeatureModel.childIndices, ← List.getElem?_map, linked]
  refine ⟨SourceTree.scanRoots_of_runWithin overlapScan 16 rfl, ?_, ?_, ?_, ?_⟩
  · rw [FeatureModel.keyAt_eq, keys]
    rfl
  · have toB : overlapScan.build.Edge 2 1 := by simp [FeatureModel.Edge, children]
    have toA : overlapScan.build.Edge 1 0 := by simp [FeatureModel.Edge, children]
    have toC : overlapScan.build.Edge 0 2 := by simp [FeatureModel.Edge, children]
    exact ((Relation.TransGen.single toB).tail toA).tail toC
  · simp [paths]
  · rw [build_cycle_diagnostics, FeatureModel.detectCycles, paths]
    simp only [List.map_cons, List.map_nil, FeatureModel.cycleDiagnostic, FeatureModel.keyAt_eq,
      keys]
    rfl

end Scan

end FeatureAtlas
