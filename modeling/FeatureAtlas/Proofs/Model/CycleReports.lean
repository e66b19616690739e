import Mathlib.Data.List.Rotate
import FeatureAtlas.Proofs.Model.CycleSearch
import FeatureAtlas.Proofs.Model.Linking

/-!
What cycle detection reports. Where no child is listed twice, each edge is examined once; so it
closes at most one reported cycle, and none of those that lead over it otherwise.
-/

namespace FeatureAtlas

structure FeatureModel.WellLinked (model : FeatureModel) : Prop where
  inRange : ∀ parent, ∀ child ∈ model.childIndices parent, child < model.nodes.length
  distinct : ∀ parent, (model.childIndices parent).Nodup

namespace Descent

variable {model : FeatureModel} {descent next : Descent} {parent child node : NodeIndex}
  {examined pending : List NodeIndex} {below : List Visit} {starts : List NodeIndex}
  {marks : List Mark} {cycles : List (List NodeIndex)}

def Examined (descent : Descent) (parent child : NodeIndex) : Prop :=
  descent.markOf parent = .done ∨
    ∃ visit ∈ descent.visits, visit.node = parent ∧ child ∈ visit.examined

def Forward (descent : Descent) (parent child : NodeIndex) : Prop :=
  descent.Examined parent child ∧ (parent, child) ∉ descent.closings

theorem Examined.examine {next : NodeIndex} {more : List (List NodeIndex)}
    (known : Examined ⟨⟨node, examined, next :: pending⟩ :: below, starts, marks, cycles⟩ parent
      child) :
    Examined ⟨⟨node, examined ++ [next], pending⟩ :: below, starts, marks, more⟩ parent child := by
  rcases known with done | ⟨visit, member, isParent, isExamined⟩
  · exact .inl done
  · rcases List.mem_cons.mp member with rfl | lower
    · exact .inr ⟨_, List.mem_cons_self, isParent, List.mem_append_left _ isExamined⟩
    · exact .inr ⟨visit, List.mem_cons_of_mem _ lower, isParent, isExamined⟩

theorem Examined.enter (known : descent.Examined parent child)
    (fresh : descent.markOf node = .unvisited) :
    (descent.enter model node).Examined parent child := by
  rcases known with done | ⟨visit, member, facts⟩
  · exact .inl ((markIn_set_onStack fresh parent).mpr done)
  · exact .inr ⟨visit, List.mem_cons_of_mem _ member, facts⟩

theorem Examined.move (tracks : Tracks model descent) (move : Move model descent next)
    (known : descent.Examined parent child) : next.Examined parent child := by
  cases move with
  | start fresh =>
      refine Examined.enter ?_ fresh
      exact known
  | pass _ => exact known
  | descend fresh => exact known.examine.enter fresh
  | report _ => exact known.examine
  | skip _ => exact known.examine
  | leave =>
      have now := markIn_set_done tracks.marked.top.2 parent
      rcases known with done | ⟨visit, member, isParent, isExamined⟩
      · exact .inl (now.mpr (.inr done))
      · rcases List.mem_cons.mp member with rfl | lower
        · exact .inl (now.mpr (.inl isParent.symm))
        · exact .inr ⟨visit, lower, isParent, isExamined⟩

theorem Tracks.not_examined
    (tracks : Tracks model ⟨⟨node, examined, child :: pending⟩ :: below, starts, marks, cycles⟩)
    (linked : model.WellLinked) :
    ¬Examined ⟨⟨node, examined, child :: pending⟩ :: below, starts, marks, cycles⟩ node child := by
  rintro (done | ⟨visit, member, isNode, isExamined⟩)
  · exact absurd (tracks.marked.top.1.symm.trans done) (by simp)
  · rcases List.mem_cons.mp member with rfl | lower
    · have distinct := linked.distinct node
      rw [tracks.explored.split _ List.mem_cons_self] at distinct
      exact (List.nodup_append.mp distinct).2.2 child isExamined child List.mem_cons_self rfl
    · have absent : node ∉ below.map Visit.node := (List.nodup_cons.mp tracks.marked.distinct).1
      rw [← isNode] at absent
      exact absent (List.mem_map_of_mem lower)

/-- Reports are apart: no edge closes two of them, or closes one and is inside another. -/
structure Apart (descent : Descent) : Prop where
  once : descent.closings.Nodup
  examined : ∀ parent child, (parent, child) ∈ descent.closings → descent.Examined parent child
  inner : ∀ path ∈ descent.cycles, path.dropLast.IsChain descent.Forward
  stacked : descent.nodes.IsChain fun above below => descent.Forward below above

theorem apart_begin (model : FeatureModel) : Apart (begin model) :=
  ⟨.nil, by simp [closings, begin], by simp [begin], .nil⟩

theorem Apart.quiet (apart : Apart descent) (tracks : Tracks model descent)
    (move : Move model descent next) (same : next.cycles = descent.cycles)
    (stacked : (∀ parent child, descent.Forward parent child → next.Forward parent child) →
      next.nodes.IsChain fun above below => next.Forward below above) : Apart next := by
  have sameClosings : next.closings = descent.closings := by rw [closings, same, closings]
  have kept : ∀ parent child, descent.Forward parent child → next.Forward parent child := by
    intro parent child forward
    exact ⟨forward.1.move tracks move, sameClosings ▸ forward.2⟩
  refine ⟨sameClosings ▸ apart.once, ?_, ?_, stacked kept⟩
  · intro parent child closing
    exact (apart.examined parent child (sameClosings ▸ closing)).move tracks move
  · intro path member
    rw [same] at member
    exact (apart.inner path member).imp kept

theorem closings_snoc (visits : List Visit) (starts : List NodeIndex) (marks : List Mark)
    (cycles : List (List NodeIndex)) (path : List NodeIndex) :
    closings ⟨visits, starts, marks, cycles ++ [path]⟩ =
      cycles.map closingEdge ++ [closingEdge path] := by
  simp [closings]

theorem Forward.report {path : List NodeIndex} {other : NodeIndex}
    (unexamined :
      ¬Examined ⟨⟨node, examined, child :: pending⟩ :: below, starts, marks, cycles⟩ node child)
    (closes : closingEdge path = (node, child))
    (forward :
      Forward ⟨⟨node, examined, child :: pending⟩ :: below, starts, marks, cycles⟩ parent other) :
    Forward ⟨⟨node, examined ++ [child], pending⟩ :: below, starts, marks, cycles ++ [path]⟩
      parent other := by
  obtain ⟨known, unclosed⟩ := forward
  refine ⟨known.examine, ?_⟩
  rw [closings_snoc, closes, List.mem_append, List.mem_singleton]
  rintro (old | new)
  · exact unclosed old
  · obtain ⟨rfl, rfl⟩ := Prod.mk.inj new
    exact unexamined known

theorem Apart.report
    (apart : Apart ⟨⟨node, examined, child :: pending⟩ :: below, starts, marks, cycles⟩)
    (tracks : Tracks model ⟨⟨node, examined, child :: pending⟩ :: below, starts, marks, cycles⟩)
    (linked : model.WellLinked) (onStack : markIn marks child = .onStack) :
    Apart ⟨⟨node, examined ++ [child], pending⟩ :: below, starts, marks,
      cycles ++ (closedPath? (node :: below.map Visit.node).reverse child).toList⟩ := by
  have unexamined := tracks.not_examined linked
  obtain ⟨outer, inner, path, stack, _, isPath, found, _, closes⟩ :=
    exists_report tracks.marked tracks.explored onStack
  have onReverse := List.isChain_reverse.mpr apart.stacked
  rw [found]
  refine ⟨?_, ?_, ?_, apart.stacked.imp fun _ _ => Forward.report unexamined closes⟩
  · rw [Option.toList_some, closings_snoc, closes]
    refine List.nodup_append.mpr ⟨apart.once, by simp, ?_⟩
    intro edge old last single same
    rw [List.mem_singleton.mp single] at same
    exact unexamined (apart.examined node child (same ▸ old))
  · intro parent other closing
    rw [Option.toList_some, closings_snoc, closes, List.mem_append, List.mem_singleton] at closing
    rcases closing with old | new
    · exact (apart.examined parent other old).examine
    · obtain ⟨rfl, rfl⟩ := Prod.mk.inj new
      exact .inr ⟨_, List.mem_cons_self, rfl, by simp⟩
  · intro other member
    rcases List.mem_append.mp member with old | new
    · exact (apart.inner other old).imp fun _ _ => Forward.report unexamined closes
    · have whole : (outer ++ child :: inner).IsChain _ := stack ▸ onReverse
      have onStack : other.dropLast = child :: inner := by
        rw [List.mem_singleton.mp new, isPath, List.dropLast_concat]
      rw [onStack]
      exact whole.right_of_append.imp fun _ _ => Forward.report unexamined closes

theorem Apart.move (apart : Apart descent) (tracks : Tracks model descent)
    (linked : model.WellLinked) (move : Move model descent next) : Apart next := by
  cases move with
  | start fresh => exact apart.quiet tracks (.start fresh) rfl fun _ => .singleton _
  | pass known =>
      exact apart.quiet tracks (.pass known) rfl fun kept => apart.stacked.imp fun _ _ => kept _ _
  | skip done =>
      exact apart.quiet tracks (.skip done) rfl fun kept => apart.stacked.imp fun _ _ => kept _ _
  | leave =>
      exact apart.quiet tracks .leave rfl fun kept => apart.stacked.tail.imp fun _ _ => kept _ _
  | @descend node child examined pending below starts marks cycles fresh =>
      refine apart.quiet tracks (.descend fresh) rfl fun kept => ?_
      refine List.isChain_cons_cons.mpr ⟨⟨.inr ⟨⟨node, examined ++ [child], pending⟩, ?_⟩, ?_⟩, ?_⟩
      · simp [enter]
      · exact fun closing => tracks.not_examined linked (apart.examined node child closing)
      · exact apart.stacked.imp fun _ _ => kept _ _
  | @report node child examined pending below starts marks cycles onStack =>
      exact apart.report tracks linked onStack

theorem Apart.moves (apart : Apart descent) (tracks : Tracks model descent)
    (linked : model.WellLinked) (moves : Moves model descent next) : Apart next := by
  induction moves with
  | refl => exact apart
  | tail before move ih => exact ih.move (tracks.moves before) linked move

end Descent

/-! Closed paths. -/

theorem eq_or_leads_of_isRotated {α : Type} {leads : α → α → Prop} {path turned : List α}
    (rotated : path ~r turned) (chain : turned.IsChain leads) :
    turned = path ∨ ∀ last ∈ path.getLast?, ∀ first ∈ path.head?, leads last first := by
  obtain ⟨count, bound, rfl⟩ := List.isRotated_iff_mod.mp rotated
  by_cases none : count = 0
  · exact .inl (by simp [none])
  · by_cases all : count = path.length
    · exact .inl (by simp [all])
    · right
      rw [List.rotate_eq_drop_append_take bound, List.isChain_append] at chain
      intro last isLast first isFirst
      refine chain.2.2 last ?_ first ?_
      · rw [List.getLast?_drop, if_neg (by omega)]
        exact isLast
      · rw [List.head?_take, if_neg none]
        exact isFirst

namespace FeatureModel

variable {model : FeatureModel}

theorem ClosedPath.eq_snoc {path : List NodeIndex} (closed : model.ClosedPath path) :
    ∃ first inner, path = first :: inner ++ [first] := by
  obtain ⟨long, ends, _, _⟩ := closed
  cases path with
  | nil => simp at long
  | cons first rest =>
      rcases List.eq_nil_or_concat rest with rfl | ⟨inner, last, rfl⟩
      · simp at long
      · rw [List.head?_cons, List.concat_eq_append, ← List.cons_append, List.getLast?_concat,
          Option.some.injEq] at ends
        exact ⟨first, inner, by rw [List.concat_eq_append, ends, List.cons_append]⟩

theorem ClosedPath.closingEdge_mem {path : List NodeIndex}
    (closed : model.ClosedPath path) {parent child : NodeIndex}
    (closing : closingEdge path = (parent, child)) :
    parent ∈ path ∧ child ∈ path ∧ path.head? = some child := by
  obtain ⟨first, inner, rfl⟩ := closed.eq_snoc
  have last : (first :: inner).getLast? = some ((first :: inner).getLast (by simp)) :=
    List.getLast?_eq_getLast_of_ne_nil (by simp)
  rw [closingEdge_snoc first last] at closing
  obtain ⟨rfl, rfl⟩ := Prod.mk.inj closing
  exact ⟨List.mem_append_left _ (List.getLast_mem _), by simp, rfl⟩

theorem ClosedPath.transGen {path : List NodeIndex} (closed : model.ClosedPath path)
    {leads : NodeIndex → NodeIndex → Prop} (chain : path.IsChain leads) {node : NodeIndex}
    (member : node ∈ path) : Relation.TransGen leads node node := by
  obtain ⟨first, inner, rfl⟩ := closed.eq_snoc
  have ordered : (first :: inner ++ [first]).Pairwise (Relation.TransGen leads) :=
    List.isChain_iff_pairwise.mp (chain.imp fun _ _ => .single)
  have fromFirst := (List.pairwise_cons.mp ordered).1
  have toFirst := (List.pairwise_append.mp ordered).2.2
  have around : Relation.TransGen leads first first := fromFirst first (by simp)
  rcases List.mem_append.mp member with inside | last
  · rcases List.mem_cons.mp inside with rfl | within
    · exact around
    · exact (toFirst node inside first (by simp)).trans (fromFirst node (by simp [within]))
  · rwa [List.mem_singleton.mp last]

theorem ClosedPath.three_le {path : List NodeIndex} (closed : model.ClosedPath path)
    (loopless : ∀ node, node ∉ model.childIndices node) : 3 ≤ path.length := by
  obtain ⟨first, inner, rfl⟩ := closed.eq_snoc
  cases inner with
  | nil =>
      have loop := closed.edges
      rw [List.cons_append, List.nil_append, List.isChain_cons_cons] at loop
      exact absurd loop.1 (loopless first)
  | cons second rest => simp

end FeatureModel

theorem Descent.Apart.pairwise {model : FeatureModel} {descent : Descent}
    (apart : descent.Apart) (closed : ∀ path ∈ descent.cycles, model.ClosedPath path) :
    descent.cycles.Pairwise fun first second => ¬first.dropLast ~r second.dropLast := by
  have edges : descent.cycles.Pairwise fun first second =>
      closingEdge first ≠ closingEdge second := List.pairwise_map.mp apart.once
  refine edges.imp_of_mem ?_
  intro path other member otherMember different rotated
  obtain ⟨first, inner, rfl⟩ := (closed path member).eq_snoc
  -- the inside of the other path is a rotation, so it would lead over the closing edge of this one
  rcases eq_or_leads_of_isRotated rotated (apart.inner other otherMember) with same | leads
  · obtain ⟨otherFirst, otherInner, rfl⟩ := (closed other otherMember).eq_snoc
    rw [List.dropLast_concat, List.dropLast_concat] at same
    obtain ⟨rfl, rfl⟩ := List.cons.inj same
    exact different rfl
  · rw [List.dropLast_concat] at leads
    have last : (first :: inner).getLast? = some ((first :: inner).getLast (by simp)) :=
      List.getLast?_eq_getLast_of_ne_nil (by simp)
    have forward := leads _ last first rfl
    apply forward.2
    rw [← closingEdge_snoc first last]
    exact List.mem_map_of_mem member

/-! The models that are built. -/

namespace Scan

theorem build_wellLinked (scan : Scan) : scan.build.WellLinked := by
  refine ⟨?_, ?_⟩
  · intro parent child isChild
    rw [build_children] at isChild
    obtain ⟨attempt, attempted, _, _, rfl⟩ := mem_childrenOfAttempts.mp isChild
    have bound := (attempts_bound attempted).2
    rw [← build_keys] at bound
    simpa [FeatureModel.keys] using bound
  · intro parent
    rw [build_children]
    exact nodup_eraseDups _

theorem build_loopless (scan : Scan) (node : NodeIndex) : node ∉ scan.build.childIndices node := by
  rw [build_children]
  intro isChild
  obtain ⟨attempt, _, admitted, isParent, same⟩ := mem_childrenOfAttempts.mp isChild
  simp [LinkAttempt.admitted, isParent, same] at admitted

end Scan

namespace FeatureModel

/-- Where children are in range and none is listed twice, as in every model that is built, cycle
detection reports closed paths, no two of them over the same last edge or around the same cycle,
and without those edges nothing leads around. No built node is its own child, so that a reported
path of a built model leads through two nodes or more. -/
theorem detectCycles_exact :
    (∀ scan : Scan, scan.build.WellLinked ∧
        ∀ node, node ∉ scan.build.childIndices node) ∧
      ∀ (model : FeatureModel) (origins : List EdgeOrigin), model.WellLinked →
        ∃ paths : List (List NodeIndex),
          model.detectCycles origins = paths.map (model.cycleDiagnostic origins) ∧
          (∀ path ∈ paths, model.ClosedPath path) ∧
          ((∀ node, node ∉ model.childIndices node) → ∀ path ∈ paths, 3 ≤ path.length) ∧
          (paths.map closingEdge).Nodup ∧
          (paths.Pairwise fun first second => ¬first.dropLast ~r second.dropLast) ∧
          (∀ node, ¬Relation.TransGen (model.Remains (paths.map closingEdge)) node node) ∧
          (model.detectCycles origins = [] ↔
            ∀ node, ¬Relation.TransGen model.Edge node node) := by
  refine ⟨fun scan => ⟨scan.build_wellLinked, scan.build_loopless⟩, ?_⟩
  intro model origins linked
  obtain ⟨last, moves, noVisit, noStart, reported⟩ := model.cyclePaths_eq
  have begun := Descent.tracks_begin model
  have tracks := begun.moves moves
  have apart := (Descent.apart_begin model).moves begun linked moves
  have acyclic := tracks.acyclic noVisit noStart
  refine ⟨last.cycles, by rw [detectCycles, reported], tracks.closed, ?_, apart.once,
    apart.pairwise tracks.closed, acyclic, ?_⟩
  · exact fun loopless path member => (tracks.closed path member).three_le loopless
  · rw [detectCycles, reported, List.map_eq_nil_iff]
    constructor
    · intro none node around
      have remains : ∀ parent child, model.Edge parent child →
          model.Remains last.closings parent child := by
        intro parent child isChild
        exact ⟨isChild, by simp [Descent.closings, none]⟩
      exact acyclic node (Relation.TransGen.mono remains _ _ around)
    · intro acyclicModel
      rw [List.eq_nil_iff_forall_not_mem]
      intro path member
      have closed := tracks.closed path member
      obtain ⟨first, inner, isPath⟩ := closed.eq_snoc
      exact acyclicModel first (closed.transGen closed.edges (by simp [isPath]))

def pair : FeatureModel :=
  { nodes := [
      { key := { name := "left" }, members := [], children := [1], parents := [1] },
      { key := { name := "right" }, members := [], children := [0], parents := [0] }]
    index := { entries := [({ name := "left" }, 0), ({ name := "right" }, 1)] } }

theorem pair_detectCycles : pair.WellLinked ∧ pair.detectCycles [] ≠ [] := by
  have linked : pair.WellLinked := by
    refine ⟨?_, ?_⟩
    · intro parent child isChild
      rcases parent with _ | _ | parent
      · simp_all [pair, childIndices]
      · simp_all [pair, childIndices]
      · simp [pair, childIndices] at isChild
    · intro parent
      rcases parent with _ | _ | parent <;> simp [pair, childIndices]
  refine ⟨linked, ?_⟩
  obtain ⟨_, _, _, _, _, _, _, complete⟩ := detectCycles_exact.2 pair [] linked
  have forth : pair.Edge 0 1 := by decide
  have back : pair.Edge 1 0 := by decide
  exact fun none => complete.mp none 0 (.tail (.single forth) back)

end FeatureModel

end FeatureAtlas
