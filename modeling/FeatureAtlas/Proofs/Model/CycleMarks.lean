import Mathlib.Data.Fintype.Order
import FeatureAtlas.Proofs.Model.Occurrences
import FeatureAtlas.Proofs.Model.RootOrder

/-!
Cycles in the nested view and in the diagnostics. The view and the cycle search go through the nodes
in different orders and meet different edges that close a cycle; but each meets one exactly when
there is one. Without a cycle every node lies below a node that nothing contains.
-/

namespace FeatureAtlas

namespace FeatureModel

variable {model : FeatureModel}

/-! From marks to cycles. -/

theorem Unfolds.contained (woven : model.Woven) {path expanded pending final : List NodeIndex}
    {view : List Occurrence} (unfolds : model.Unfolds path expanded pending view final)
    (below : ∀ index ∈ pending, ∀ above ∈ path,
      Relation.TransGen model.HasChild (model.keyAt above) (model.keyAt index)) :
    ∀ site ∈ Occurrence.sitesAll (path.map model.keyAt) view, ∀ key ∈ site.above,
      Relation.TransGen model.HasChild key site.occurrence.key := by
  induction unfolds with
  | done => simp
  | closing _ _ ih =>
      have later := ih fun other member => below other (by simp [member])
      rw [Occurrence.sitesAll_cons, leafAt, Occurrence.sitesAll_nil, List.nil_append]
      exact List.forall_mem_cons.mpr ⟨List.forall_mem_map.mpr (below _ (by simp)), later⟩
  | again _ _ _ ih =>
      have later := ih fun other member => below other (by simp [member])
      rw [Occurrence.sitesAll_cons, leafAt, Occurrence.sitesAll_nil, List.nil_append]
      exact List.forall_mem_cons.mpr ⟨List.forall_mem_map.mpr (below _ (by simp)), later⟩
  | @fresh path _ index _ _ _ _ _ _ _ _ _ ihBelow ih =>
      have later := ih fun other member => below other (by simp [member])
      have inside := ihBelow <| by
        intro child isChild
        have edge := woven.hasChild_keyAt isChild
        refine List.forall_mem_cons.mpr ⟨.single edge, fun above member => ?_⟩
        exact (below index (by simp) above member).tail edge
      rw [Occurrence.sitesAll_cons]
      exact List.forall_mem_cons.mpr ⟨List.forall_mem_map.mpr (below index (by simp)),
        List.forall_mem_append.mpr ⟨inside, later⟩⟩

theorem Woven.contained_nestedView (woven : model.Woven) :
    ∀ site ∈ Occurrence.sitesAll [] model.nestedView, ∀ key ∈ site.above,
      Relation.TransGen model.HasChild key site.occurrence.key := by
  obtain ⟨_, _, unfolds, _⟩ := nestedView_unfolds fun _ _ member => (woven.inRange member).2
  exact unfolds.contained woven (by simp)

/-! From cycles to marks. -/

def Grounded (model : FeatureModel) (node : NodeIndex) : Prop :=
  Acc (fun child parent => model.Edge parent child) node

/-- Where no cycle is marked, the ways down from all that has been expanded come to an end, but for
the nodes still on the path. A node leaves the path with the ways down from its children ended. -/
theorem Unfolds.grounded {path expanded pending final : List NodeIndex} {view : List Occurrence}
    (unfolds : model.Unfolds path expanded pending view final) (keys : List NodeKey)
    (unmarked : ∀ site ∈ Occurrence.sitesAll keys view, site.occurrence.cycle = false)
    (started : ∀ index ∈ expanded, index ∈ path ∨ model.Grounded index) :
    (∀ index ∈ pending, model.Grounded index) ∧
      ∀ index ∈ final, index ∈ path ∨ model.Grounded index := by
  induction unfolds generalizing keys with
  | done => exact ⟨by simp, started⟩
  | closing _ _ _ =>
      rw [Occurrence.sitesAll_cons] at unmarked
      exact absurd (List.forall_mem_cons.mp unmarked).1 (by simp [leafAt])
  | again offPath known _ ih =>
      rw [Occurrence.sitesAll_cons, leafAt, Occurrence.sitesAll_nil, List.nil_append] at unmarked
      obtain ⟨later, ended⟩ := ih keys (List.forall_mem_cons.mp unmarked).2 started
      exact ⟨List.forall_mem_cons.mpr ⟨(started _ known).resolve_left offPath, later⟩, ended⟩
  | @fresh path expanded index _ _ inner _ _ _ _ _ _ ihBelow ih =>
      rw [Occurrence.sitesAll_cons] at unmarked
      obtain ⟨insideUnmarked, laterUnmarked⟩ :=
        List.forall_mem_append.mp (List.forall_mem_cons.mp unmarked).2
      obtain ⟨children, inside⟩ := ihBelow _ insideUnmarked <| by
        refine List.forall_mem_cons.mpr ⟨.inl (by simp), fun other known => ?_⟩
        exact (started other known).imp_left (List.mem_cons_of_mem _)
      have here : model.Grounded index := Acc.intro index children
      obtain ⟨later, ended⟩ := ih keys laterUnmarked <| by
        intro other known
        rcases inside other known with onPath | grounded
        · rcases List.mem_cons.mp onPath with rfl | further
          · exact .inr here
          · exact .inl further
        · exact .inr grounded
      exact ⟨List.forall_mem_cons.mpr ⟨here, later⟩, ended⟩

theorem grounded_of_beyond {node : NodeIndex} (beyond : model.nodes.length ≤ node) :
    model.Grounded node := by
  refine Acc.intro node fun child isChild => ?_
  exact absurd (lt_of_mem_childIndices isChild) (Nat.not_lt_of_le beyond)

theorem Woven.acyclic_of_unmarked (woven : model.Woven)
    (unmarked : ∀ site ∈ Occurrence.sitesAll [] model.nestedView, site.occurrence.cycle = false)
    (node : NodeIndex) : ¬Relation.TransGen model.Edge node node := by
  obtain ⟨_, final, unfolds, _, _, _, all⟩ :=
    nestedView_unfolds fun _ _ member => (woven.inRange member).2
  have ended := (unfolds.grounded [] unmarked (by simp)).2
  refine not_transGen_of_acc ?_
  rcases Nat.lt_or_ge node model.nodes.length with bound | beyond
  · exact (ended node (all.mem_iff.mpr (List.mem_range.mpr bound))).resolve_left (by simp)
  · exact grounded_of_beyond beyond

theorem Woven.exists_marked_iff (woven : model.Woven) :
    (∃ entry ∈ Occurrence.preorderAll 0 model.nestedView, entry.2.cycle = true) ↔
      ∃ key, Relation.TransGen model.HasChild key key := by
  have entries := Occurrence.preorderAll_eq [] model.nestedView
  rw [List.length_nil] at entries
  rw [entries, ← woven.exists_around_iff]
  constructor
  · rintro ⟨entry, member, marked⟩
    obtain ⟨site, isSite, rfl⟩ := List.mem_map.mp member
    have around := (woven.displays_nestedView.cycles site isSite).mp marked
    exact woven.exists_around_iff.mpr ⟨_, woven.contained_nestedView site isSite _ around⟩
  · rintro ⟨node, around⟩
    by_contra none
    refine woven.acyclic_of_unmarked (fun site isSite => ?_) node around
    refine Bool.eq_false_iff.mpr fun marked => none ?_
    exact ⟨_, List.mem_map_of_mem isSite, marked⟩

/-! Without cycles. -/

theorem Woven.exists_parent (woven : model.Woven) {index : NodeIndex}
    (bound : index < model.nodes.length) (contained : index ∉ model.rootIndices) :
    ∃ parent < model.nodes.length, model.Edge parent index := by
  have nested : model.isNested index = true := by
    by_contra free
    exact contained (List.mem_filter.mpr ⟨List.mem_range.mpr bound, by simpa using free⟩)
  have some : model.parentIndices index ≠ [] := by
    simpa [isNested, parentIndices, bound] using nested
  obtain ⟨parent, member⟩ := List.exists_mem_of_ne_nil _ some
  have edge := (woven.mirrored parent index).mpr member
  exact ⟨parent, (woven.inRange edge).1, edge⟩

theorem wellFounded_of_acyclic {α : Type} [Finite α] {leads : α → α → Prop}
    (acyclic : ∀ node, ¬Relation.TransGen leads node node) : WellFounded leads := by
  have transitive : IsTrans α (Relation.TransGen leads) := ⟨fun _ _ _ => .trans⟩
  have irreflexive : Std.Irrefl (Relation.TransGen leads) := ⟨acyclic⟩
  exact Subrelation.wf .single (Finite.wellFounded_of_trans_of_irrefl (Relation.TransGen leads))

theorem Woven.exists_root (woven : model.Woven)
    (acyclic : ∀ node, ¬Relation.TransGen model.Edge node node) {index : NodeIndex}
    (bound : index < model.nodes.length) :
    ∃ root ∈ model.rootIndices, Relation.ReflTransGen model.Edge root index := by
  have ends : WellFounded fun above below : Fin model.nodes.length => model.Edge above below :=
    wellFounded_of_acyclic fun node around =>
      acyclic node (around.lift Fin.val fun _ _ edge => edge)
  have reached (node : Fin model.nodes.length) :
      ∃ root ∈ model.rootIndices, Relation.ReflTransGen model.Edge root node := by
    induction node using ends.induction with
    | _ node ih =>
        by_cases isRoot : node.val ∈ model.rootIndices
        · exact ⟨node, isRoot, .refl⟩
        · obtain ⟨parent, parentBound, edge⟩ := woven.exists_parent node.isLt isRoot
          obtain ⟨root, isRoot, above⟩ := ih ⟨parent, parentBound⟩ edge
          exact ⟨root, isRoot, above.tail edge⟩
  exact reached ⟨index, bound⟩

theorem Woven.map_key_nestedView (woven : model.Woven)
    (acyclic : ∀ node, ¬Relation.TransGen model.Edge node node) :
    model.nestedView.map Occurrence.key = model.roots.map FeatureNode.key := by
  obtain ⟨further, chosen, keys, apart⟩ := woven.displays_nestedView.tops
  have none : further = [] := by
    refine List.eq_nil_iff_forall_not_mem.mpr fun late member => ?_
    obtain ⟨root, isRoot, above⟩ :=
      woven.exists_root acyclic (List.mem_range.mp (chosen.subset member))
    exact (List.pairwise_append.mp apart).2.2 root isRoot late member above
  rw [keys, none, List.map_nil, List.append_nil]

theorem Woven.exists_root_node (woven : model.Woven)
    (acyclic : ∀ node, ¬Relation.TransGen model.Edge node node) {node : FeatureNode}
    (member : node ∈ model.nodes) :
    ∃ root ∈ model.roots, Relation.ReflTransGen model.HasChild root.key node.key := by
  obtain ⟨index, bound, rfl⟩ := List.getElem_of_mem member
  obtain ⟨root, isRoot, above⟩ := woven.exists_root acyclic bound
  have listed : model.keyAt root ∈ model.roots.map FeatureNode.key :=
    model.map_key_roots ▸ List.mem_map_of_mem isRoot
  obtain ⟨rootNode, isNode, isKey⟩ := List.mem_map.mp listed
  have key : model.keyAt index = model.nodes[index].key := by simp [keyAt, bound]
  refine ⟨rootNode, isNode, ?_⟩
  rw [isKey, ← key]
  exact above.lift model.keyAt fun _ _ => woven.hasChild_keyAt

end FeatureModel

namespace Scan

/-- The nested view of a built model marks a cycle exactly when a cycle is reported, and both do so
exactly when a node contains itself. Otherwise the view starts from the nodes that nothing contains,
in their order, and all nodes are below them. -/
theorem build_marks_reported_cycles (scan : Scan) :
    ((∃ entry ∈ Occurrence.preorderAll 0 scan.build.nestedView, entry.2.cycle = true) ↔
        scan.HasCycle) ∧
      (scan.HasCycle ↔ ∃ key, Relation.TransGen scan.build.HasChild key key) ∧
      (¬scan.HasCycle →
        scan.build.nestedView.map Occurrence.key = scan.build.roots.map FeatureNode.key ∧
          ∀ node ∈ scan.build.nodes, ∃ root ∈ scan.build.roots,
            Relation.ReflTransGen scan.build.HasChild root.key node.key) := by
  have woven := scan.build_coherent.toWoven
  refine ⟨woven.exists_marked_iff.trans scan.hasCycle_iff.symm, scan.hasCycle_iff, ?_⟩
  intro unreported
  have acyclic : ∀ node, ¬Relation.TransGen scan.build.Edge node node := by
    intro node around
    exact unreported (scan.hasCycle_iff.mpr (woven.exists_around_iff.mp ⟨node, around⟩))
  exact ⟨woven.map_key_nestedView acyclic, fun node => woven.exists_root_node acyclic⟩

theorem stalls_hasChild :
    let model := (stallsScan [0, 1, 2, 3]).build
    model.HasChild (model.keyAt 0) (model.keyAt 1) ∧
      model.HasChild (model.keyAt 1) (model.keyAt 0) := by
  have woven := (stallsScan [0, 1, 2, 3]).build_coherent.toWoven
  constructor
  · apply woven.hasChild_keyAt
    rw [FeatureModel.Edge, build_children]
    decide
  · apply woven.hasChild_keyAt
    rw [FeatureModel.Edge, build_children]
    decide

theorem stalls_marked_shop_rooted :
    (∃ entry ∈ Occurrence.preorderAll 0 (stallsScan [0, 1, 2, 3]).build.nestedView,
        entry.2.cycle = true) ∧
      ¬shopScan.HasCycle ∧
      shopScan.build.nestedView.map Occurrence.key =
        shopScan.build.roots.map FeatureNode.key := by
  have around : ∃ key, Relation.TransGen (stallsScan [0, 1, 2, 3]).build.HasChild key key :=
    ⟨_, .tail (.single stalls_hasChild.1) stalls_hasChild.2⟩
  obtain ⟨marked, cyclic, _⟩ := build_marks_reported_cycles (stallsScan [0, 1, 2, 3])
  obtain ⟨_, shopCyclic, rooted⟩ := build_marks_reported_cycles shopScan
  have accepted : shop.scanRoots shop.roots = .ok shopScan :=
    SourceTree.scanRoots_of_runWithin shopScan 6 rfl
  have finer : ∀ parent ∈ nodeKeys shopScan.mappings, ∀ child ∈ nodeKeys shopScan.mappings,
      parent ≠ child → parent.granularity.rank ≤ child.granularity.rank →
        parent.granularity.rank < child.granularity.rank := by
    decide
  have descends : ∀ parent child, shopScan.build.HasChild parent child →
      parent.granularity.rank < child.granularity.rank := by
    intro parent child has
    obtain ⟨different, coarser, nesting, nests, rfl, rfl⟩ :=
      (build_hasChild_iff accepted parent child).mp has
    obtain ⟨childMember, parentMember⟩ := nests.mem_nodeKeys accepted
    exact finer _ parentMember _ childMember different coarser
  have uncycled : ¬shopScan.HasCycle := by
    rw [shopCyclic]
    rintro ⟨key, around⟩
    have below := around.lift (fun key : NodeKey => key.granularity.rank) descends
    rw [Relation.transGen_eq_self] at below
    exact Nat.lt_irrefl _ below
  exact ⟨marked.mpr (cyclic.mpr around), uncycled, (rooted uncycled).1⟩

end Scan

end FeatureAtlas
