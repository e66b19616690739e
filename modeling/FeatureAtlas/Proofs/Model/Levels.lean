import FeatureAtlas.Proofs.Model.CycleMarks

/-!
Levels along containment. Each edge is checked by itself when it is added; so no way down, however
long, leads back to a coarser level, and what lies on a cycle is all of one level.
-/

namespace FeatureAtlas

theorem Granularity.rank_inj {first second : Granularity} (same : first.rank = second.rank) :
    first = second := by
  cases first <;> cases second <;> simp_all [rank]

namespace FeatureModel

variable {model : FeatureModel}

theorem Woven.rank_le_of_hasChild (woven : model.Woven) {parent child : NodeKey}
    (has : model.HasChild parent child) : parent.granularity.rank ≤ child.granularity.rank := by
  obtain ⟨above, below, isParent, isChild, edge⟩ := (woven.hasChild_iff parent child).mp has
  have keyAt {key : NodeKey} {index : NodeIndex} (found : model.indexOf? key = some index) :
      model.keyAt index = key := by
    obtain ⟨node, stored, isKey⟩ := woven.inStep.indexOf?_eq_some_iff.mp found
    simp [FeatureModel.keyAt, stored, isKey]
  have levels := woven.levels above below edge
  rw [keyAt isParent, keyAt isChild] at levels
  simpa [Granularity.canContain] using levels

theorem Woven.rank_le (woven : model.Woven) {above below : NodeKey}
    (reaches : Relation.ReflTransGen model.HasChild above below) :
    above.granularity.rank ≤ below.granularity.rank := by
  induction reaches with
  | refl => exact Nat.le_refl _
  | tail _ has ih => exact Nat.le_trans ih (woven.rank_le_of_hasChild has)

theorem Woven.granularity_eq (woven : model.Woven) {first second : NodeKey}
    (forth : Relation.ReflTransGen model.HasChild first second)
    (back : Relation.ReflTransGen model.HasChild second first) :
    first.granularity = second.granularity :=
  Granularity.rank_inj (Nat.le_antisymm (woven.rank_le forth) (woven.rank_le back))

theorem ClosedPath.reaches {path : List NodeIndex} (closed : model.ClosedPath path)
    {first second : NodeIndex} (isFirst : first ∈ path) (isSecond : second ∈ path) :
    Relation.ReflTransGen model.Edge first second := by
  have chain := closed.edges
  obtain ⟨start, inner, rfl⟩ := closed.eq_snoc
  have ordered : (start :: inner ++ [start]).Pairwise (Relation.TransGen model.Edge) :=
    List.isChain_iff_pairwise.mp (chain.imp fun _ _ => .single)
  have fromStart {node : NodeIndex} (member : node ∈ start :: inner ++ [start]) :
      Relation.ReflTransGen model.Edge start node := by
    rcases List.mem_cons.mp member with rfl | later
    · exact .refl
    · exact ((List.pairwise_cons.mp ordered).1 node later).to_reflTransGen
  have toStart {node : NodeIndex} (member : node ∈ start :: inner ++ [start]) :
      Relation.ReflTransGen model.Edge node start := by
    rcases List.mem_append.mp member with inside | last
    · exact ((List.pairwise_append.mp ordered).2.2 node inside start (by simp)).to_reflTransGen
    · rw [List.mem_singleton.mp last]
  exact (toStart isFirst).trans (fromStart isSecond)

theorem Woven.granularity_closedPath (woven : model.Woven) {path : List NodeIndex}
    (closed : model.ClosedPath path) {first second : NodeIndex} (isFirst : first ∈ path)
    (isSecond : second ∈ path) :
    (model.keyAt first).granularity = (model.keyAt second).granularity :=
  woven.granularity_eq
    ((closed.reaches isFirst isSecond).lift model.keyAt fun _ _ => woven.hasChild_keyAt)
    ((closed.reaches isSecond isFirst).lift model.keyAt fun _ _ => woven.hasChild_keyAt)

end FeatureModel

namespace Scan

/-- In a built model levels never become coarser on a way down; nodes that lead to each other, as
those that a diagnostic of a cycle names, are of one level; and nothing in the nested view is of a
coarser level than what it is nested in. -/
theorem build_levels_descend (scan : Scan) :
    (∀ above below, Relation.ReflTransGen scan.build.HasChild above below →
        above.granularity.rank ≤ below.granularity.rank) ∧
      (∀ first second, Relation.ReflTransGen scan.build.HasChild first second →
        Relation.ReflTransGen scan.build.HasChild second first →
          first.granularity = second.granularity) ∧
      (∀ diagnostic ∈ scan.build.diagnostics, diagnostic.kind = .cycle →
        ∃ path ∈ scan.build.cyclePaths,
          diagnostic = scan.build.cycleDiagnostic (Assembly.ofScan scan).origins path ∧
          ∀ first ∈ path, ∀ second ∈ path,
            (scan.build.keyAt first).granularity = (scan.build.keyAt second).granularity) ∧
      ∀ site ∈ Occurrence.sitesAll [] scan.build.nestedView, ∀ key ∈ site.above,
        key.granularity.rank ≤ site.occurrence.key.granularity.rank := by
  have woven := scan.build_coherent.toWoven
  refine ⟨fun _ _ => woven.rank_le, fun _ _ => woven.granularity_eq, ?_, ?_⟩
  · intro diagnostic member isCycle
    obtain ⟨path, isPath, rfl⟩ := exists_cyclePath member isCycle
    refine ⟨path, isPath, rfl, fun first isFirst second isSecond => ?_⟩
    exact woven.granularity_closedPath (scan.build.closed_cyclePaths path isPath) isFirst isSecond
  · intro site isSite key above
    exact woven.rank_le (woven.contained_nestedView site isSite key above).to_reflTransGen

theorem stalls_of_one_level :
    let model := (stallsScan [0, 1, 2, 3]).build
    Relation.ReflTransGen model.HasChild (model.keyAt 0) (model.keyAt 1) ∧
      Relation.ReflTransGen model.HasChild (model.keyAt 1) (model.keyAt 0) ∧
      (model.keyAt 0).granularity = (model.keyAt 1).granularity ∧
      ∃ diagnostic ∈ model.diagnostics, diagnostic.kind = .cycle ∧ ∃ path ∈ model.cyclePaths,
        ∀ first ∈ path, ∀ second ∈ path,
          (model.keyAt first).granularity = (model.keyAt second).granularity := by
  obtain ⟨forth, back⟩ := stalls_hasChild
  obtain ⟨_, level, named, _⟩ := build_levels_descend (stallsScan [0, 1, 2, 3])
  obtain ⟨diagnostic, member, isCycle⟩ :=
    (hasCycle_iff (stallsScan [0, 1, 2, 3])).mpr ⟨_, .tail (.single forth) back⟩
  obtain ⟨path, isPath, _, levels⟩ := named diagnostic member isCycle
  exact ⟨.single forth, .single back, level _ _ (.single forth) (.single back), diagnostic, member,
    isCycle, path, isPath, levels⟩

end Scan

end FeatureAtlas
