import Mathlib.Data.List.Perm.Subperm
import FeatureAtlas.Model.NestedView
import FeatureAtlas.Proofs.Model.Coherence
import FeatureAtlas.Proofs.Model.CycleReports

/-!
The nested view without a bound on its depth. Rules say which occurrences a node has below a path of
nodes; the view follows these rules on every graph, whatever cycles it has, and what has been
expanded is closed under containment as soon as the path is empty again.
-/

namespace FeatureAtlas

namespace FeatureModel

/-- The occurrences of some nodes, one after the other, below the nodes of `path`, and the nodes
expanded before and after. -/
inductive Unfolds (model : FeatureModel) :
    List NodeIndex → List NodeIndex → List NodeIndex → List Occurrence → List NodeIndex → Prop
  | done {path expanded} : Unfolds model path expanded [] [] expanded
  | closing {path expanded index rest view final} : index ∈ path →
      Unfolds model path expanded rest view final →
      Unfolds model path expanded (index :: rest) (model.leafAt index true false :: view) final
  | again {path expanded index rest view final} : index ∉ path → index ∈ expanded →
      Unfolds model path expanded rest view final →
      Unfolds model path expanded (index :: rest) (model.leafAt index false true :: view) final
  | fresh {path expanded index rest below inner view final} : index ∉ path → index ∉ expanded →
      Unfolds model (index :: path) (index :: expanded) (model.childIndices index) below inner →
      Unfolds model path inner rest view final →
      Unfolds model path expanded (index :: rest)
        ({ model.leafAt index false false with children := below } :: view) final

variable {model : FeatureModel}

theorem Unfolds.append {path expanded first second inner final : List NodeIndex}
    {firstView secondView : List Occurrence}
    (unfolds : model.Unfolds path expanded first firstView inner)
    (later : model.Unfolds path inner second secondView final) :
    model.Unfolds path expanded (first ++ second) (firstView ++ secondView) final := by
  induction unfolds with
  | done => exact later
  | closing onPath _ ih => exact .closing onPath (ih later)
  | again offPath known _ ih => exact .again offPath known (ih later)
  | fresh offPath unknown below _ _ ih => exact .fresh offPath unknown below (ih later)

theorem exists_unfolds_each {path pending : List NodeIndex}
    {visit : List NodeIndex → NodeIndex → Occurrence × List NodeIndex}
    (each : ∀ expanded, ∀ index ∈ pending,
      model.Unfolds path expanded [index] [(visit expanded index).1] (visit expanded index).2)
    (shown : List Occurrence) (expanded : List NodeIndex) :
    ∃ view final, pending.foldl (fun (state : List Occurrence × List NodeIndex) index =>
        (state.1 ++ [(visit state.2 index).1], (visit state.2 index).2)) (shown, expanded) =
          (shown ++ view, final) ∧
      model.Unfolds path expanded pending view final := by
  induction pending generalizing shown expanded with
  | nil => exact ⟨[], expanded, by simp, .done⟩
  | cons index rest ih =>
      obtain ⟨view, final, folded, unfolds⟩ :=
        ih (fun expanded other member => each expanded other (by simp [member]))
          (shown ++ [(visit expanded index).1]) (visit expanded index).2
      refine ⟨(visit expanded index).1 :: view, final, ?_,
        (each expanded index (by simp)).append unfolds⟩
      rw [List.foldl_cons, folded, List.append_assoc, List.singleton_append]

theorem mem_of_full {path : List NodeIndex} (apart : path.Nodup)
    (bound : ∀ node ∈ path, node < model.nodes.length) (full : path.length = model.nodes.length)
    {index : NodeIndex} (here : index < model.nodes.length) : index ∈ path := by
  have within : path ⊆ List.range model.nodes.length :=
    fun node member => List.mem_range.mpr (bound node member)
  have same := (apart.subperm within).perm_of_length_le (by rw [List.length_range, full])
  exact same.mem_iff.mpr (List.mem_range.mpr here)

theorem expand_of_mem_path {levels : Nat} {path expanded : List NodeIndex} {index : NodeIndex}
    (onPath : index ∈ path) :
    model.expand levels path expanded index = (model.leafAt index true false, expanded) := by
  cases levels with
  | zero => rw [expand, if_pos (List.contains_iff_mem.mpr onPath)]
  | succ levels => rw [expand, if_pos (List.contains_iff_mem.mpr onPath)]

theorem expand_of_mem {levels : Nat} {path expanded : List NodeIndex} {index : NodeIndex}
    (offPath : index ∉ path) (known : index ∈ expanded) :
    model.expand levels path expanded index = (model.leafAt index false true, expanded) := by
  have offPath := offPath ∘ List.contains_iff_mem.mp
  cases levels with
  | zero => rw [expand, if_neg offPath, if_pos (List.contains_iff_mem.mpr known)]
  | succ levels => rw [expand, if_neg offPath, if_pos (List.contains_iff_mem.mpr known)]

theorem expand_succ {levels : Nat} {path expanded : List NodeIndex} {index : NodeIndex}
    (offPath : index ∉ path) (unknown : index ∉ expanded) {below : List Occurrence}
    {inner : List NodeIndex}
    (folded : (model.childIndices index).foldl
      (fun (state : List Occurrence × List NodeIndex) child =>
        (state.1 ++ [(model.expand levels (index :: path) state.2 child).1],
          (model.expand levels (index :: path) state.2 child).2)) ([], index :: expanded) =
        (below, inner)) :
    model.expand (levels + 1) path expanded index =
      ({ model.leafAt index false false with children := below }, inner) := by
  rw [expand, if_neg (offPath ∘ List.contains_iff_mem.mp),
    if_neg (unknown ∘ List.contains_iff_mem.mp)]
  refine Eq.trans ?_ (congrArg (fun state : List Occurrence × List NodeIndex =>
    ({ model.leafAt index false false with children := state.1 }, state.2)) folded)
  rfl

theorem expand_unfolds
    (inRange : ∀ parent child, child ∈ model.childIndices parent → child < model.nodes.length)
    {levels : Nat} {path : List NodeIndex} (apart : path.Nodup)
    (bound : ∀ node ∈ path, node < model.nodes.length)
    (enough : path.length + levels = model.nodes.length) (expanded : List NodeIndex)
    {index : NodeIndex} (here : index < model.nodes.length) :
    model.Unfolds path expanded [index] [(model.expand levels path expanded index).1]
      (model.expand levels path expanded index).2 := by
  induction levels generalizing path expanded index with
  | zero =>
      rw [expand_of_mem_path (mem_of_full apart bound (by simpa using enough) here)]
      exact .closing (mem_of_full apart bound (by simpa using enough) here) .done
  | succ levels ih =>
      by_cases onPath : index ∈ path
      · rw [expand_of_mem_path onPath]
        exact .closing onPath .done
      · by_cases known : index ∈ expanded
        · rw [expand_of_mem onPath known]
          exact .again onPath known .done
        · have deeper : ∀ node ∈ index :: path, node < model.nodes.length := by
            intro node member
            rcases List.mem_cons.mp member with rfl | member
            · exact here
            · exact bound node member
          have each : ∀ expanded, ∀ child ∈ model.childIndices index,
              model.Unfolds (index :: path) expanded [child]
                [(model.expand levels (index :: path) expanded child).1]
                (model.expand levels (index :: path) expanded child).2 := by
            intro expanded child member
            refine ih (List.nodup_cons.mpr ⟨onPath, apart⟩) deeper ?_ expanded
              (inRange index child member)
            rw [List.length_cons]
            omega
          obtain ⟨below, inner, folded, unfolds⟩ :=
            exists_unfolds_each each [] (index :: expanded)
          rw [expand_succ onPath known folded]
          exact .fresh onPath known unfolds .done

/-! What has been expanded. -/

/-- What is contained in an expanded node is expanded, but for the nodes still on the path. -/
def Closed (model : FeatureModel) (path expanded : List NodeIndex) : Prop :=
  ∀ index ∈ expanded, index ∈ path ∨ model.childIndices index ⊆ expanded

theorem Unfolds.subset {path expanded pending final : List NodeIndex} {view : List Occurrence}
    (unfolds : model.Unfolds path expanded pending view final) : expanded ⊆ final := by
  induction unfolds with
  | done => exact List.Subset.refl _
  | closing _ _ ih => exact ih
  | again _ _ _ ih => exact ih
  | fresh _ _ _ _ ihBelow ih =>
      exact fun node member => ih (ihBelow (List.mem_cons_of_mem _ member))

theorem Unfolds.pending_subset {path expanded pending final : List NodeIndex}
    {view : List Occurrence} (unfolds : model.Unfolds path expanded pending view final)
    (within : path ⊆ expanded) : pending ⊆ final := by
  induction unfolds with
  | done => exact List.nil_subset _
  | closing onPath rest ih =>
      exact List.cons_subset.mpr ⟨rest.subset (within onPath), ih within⟩
  | again _ known rest ih => exact List.cons_subset.mpr ⟨rest.subset known, ih within⟩
  | fresh _ _ below rest _ ih =>
      refine List.cons_subset.mpr ⟨rest.subset (below.subset (by simp)), ih ?_⟩
      exact fun node member => below.subset (List.mem_cons_of_mem _ (within member))

theorem Unfolds.closed {path expanded pending final : List NodeIndex} {view : List Occurrence}
    (unfolds : model.Unfolds path expanded pending view final) (within : path ⊆ expanded)
    (closed : model.Closed path expanded) : model.Closed path final := by
  induction unfolds with
  | done => exact closed
  | closing _ _ ih => exact ih within closed
  | again _ _ _ ih => exact ih within closed
  | @fresh path expanded index rest _ inner _ _ _ _ below _ ihBelow ih =>
      have deeper : index :: path ⊆ index :: expanded := List.cons_subset_cons _ within
      have inside := ihBelow deeper <| by
        intro node member
        rcases List.mem_cons.mp member with rfl | old
        · exact .inl (by simp)
        · rcases closed node old with onPath | contained
          · exact .inl (List.mem_cons_of_mem _ onPath)
          · exact .inr fun child isChild => List.mem_cons_of_mem _ (contained isChild)
      refine ih (fun node member => below.subset (List.mem_cons_of_mem _ (within member))) ?_
      intro node member
      rcases inside node member with onPath | contained
      · rcases List.mem_cons.mp onPath with rfl | further
        · exact .inr (below.pending_subset deeper)
        · exact .inl further
      · exact .inr contained

theorem Closed.reaches {expanded : List NodeIndex} (closed : model.Closed [] expanded)
    {first last : NodeIndex} (member : first ∈ expanded)
    (reaches : Relation.ReflTransGen model.Edge first last) : last ∈ expanded := by
  induction reaches with
  | refl => exact member
  | tail _ edge ih =>
      rcases closed _ ih with onPath | contained
      · simp at onPath
      · exact contained edge

theorem Unfolds.nodup {path expanded pending final : List NodeIndex} {view : List Occurrence}
    (unfolds : model.Unfolds path expanded pending view final) (distinct : expanded.Nodup) :
    final.Nodup := by
  induction unfolds with
  | done => exact distinct
  | closing _ _ ih => exact ih distinct
  | again _ _ _ ih => exact ih distinct
  | fresh _ unknown _ _ ihBelow ih => exact ih (ihBelow (List.nodup_cons.mpr ⟨unknown, distinct⟩))

theorem Unfolds.bound
    (inRange : ∀ parent child, child ∈ model.childIndices parent → child < model.nodes.length)
    {path expanded pending final : List NodeIndex} {view : List Occurrence}
    (unfolds : model.Unfolds path expanded pending view final)
    (pendingBound : ∀ index ∈ pending, index < model.nodes.length)
    (expandedBound : ∀ index ∈ expanded, index < model.nodes.length) :
    ∀ index ∈ final, index < model.nodes.length := by
  induction unfolds with
  | done => exact expandedBound
  | closing _ _ ih =>
      exact ih (fun node member => pendingBound node (by simp [member])) expandedBound
  | again _ _ _ ih =>
      exact ih (fun node member => pendingBound node (by simp [member])) expandedBound
  | fresh _ _ _ _ ihBelow ih =>
      refine ih (fun node member => pendingBound node (by simp [member])) ?_
      refine ihBelow (fun child member => inRange _ child member) ?_
      intro node member
      rcases List.mem_cons.mp member with rfl | old
      · exact pendingBound _ (by simp)
      · exact expandedBound node old

/-! The top of the view. -/

def rootIndices (model : FeatureModel) : List NodeIndex :=
  (List.range model.nodes.length).filter fun index => !model.isNested index

theorem expandTop_unfolds
    (inRange : ∀ parent child, child ∈ model.childIndices parent → child < model.nodes.length)
    {skip : List NodeIndex → NodeIndex → Bool} {tops : List NodeIndex}
    {state : List Occurrence × List NodeIndex}
    (unfolds : model.Unfolds [] [] tops state.1 state.2) {index : NodeIndex}
    (here : index < model.nodes.length) (taken : skip state.2 index = false) :
    model.Unfolds [] [] (tops ++ [index]) (model.expandTop skip state index).1
      (model.expandTop skip state index).2 := by
  have next := expand_unfolds inRange List.nodup_nil (by simp)
    (by rw [List.length_nil, Nat.zero_add]) state.2 here
  rw [expandTop, taken]
  exact unfolds.append next

theorem subset_expandTop
    (inRange : ∀ parent child, child ∈ model.childIndices parent → child < model.nodes.length)
    {skip : List NodeIndex → NodeIndex → Bool} {state : List Occurrence × List NodeIndex}
    {index : NodeIndex} (here : index < model.nodes.length) :
    state.2 ⊆ (model.expandTop skip state index).2 := by
  rw [expandTop]
  split
  · exact List.Subset.refl _
  · exact (expand_unfolds inRange List.nodup_nil (by simp)
      (by rw [List.length_nil, Nat.zero_add]) state.2 here).subset

theorem foldl_roots_unfolds
    (inRange : ∀ parent child, child ∈ model.childIndices parent → child < model.nodes.length)
    {indices : List NodeIndex} (bound : ∀ index ∈ indices, index < model.nodes.length) :
    model.Unfolds [] [] (indices.filter fun index => !model.isNested index)
      (indices.foldl (model.expandTop fun _ index => model.isNested index) ([], [])).1
      (indices.foldl (model.expandTop fun _ index => model.isNested index) ([], [])).2 := by
  induction indices using List.reverseRecOn with
  | nil => exact .done
  | append_singleton indices index ih =>
      have unfolds := ih fun other member => bound other (by simp [member])
      rw [List.foldl_append, List.foldl_cons, List.foldl_nil, List.filter_append, List.filter_cons]
      cases nested : model.isNested index with
      | true => simpa [expandTop, nested] using unfolds
      | false =>
          exact expandTop_unfolds inRange unfolds (bound index (by simp)) nested

structure Tops (model : FeatureModel) (roots further : List NodeIndex)
    (state : List Occurrence × List NodeIndex) : Prop where
  unfolds : model.Unfolds [] [] (roots ++ further) state.1 state.2
  apart : (∀ root ∈ roots, ∀ late ∈ further, ¬Relation.ReflTransGen model.Edge root late) ∧
    further.Pairwise fun first second => ¬Relation.ReflTransGen model.Edge first second

theorem exists_tops
    (inRange : ∀ parent child, child ∈ model.childIndices parent → child < model.nodes.length)
    {roots : List NodeIndex} {start : List Occurrence × List NodeIndex}
    (unfolds : model.Unfolds [] [] roots start.1 start.2) {indices : List NodeIndex}
    (bound : ∀ index ∈ indices, index < model.nodes.length) :
    ∃ further, further.Sublist indices ∧
      model.Tops roots further
        (indices.foldl (model.expandTop fun expanded index => expanded.contains index) start) ∧
      indices ⊆ (indices.foldl
        (model.expandTop fun expanded index => expanded.contains index) start).2 := by
  induction indices using List.reverseRecOn with
  | nil => exact ⟨[], List.Sublist.refl _, ⟨by simpa using unfolds, by simp, by simp⟩, by simp⟩
  | append_singleton indices index ih =>
      obtain ⟨further, chosen, tops, covered⟩ :=
        ih fun other member => bound other (by simp [member])
      rw [List.foldl_append, List.foldl_cons, List.foldl_nil]
      generalize indices.foldl
        (model.expandTop fun expanded index => expanded.contains index) start = state
        at tops covered
      by_cases known : index ∈ state.2
      · have same : model.expandTop (fun expanded index => expanded.contains index) state index =
            state := by
          rw [expandTop, if_pos (List.contains_iff_mem.mpr known)]
        rw [same]
        refine ⟨further, chosen.trans (List.sublist_append_left _ _), tops, ?_⟩
        exact List.append_subset.mpr ⟨covered, by simpa using known⟩
      · have next : model.Unfolds [] [] (roots ++ further ++ [index])
            (model.expandTop (fun expanded index => expanded.contains index) state index).1
            (model.expandTop (fun expanded index => expanded.contains index) state index).2 :=
          expandTop_unfolds inRange tops.unfolds (bound index (by simp))
            (Bool.eq_false_iff.mpr (known ∘ List.contains_iff_mem.mp))
        have closed : model.Closed [] state.2 :=
          tops.unfolds.closed (List.nil_subset _) (by simp [Closed])
        have shown := tops.unfolds.pending_subset (List.nil_subset _)
        have away : ∀ top ∈ roots ++ further, ¬Relation.ReflTransGen model.Edge top index :=
          fun top member reaches => known (closed.reaches (shown member) reaches)
        refine ⟨further ++ [index], chosen.append (List.Sublist.refl _), ⟨?_, ?_, ?_⟩, ?_⟩
        · rw [← List.append_assoc]
          exact next
        · intro root isRoot late member
          rcases List.mem_append.mp member with old | new
          · exact tops.apart.1 root isRoot late old
          · rw [List.mem_singleton.mp new]
            exact away root (List.mem_append_left _ isRoot)
        · refine List.pairwise_append.mpr ⟨tops.apart.2, by simp, ?_⟩
          intro first member second single
          rw [List.mem_singleton.mp single]
          exact away first (List.mem_append_right _ member)
        · refine List.append_subset.mpr ⟨?_, ?_⟩
          · exact List.Subset.trans covered (subset_expandTop inRange (bound index (by simp)))
          · exact fun top member =>
              next.pending_subset (List.nil_subset _) (List.mem_append_right _ member)

/-- The nested view follows the rules, from the nodes that nothing contains and then from further
ones, none of which lies below what comes before it. All nodes are expanded. -/
theorem nestedView_unfolds
    (inRange : ∀ parent child, child ∈ model.childIndices parent → child < model.nodes.length) :
    ∃ further final, model.Unfolds [] [] (model.rootIndices ++ further) model.nestedView final ∧
      further.Sublist (List.range model.nodes.length) ∧
      (∀ root ∈ model.rootIndices, ∀ late ∈ further,
        ¬Relation.ReflTransGen model.Edge root late) ∧
      (further.Pairwise fun first second => ¬Relation.ReflTransGen model.Edge first second) ∧
      final.Perm (List.range model.nodes.length) := by
  have bound : ∀ index ∈ List.range model.nodes.length, index < model.nodes.length :=
    fun index member => List.mem_range.mp member
  obtain ⟨further, chosen, tops, covered⟩ :=
    exists_tops inRange (foldl_roots_unfolds inRange bound) bound
  have topBound : ∀ top ∈ model.rootIndices ++ further, top < model.nodes.length := by
    intro top member
    rcases List.mem_append.mp member with root | late
    · exact bound top (List.mem_filter.mp root).1
    · exact bound top (chosen.subset late)
  have finalBound := tops.unfolds.bound inRange topBound (by simp)
  refine ⟨further, _, tops.unfolds, chosen, tops.apart.1, tops.apart.2, ?_⟩
  have within := (tops.unfolds.nodup List.nodup_nil).subperm
    fun index member => List.mem_range.mpr (finalBound index member)
  exact within.antisymm (List.nodup_range.subperm covered)

end FeatureModel

end FeatureAtlas
