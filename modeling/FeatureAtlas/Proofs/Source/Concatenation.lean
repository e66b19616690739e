import FeatureAtlas.Proofs.Source.Traversal

/-!
Scanning some roots and then others. Where roots are scanned together, those of the one list lead
to nothing that those of the other lead to, so that each list can be scanned on its own and the
results put one after the other.
-/

namespace FeatureAtlas

namespace SourceTree

variable {tree : SourceTree} {first second : List ElementId}

theorem reachable_append {element : Element} :
    tree.Reachable (first ++ second) element ↔
      tree.Reachable first element ∨ tree.Reachable second element := by
  constructor
  · intro reached
    induction reached with
    | root listed found =>
        exact (List.mem_append.mp listed).imp (.root · found) (.root · found)
    | child _ contained ih => exact ih.imp (.child · contained) (.child · contained)
  · rintro (reached | reached)
    · exact reached.mono (List.subset_append_left ..)
    · exact reached.mono (List.subset_append_right ..)

theorem Consistent.of_subset {roots : List ElementId} (consistent : tree.Consistent roots)
    (within : first ⊆ roots) (distinct : first.Nodup) : tree.Consistent first where
  rootsDistinct := distinct
  rootsParentless := fun id listed => consistent.rootsParentless id (within listed)
  childrenDistinct := fun element reached =>
    consistent.childrenDistinct element (reached.mono within)
  childrenNamed := fun element reached => consistent.childrenNamed element (reached.mono within)

theorem consistent_append :
    tree.Consistent (first ++ second) ↔
      tree.Consistent first ∧ tree.Consistent second ∧ first.Disjoint second := by
  constructor
  · intro consistent
    have distinct := consistent.rootsDistinct
    exact ⟨consistent.of_subset (List.subset_append_left ..) distinct.of_append_left,
      consistent.of_subset (List.subset_append_right ..) distinct.of_append_right,
      List.disjoint_of_nodup_append distinct⟩
  · rintro ⟨left, right, apart⟩
    refine ⟨left.rootsDistinct.append right.rootsDistinct apart, ?_, ?_, ?_⟩
    · exact List.forall_mem_append.mpr ⟨left.rootsParentless, right.rootsParentless⟩
    · intro element reached
      exact (reachable_append.mp reached).elim (left.childrenDistinct element)
        (right.childrenDistinct element)
    · intro element reached
      exact (reachable_append.mp reached).elim (left.childrenNamed element)
        (right.childrenNamed element)

theorem scan_eq_of_traverses {roots : List ElementId} {scan : Scan} {listing : List Element}
    (accepted : tree.scanRoots roots = .ok scan) (traverses : tree.Traverses roots listing) :
    scan = { tree, visited := listing.map Element.id, pairs := listing.flatMap Element.pairs } := by
  obtain ⟨other, otherTraverses, visited⟩ := exists_traverses accepted
  obtain ⟨same, _, declared⟩ := scanRoots_sound accepted
  obtain rfl := traverses.unique otherTraverses
  rw [visited, otherTraverses.elementsOf] at declared
  obtain ⟨_, _, _⟩ := scan
  obtain rfl := same
  obtain rfl := visited
  obtain rfl := declared
  rfl

theorem scan_append {whole left right : Scan}
    (accepted : tree.scanRoots (first ++ second) = .ok whole)
    (leftAccepted : tree.scanRoots first = .ok left)
    (rightAccepted : tree.scanRoots second = .ok right) :
    whole = { tree, visited := left.visited ++ right.visited,
              pairs := left.pairs ++ right.pairs } := by
  obtain ⟨listing, traverses, _⟩ := exists_traverses accepted
  obtain ⟨before, after, rfl, leftTraverses, rightTraverses⟩ := exists_traverses_append traverses
  rw [scan_eq_of_traverses accepted traverses, scan_eq_of_traverses leftAccepted leftTraverses,
    scan_eq_of_traverses rightAccepted rightTraverses, List.map_append, List.flatMap_append]

/-- Roots can be scanned together exactly when they can be scanned in two parts that share no root,
and then the scan of the one part followed by that of the other is the scan of them all. -/
theorem scanRoots_append (tree : SourceTree) (first second : List ElementId) (whole : Scan) :
    tree.scanRoots (first ++ second) = .ok whole ↔
      ∃ left right, tree.scanRoots first = .ok left ∧ tree.scanRoots second = .ok right ∧
        first.Disjoint second ∧ whole.elementCount = left.elementCount + right.elementCount ∧
        whole = { tree, visited := left.visited ++ right.visited,
                  pairs := left.pairs ++ right.pairs } := by
  constructor
  · intro accepted
    obtain ⟨leftConsistent, rightConsistent, apart⟩ :=
      consistent_append.mp ((scanRoots_ok_iff tree _).mp ⟨whole, accepted⟩)
    obtain ⟨left, leftAccepted⟩ := (scanRoots_ok_iff tree first).mpr leftConsistent
    obtain ⟨right, rightAccepted⟩ := (scanRoots_ok_iff tree second).mpr rightConsistent
    obtain rfl := scan_append accepted leftAccepted rightAccepted
    exact ⟨left, right, leftAccepted, rightAccepted, apart, List.length_append, rfl⟩
  · rintro ⟨left, right, leftAccepted, rightAccepted, apart, _, rfl⟩
    have consistent := consistent_append.mpr
      ⟨(scanRoots_ok_iff tree first).mp ⟨left, leftAccepted⟩,
        (scanRoots_ok_iff tree second).mp ⟨right, rightAccepted⟩, apart⟩
    obtain ⟨whole, accepted⟩ := (scanRoots_ok_iff tree _).mpr consistent
    rw [accepted, scan_append accepted leftAccepted rightAccepted]

end SourceTree

end FeatureAtlas
