import FeatureAtlas.Model.Assembly
import FeatureAtlas.Proofs.Source.Ancestry

/-!
The search for the nearest placed ancestor. It goes up along the parents for as long as it takes,
and above a scanned element it comes to an end without leaving what was scanned, whatever is placed.
-/

namespace FeatureAtlas

namespace SourceTree

/-- A search that asks one parent after the other for its nodes: whom it asks, and what it comes
to. -/
inductive Seeks (tree : SourceTree) (nodesOf? : ElementId → Option (List NodeIndex)) :
    Element → List Element → Option (Element × List NodeIndex) → Prop
  | exhausted {element} : tree.parentOf? element = none → Seeks tree nodesOf? element [] none
  | found {element parent nodes} : tree.parentOf? element = some parent →
      nodesOf? parent.id = some nodes →
      Seeks tree nodesOf? element [parent] (some (parent, nodes))
  | beyond {element parent asked result} : tree.parentOf? element = some parent →
      nodesOf? parent.id = none → Seeks tree nodesOf? parent asked result →
      Seeks tree nodesOf? element (parent :: asked) result

variable {tree : SourceTree} {roots : List ElementId} {element : Element} {above : List Element}

theorem Lineage.seeks (consistent : tree.Consistent roots)
    (lineage : tree.Lineage roots element above)
    (nodesOf? : ElementId → Option (List NodeIndex)) :
    ∃ asked, asked <+: above ∧
      tree.Seeks nodesOf? element asked (above.findSome? fun ancestor =>
        (nodesOf? ancestor.id).map fun nodes => (ancestor, nodes)) := by
  induction lineage with
  | root listed found =>
      exact ⟨[], List.nil_prefix, .exhausted (consistent.parentOf?_root listed found)⟩
  | @child holder element above holderLineage contained ih =>
      have isParent := consistent.parentOf?_of_contains holderLineage.reachable contained
      rw [List.findSome?_cons]
      cases placed : nodesOf? holder.id with
      | none =>
          obtain ⟨asked, first, seeks⟩ := ih
          exact ⟨holder :: asked, List.cons_prefix_cons.mpr ⟨rfl, first⟩,
            .beyond isParent placed seeks⟩
      | some nodes => exact ⟨[holder], ⟨above, rfl⟩, .found isParent placed⟩

/-- The ancestors of a scanned element are the elements on the one way along child links from a
root down to it, all of them scanned and none twice. They are the whole of its chain of parents,
and the search for the nearest placed ancestor comes to its end among them. -/
theorem ancestors_of_scanned {scan : Scan} (accepted : tree.scanRoots roots = .ok scan)
    (scanned : element ∈ tree.elementsOf scan.visited) :
    (∀ steps, tree.ancestor? element.id steps = (tree.ancestors element.id)[steps]?) ∧
      (∀ above, tree.Lineage roots element above ↔ above = tree.ancestors element.id) ∧
      (element :: tree.ancestors element.id).Nodup ∧
      (∀ ancestor ∈ tree.ancestors element.id, ancestor ∈ tree.elementsOf scan.visited) ∧
      ∀ nodesOf? : ElementId → Option (List NodeIndex),
        ∃ asked, asked <+: tree.ancestors element.id ∧
          tree.Seeks nodesOf? element asked (nearestPlaced? tree nodesOf? element.id) := by
  have consistent := (scanRoots_ok_iff tree roots).mp ⟨scan, accepted⟩
  obtain ⟨above, lineage⟩ := exists_lineage ((mem_scanned_iff accepted element).mp scanned)
  obtain rfl := lineage.eq_ancestors consistent
  refine ⟨ancestor?_eq_getElem? (lineage.ended consistent), ?_, lineage.nodup consistent.forest,
    ?_, lineage.seeks consistent⟩
  · exact fun other => ⟨fun otherLineage => otherLineage.eq_ancestors consistent, (· ▸ lineage)⟩
  · intro ancestor member
    exact (mem_scanned_iff accepted ancestor).mpr (lineage.contains ancestor member).1

theorem harbour_moor_ancestors :
    harbour.scanRoots [0] = .ok harbourScan ∧
      ∃ moor ∈ harbour.elementsOf [0, 1, 2], (harbour.ancestors moor.id).map Element.id = [1, 0] ∧
        (∀ steps, harbour.ancestor? moor.id steps = (harbour.ancestors moor.id)[steps]?) ∧
        harbour.Lineage [0] moor (harbour.ancestors moor.id) := by
  obtain ⟨moor, scanned, listed⟩ : ∃ moor ∈ harbour.elementsOf [0, 1, 2],
      (harbour.ancestors moor.id).map Element.id = [1, 0] :=
    ⟨_, List.mem_filterMap.mpr ⟨2, by decide, rfl⟩, rfl⟩
  obtain ⟨complete, lineage, _⟩ := ancestors_of_scanned scan_harbour scanned
  exact ⟨scan_harbour, moor, scanned, listed, complete, (lineage _).mpr rfl⟩

end SourceTree

end FeatureAtlas
