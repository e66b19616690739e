import Mathlib.Data.List.Nodup
import Mathlib.Data.List.Perm.Basic
import FeatureAtlas.Proofs.Source.Forest

/-!
What a scan visits. It visits the elements that the roots lead to and no others, so that neither
this nor whether it succeeds depends on the order of the roots.
-/

namespace FeatureAtlas

namespace SourceTree

variable {tree : SourceTree} {roots others : List ElementId}

theorem Reachable.mono (within : roots ⊆ others) {element : Element}
    (reached : tree.Reachable roots element) : tree.Reachable others element := by
  induction reached with
  | root listed found => exact .root (within listed) found
  | child _ contained ih => exact .child ih contained

theorem Reachable.stored {element : Element} (reached : tree.Reachable roots element) :
    tree.get? element.id = some element := by
  cases reached with
  | root _ found => rwa [(get?_id found).1]
  | child _ contained =>
      obtain ⟨id, _, found⟩ := contained
      rwa [(get?_id found).1]

theorem reachable_perm (same : roots.Perm others) (element : Element) :
    tree.Reachable roots element ↔ tree.Reachable others element :=
  ⟨.mono same.subset, .mono same.symm.subset⟩

theorem Consistent.perm (same : roots.Perm others) (consistent : tree.Consistent roots) :
    tree.Consistent others := by
  refine ⟨same.nodup_iff.mp consistent.rootsDistinct, ?_, ?_, ?_⟩
  · exact fun id listed => consistent.rootsParentless id (same.mem_iff.mpr listed)
  · intro element reached
    exact consistent.childrenDistinct element ((reachable_perm same element).mpr reached)
  · intro element reached
    exact consistent.childrenNamed element ((reachable_perm same element).mpr reached)

structure Reached (tree : SourceTree) (roots : List ElementId) (agenda : List Errand)
    (walk : Walk) : Prop where
  visited : ∀ id ∈ walk.visited, ∀ element, tree.get? id = some element →
    tree.Reachable roots element
  pending : ∀ link ∈ pendingLinks agenda, ∀ element, tree.get? link.target = some element →
    tree.Reachable roots element

theorem reached_start (tree : SourceTree) (roots : List ElementId) :
    tree.Reached roots (roots.map fun root => .follow (.root root)) .start := by
  refine ⟨by simp [Walk.start], ?_⟩
  intro link pending element found
  rw [pendingLinks_roots] at pending
  obtain ⟨id, listed, rfl⟩ := List.mem_map.mp pending
  exact .root listed found

theorem Reached.enter {link : Link} {rest : List Errand} {walk : Walk} {element : Element}
    (accepted : tree.accept walk link = .ok element)
    (reached : tree.Reached roots (.follow link :: rest) walk) :
    tree.Reached roots (element.errands ++ rest) (walk.enter element) := by
  have found := (accept_get? accepted).1
  have here := reached.pending link (by simp) element found
  refine ⟨?_, ?_⟩
  · intro id member other otherFound
    rw [visited_enter accepted] at member
    rcases List.mem_append.mp member with old | new
    · exact reached.visited id old other otherFound
    · rw [List.mem_singleton.mp new, found, Option.some.injEq] at otherFound
      exact otherFound ▸ here
  · intro other pending child childFound
    rw [pendingLinks_errands, List.mem_append] at pending
    rcases pending with new | old
    · obtain ⟨id, listed, rfl⟩ := List.mem_map.mp new
      exact .child here ⟨id, listed, childFound⟩
    · exact reached.pending other (by simp [old]) child childFound

theorem reached_run {agenda : List Errand} {walk final : Walk}
    (reached : tree.Reached roots agenda walk) (ran : tree.run agenda walk = .ok final) :
    tree.Reached roots [] final :=
  run_induction (fun _ _ before => ⟨before.visited, before.pending⟩)
    (fun _ _ _ _ accepted before => before.enter accepted) reached ran

variable {scan : Scan}

theorem mem_scanned_iff (accepted : tree.scanRoots roots = .ok scan) (element : Element) :
    element ∈ tree.elementsOf scan.visited ↔ tree.Reachable roots element := by
  obtain ⟨walk, ran, rfl⟩ := scanRoots_ok accepted
  rw [elementsOf, List.mem_filterMap]
  constructor
  · rintro ⟨id, visited, found⟩
    exact (reached_run (reached_start tree roots) ran).visited id visited element found
  · intro reached
    obtain ⟨visited, found⟩ := visited_of_reachable ran reached
    exact ⟨element.id, visited, found⟩

theorem nodup_scanned (accepted : tree.scanRoots roots = .ok scan) :
    (tree.elementsOf scan.visited).Nodup := by
  refine (scanRoots_sound accepted).2.1.distinct.filterMap ?_
  intro id other element isFound otherFound
  exact (get?_id isFound).1.symm.trans (get?_id otherFound).1

theorem scanned_perm (same : roots.Perm others) {other : Scan}
    (accepted : tree.scanRoots roots = .ok scan)
    (otherAccepted : tree.scanRoots others = .ok other) :
    (tree.elementsOf scan.visited).Perm (tree.elementsOf other.visited) := by
  rw [List.perm_ext_iff_of_nodup (nodup_scanned accepted) (nodup_scanned otherAccepted)]
  intro element
  rw [mem_scanned_iff accepted, mem_scanned_iff otherAccepted, reachable_perm same]

end SourceTree

end FeatureAtlas
