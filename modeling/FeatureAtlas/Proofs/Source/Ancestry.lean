import Mathlib.Data.Fintype.Pigeonhole
import FeatureAtlas.Proofs.Source.Reach

/-!
Chains of parents. In any tree, a chain of parents ends unless it comes around to an element for a
second time. Above an element that was scanned it is the way along child links down from a root,
and ends there; above an element that no root leads to, a scan says nothing about it.
-/

namespace FeatureAtlas

namespace SourceTree

variable {tree : SourceTree} {roots : List ElementId} {id : ElementId} {element : Element}

/-- The element that so many steps upwards lead to. No step at all leads to the element itself. -/
def climb? (tree : SourceTree) (id : ElementId) : Nat → Option Element
  | 0 => tree.get? id
  | steps + 1 => (tree.climb? id steps).bind tree.parentOf?

theorem ancestor?_eq_climb? (steps : Nat) :
    tree.ancestor? id steps = tree.climb? id (steps + 1) := by
  induction steps with
  | zero => rfl
  | succ steps ih =>
      rw [ancestor?, ih]
      rfl

theorem stored_of_climb? {steps : Nat} (climbed : tree.climb? id steps = some element) :
    tree.get? element.id = some element := by
  cases steps with
  | zero =>
      rw [climb?] at climbed
      rwa [(get?_id climbed).1]
  | succ steps =>
      obtain ⟨below, _, isParent⟩ := Option.bind_eq_some_iff.mp climbed
      obtain ⟨parent, _, found⟩ := Option.bind_eq_some_iff.mp isParent
      rwa [(get?_id found).1]

theorem climb?_add (first second : Nat) :
    tree.climb? id (first + second) =
      (tree.climb? id first).bind fun element => tree.climb? element.id second := by
  induction second with
  | zero =>
      rw [Nat.add_zero]
      cases climbed : tree.climb? id first with
      | none => rfl
      | some element => exact (stored_of_climb? climbed).symm
  | succ second ih =>
      rw [← Nat.add_assoc, climb?, ih, Option.bind_assoc]
      rfl

theorem climb?_eq_none_of_le {first second : Nat} (ended : tree.climb? id first = none)
    (later : first ≤ second) : tree.climb? id second = none := by
  obtain ⟨more, rfl⟩ := Nat.exists_eq_add_of_le later
  rw [climb?_add, ended, Option.bind_none]

theorem climb?_succ_of_parent {parent : Element} (stored : tree.get? element.id = some element)
    (isParent : tree.parentOf? element = some parent) (steps : Nat) :
    tree.climb? element.id (steps + 1) = tree.climb? parent.id steps := by
  rw [Nat.add_comm, climb?_add, climb?, climb?, stored, Option.bind_some, isParent,
    Option.bind_some]

/-! A chain ends or comes around. -/

theorem climb?_around {period : Nat} (around : tree.climb? element.id period = some element)
    (times : Nat) : tree.climb? element.id (times * period) = some element := by
  induction times with
  | zero =>
      rw [Nat.zero_mul]
      exact stored_of_climb? around
  | succ times ih => rw [Nat.succ_mul, climb?_add, ih, Option.bind_some, around]

theorem climb?_ne_none_of_around {start period : Nat}
    (climbed : tree.climb? id start = some element)
    (around : tree.climb? element.id (period + 1) = some element) (steps : Nat) :
    tree.climb? id steps ≠ none := by
  intro ended
  -- as many rounds as there were steps lead to the element once more, at or behind the end
  have here : tree.climb? id (start + steps * (period + 1)) = some element := by
    rw [climb?_add, climbed, Option.bind_some, climb?_around around]
  have bound : steps ≤ steps * (period + 1) := Nat.le_mul_of_pos_right steps period.succ_pos
  rw [climb?_eq_none_of_le ended (by omega)] at here
  simp at here

theorem eq_of_stored {other : Element} (stored : tree.get? element.id = some element)
    (otherStored : tree.get? other.id = some other) (same : element.id = other.id) :
    element = other := by
  rw [same, otherStored] at stored
  exact (Option.some.inj stored).symm

theorem exists_around (long : tree.climb? id tree.size ≠ none) :
    ∃ element start period, tree.climb? id start = some element ∧
      tree.climb? element.id (period + 1) = some element := by
  have passes (steps : Fin (tree.size + 1)) : ∃ element, tree.climb? id steps = some element := by
    apply Option.ne_none_iff_exists'.mp
    exact fun ended => long (climb?_eq_none_of_le ended (Nat.le_of_lt_succ steps.isLt))
  choose passed climbed using passes
  -- the start counts, so that one element more is passed than there are slots
  have stored (steps : Fin (tree.size + 1)) := stored_of_climb? (climbed steps)
  obtain ⟨first, second, apart, same⟩ := Fintype.exists_ne_map_eq_of_card_lt
    (fun steps => (⟨(passed steps).id, (get?_id (stored steps)).2⟩ : Fin tree.size)) (by simp)
  have again : passed first = passed second :=
    eq_of_stored (stored first) (stored second) (Fin.mk.inj_iff.mp same)
  have ordered {early late : Fin (tree.size + 1)} (before : early < late)
      (again : passed early = passed late) : ∃ element start period,
        tree.climb? id start = some element ∧
          tree.climb? element.id (period + 1) = some element := by
    obtain ⟨period, later⟩ := Nat.exists_eq_add_of_lt before
    have around := climbed late
    rw [later, Nat.add_assoc, climb?_add, climbed early, Option.bind_some] at around
    exact ⟨passed early, early, period, climbed early, around.trans (congrArg some again.symm)⟩
  rcases lt_or_gt_of_ne apart with before | after
  · exact ordered before again
  · exact ordered after again.symm

theorem climb?_size_of_ended (ended : ∃ steps, tree.climb? id steps = none) :
    tree.climb? id tree.size = none := by
  by_contra long
  obtain ⟨element, start, period, climbed, around⟩ := exists_around long
  obtain ⟨steps, none⟩ := ended
  exact climb?_ne_none_of_around climbed around steps none

theorem getElem?_ancestorsWithin (stored : tree.get? element.id = some element)
    (bound steps : Nat) :
    (tree.ancestorsWithin bound element)[steps]? =
      if steps < bound then tree.climb? element.id (steps + 1) else none := by
  induction bound generalizing element steps with
  | zero => rfl
  | succ bound ih =>
      rw [ancestorsWithin]
      cases isParent : tree.parentOf? element with
      | none =>
          have ended : tree.climb? element.id 1 = none := by
            rw [climb?, climb?, stored, Option.bind_some, isParent]
          rw [climb?_eq_none_of_le ended (Nat.le_add_left 1 steps), ite_self]
          rfl
      | some parent =>
          rw [climb?_succ_of_parent stored isParent]
          obtain ⟨parentId, _, found⟩ := Option.bind_eq_some_iff.mp isParent
          have parentStored : tree.get? parent.id = some parent := by
            rwa [(get?_id found).1]
          cases steps with
          | zero => simp [climb?, parentStored]
          | succ steps =>
              rw [List.getElem?_cons_succ, ih parentStored steps]
              exact if_congr Nat.succ_lt_succ_iff.symm rfl rfl

theorem ancestor?_eq_getElem? (ended : ∃ steps, tree.climb? id steps = none) (steps : Nat) :
    tree.ancestor? id steps = (tree.ancestors id)[steps]? := by
  rw [ancestor?_eq_climb?, ancestors]
  cases stored : tree.get? id with
  | none =>
      rw [climb?_eq_none_of_le (show tree.climb? id 0 = none from stored) (Nat.zero_le _)]
      rfl
  | some element =>
      obtain rfl := (get?_id stored).1
      rw [getElem?_ancestorsWithin stored]
      split
      · rfl
      · exact climb?_eq_none_of_le (climb?_size_of_ended ended) (by omega)

/-! Lines of descent from the roots. -/

/-- The elements on a way along child links from a root down to an element, nearest first and
without the element itself. -/
inductive Lineage (tree : SourceTree) (roots : List ElementId) : Element → List Element → Prop
  | root {id : ElementId} {element : Element} : id ∈ roots → tree.get? id = some element →
      Lineage tree roots element []
  | child {holder element : Element} {above : List Element} : Lineage tree roots holder above →
      tree.Contains holder element → Lineage tree roots element (holder :: above)

theorem exists_lineage (reached : tree.Reachable roots element) :
    ∃ above, tree.Lineage roots element above := by
  induction reached with
  | root listed found => exact ⟨[], .root listed found⟩
  | child _ contained ih =>
      obtain ⟨above, lineage⟩ := ih
      exact ⟨_, .child lineage contained⟩

variable {above : List Element}

theorem Lineage.reachable (lineage : tree.Lineage roots element above) :
    tree.Reachable roots element := by
  induction lineage with
  | root listed found => exact .root listed found
  | child _ contained ih => exact .child ih contained

theorem Lineage.contains (lineage : tree.Lineage roots element above) :
    ∀ outer ∈ above,
      tree.Reachable roots outer ∧ Relation.TransGen tree.Contains outer element := by
  induction lineage with
  | root _ _ => simp
  | child holderLineage contained ih =>
      refine List.forall_mem_cons.mpr ⟨⟨holderLineage.reachable, .single contained⟩, ?_⟩
      exact fun outer member => ⟨(ih outer member).1, (ih outer member).2.tail contained⟩

theorem Lineage.nodup (forest : tree.Forest roots) (lineage : tree.Lineage roots element above) :
    (element :: above).Nodup := by
  induction lineage with
  | root _ _ => simp
  | child holderLineage contained ih =>
      have lineage := holderLineage.child contained
      refine List.nodup_cons.mpr ⟨?_, ih⟩
      exact fun again => forest.acyclic _ lineage.reachable (lineage.contains _ again).2

theorem Consistent.parentOf?_root (consistent : tree.Consistent roots) (listed : id ∈ roots)
    (found : tree.get? id = some element) : tree.parentOf? element = none := by
  obtain ⟨parentless, stored, isNone⟩ := consistent.rootsParentless id listed
  obtain rfl := Option.some.inj (found.symm.trans stored)
  rw [parentOf?, isNone, Option.bind_none]

theorem Consistent.parentOf?_of_contains (consistent : tree.Consistent roots) {holder : Element}
    (reached : tree.Reachable roots holder) (contained : tree.Contains holder element) :
    tree.parentOf? element = some holder := by
  rw [parentOf?, consistent.parent_of_contains reached contained, Option.bind_some, reached.stored]

theorem Lineage.climb?_eq (consistent : tree.Consistent roots)
    (lineage : tree.Lineage roots element above) (steps : Nat) :
    tree.climb? element.id steps = (element :: above)[steps]? := by
  induction lineage generalizing steps with
  | @root id element listed found =>
      have here := (Reachable.root listed found).stored
      cases steps with
      | zero => exact here
      | succ steps =>
          have ended : tree.climb? element.id 1 = none := by
            rw [climb?, climb?, here, Option.bind_some, consistent.parentOf?_root listed found]
          exact climb?_eq_none_of_le ended (Nat.le_add_left 1 steps)
  | @child holder element above holderLineage contained ih =>
      have reached := holderLineage.reachable
      have here := (Reachable.child reached contained).stored
      have isParent := consistent.parentOf?_of_contains reached contained
      cases steps with
      | zero => exact here
      | succ steps =>
          rw [climb?_succ_of_parent here isParent, ih, List.getElem?_cons_succ]

theorem Lineage.ended (consistent : tree.Consistent roots)
    (lineage : tree.Lineage roots element above) : ∃ steps, tree.climb? element.id steps = none :=
  ⟨(element :: above).length, by rw [lineage.climb?_eq consistent, List.getElem?_length]⟩

theorem Lineage.eq_ancestors (consistent : tree.Consistent roots)
    (lineage : tree.Lineage roots element above) : above = tree.ancestors element.id := by
  apply List.ext_getElem?
  intro steps
  rw [← ancestor?_eq_getElem? (lineage.ended consistent), ancestor?_eq_climb?,
    lineage.climb?_eq consistent, List.getElem?_cons_succ]

/-! Chains and scans. -/

variable {scan : Scan}

theorem ended_of_scanned (accepted : tree.scanRoots roots = .ok scan)
    (visited : id ∈ scan.visited) :
    ∃ steps, tree.climb? id steps = none := by
  have consistent := (scanRoots_ok_iff tree roots).mp ⟨scan, accepted⟩
  obtain ⟨element, found⟩ := (scanRoots_sound accepted).2.1.resolved id visited
  have scanned := List.mem_filterMap.mpr ⟨id, visited, found⟩
  obtain ⟨above, lineage⟩ := exists_lineage ((mem_scanned_iff accepted element).mp scanned)
  exact (get?_id found).1 ▸ lineage.ended consistent

/-- In a tree that a scan accepts, the ancestors of an element come to an end unless the way up
leads to an element that is its own ancestor. An element that was scanned is not. -/
theorem ancestors_end_iff (accepted : tree.scan = .ok scan) (id : ElementId) :
    (id ∈ scan.visited → ∃ steps, tree.ancestor? id steps = none) ∧
      ((∃ steps, tree.ancestor? id steps = none) ↔
        ∀ start element, tree.climb? id start = some element → element.id ∉ scan.visited →
          ∀ period, tree.ancestor? element.id period ≠ some element) := by
  have ancestor_ended (ended : ∃ steps, tree.climb? id steps = none) :
      ∃ steps, tree.ancestor? id steps = none := by
    obtain ⟨steps, none⟩ := ended
    exact ⟨steps, (ancestor?_eq_climb? steps).trans (climb?_eq_none_of_le none (Nat.le_succ _))⟩
  refine ⟨fun visited => ancestor_ended (ended_of_scanned accepted visited), ?_, ?_⟩
  · rintro ⟨steps, ended⟩ start element climbed _ period around
    rw [ancestor?_eq_climb?] at ended around
    exact climb?_ne_none_of_around climbed around _ ended
  · intro straight
    apply ancestor_ended
    by_contra endless
    obtain ⟨element, start, period, climbed, around⟩ :=
      exists_around (fun ended => endless ⟨tree.size, ended⟩)
    apply straight start element climbed
    · intro visited
      obtain ⟨steps, ended⟩ := ended_of_scanned accepted visited
      have here : tree.climb? element.id 0 = some element := stored_of_climb? climbed
      exact climb?_ne_none_of_around here around steps ended
    · exact (ancestor?_eq_climb? period).trans around

def harbour : SourceTree :=
  { elements := [
      { id := 0, kind := .type, name := "Harbour", qualifiedName := "Harbour", parent := none,
        children := [1], annotations := [], location := none },
      { id := 1, kind := .type, name := "Pier", qualifiedName := "Harbour.Pier", parent := some 0,
        children := [2], annotations := [], location := none },
      { id := 2, kind := .method, name := "moor", qualifiedName := "Harbour.Pier.moor",
        parent := some 1, children := [], annotations := [], location := none },
      { id := 3, kind := .type, name := "Buoy", qualifiedName := "Buoy", parent := some 4,
        children := [], annotations := [], location := none },
      { id := 4, kind := .field, name := "anchor", qualifiedName := "Buoy.anchor",
        parent := some 3, children := [], annotations := [], location := none }]
    roots := [0] }

def harbourScan : Scan := { tree := harbour, visited := [0, 1, 2], pairs := [] }

theorem scan_harbour : harbour.scan = .ok harbourScan :=
  scanRoots_of_runWithin harbourScan 6 rfl

theorem harbour_moor_ends :
    harbour.scan = .ok harbourScan ∧ 2 ∈ harbourScan.visited ∧
      ∃ steps, harbour.ancestor? 2 steps = none := by
  have visited : 2 ∈ harbourScan.visited := by decide
  exact ⟨scan_harbour, visited, (ancestors_end_iff scan_harbour 2).1 visited⟩

/-- A tree that a scan accepts may hold chains of parents that never end. -/
theorem harbour_buoy_endless :
    harbour.scan = .ok harbourScan ∧ ∀ steps, harbour.ancestor? 3 steps ≠ none := by
  refine ⟨scan_harbour, fun steps => ?_⟩
  obtain ⟨buoy, found, around⟩ :
      ∃ buoy, harbour.climb? 3 0 = some buoy ∧ harbour.climb? buoy.id 2 = some buoy :=
    ⟨_, rfl, rfl⟩
  rw [ancestor?_eq_climb?]
  exact climb?_ne_none_of_around found around (steps + 1)

end SourceTree

end FeatureAtlas
