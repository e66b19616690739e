import Mathlib.Data.Set.Card
import FeatureAtlas.Proofs.Source.Reach

/-!
The order of a scan. The slots of a tree refer to each other in any order; where a scan succeeds,
they unfold from the roots into one traversal in preorder, which passes every reachable element
once, and the declarations that are found are those of the elements along it.
-/

namespace FeatureAtlas

namespace SourceTree

/-- The elements in the slots of some numbers, each followed by the traversal of its children. -/
inductive Traverses (tree : SourceTree) : List ElementId → List Element → Prop
  | done : Traverses tree [] []
  | visit {id rest element below later} : tree.get? id = some element →
      Traverses tree element.children below → Traverses tree rest later →
      Traverses tree (id :: rest) (element :: below ++ later)

variable {tree : SourceTree} {roots : List ElementId} {scan : Scan}

theorem exists_traverses_append {first second : List ElementId} {listing : List Element}
    (traverses : tree.Traverses (first ++ second) listing) :
    ∃ before after, listing = before ++ after ∧ tree.Traverses first before ∧
      tree.Traverses second after := by
  induction first generalizing listing with
  | nil => exact ⟨[], listing, rfl, .done, traverses⟩
  | cons id rest ih =>
      cases traverses with
      | @visit _ _ element below later found inside further =>
          obtain ⟨before, after, rfl, left, right⟩ := ih further
          refine ⟨element :: below ++ before, after, ?_, .visit found inside left, right⟩
          rw [List.append_assoc]

theorem Traverses.unique {ids : List ElementId} {listing other : List Element}
    (traverses : tree.Traverses ids listing) (again : tree.Traverses ids other) :
    other = listing := by
  induction traverses generalizing other with
  | done =>
      cases again
      rfl
  | visit found _ _ ihBelow ihLater =>
      cases again with
      | visit otherFound otherBelow otherLater =>
          obtain rfl := Option.some.inj (found.symm.trans otherFound)
          rw [ihBelow otherBelow, ihLater otherLater]

theorem Traverses.stored {ids : List ElementId} {listing : List Element}
    (traverses : tree.Traverses ids listing) :
    ∀ element ∈ listing, tree.get? element.id = some element := by
  induction traverses with
  | done => simp
  | visit found _ _ ihBelow ihLater =>
      rw [List.cons_append]
      refine List.forall_mem_cons.mpr ⟨?_, List.forall_mem_append.mpr ⟨ihBelow, ihLater⟩⟩
      rw [(get?_id found).1]
      exact found

/-- What is visited from now on is the traversal of what is left to be followed. The links to the
children of an element come next, so that they are split off from those that were pending before. -/
theorem exists_traverses_of_run {agenda : List Errand} {walk final : Walk}
    (ran : tree.run agenda walk = .ok final) :
    ∃ listing, tree.Traverses ((pendingLinks agenda).map Link.target) listing ∧
      final.visited = walk.visited ++ listing.map Element.id := by
  induction agenda, walk using SourceTree.run.induct tree with
  | case1 walk =>
      rw [run] at ran
      exact ⟨[], .done, by rw [← Except.ok.inj ran, List.map_nil, List.append_nil]⟩
  | case2 rest walk ih =>
      rw [run] at ran
      exact ih ran
  | case3 link rest walk error accepted =>
      rw [run, accepted] at ran
      simp at ran
  | case4 link rest walk element accepted ih =>
      rw [run, accepted] at ran
      have found := (accept_get? accepted).1
      obtain ⟨listing, traverses, visited⟩ := ih ran
      rw [pendingLinks_errands, List.map_append, map_target_children] at traverses
      obtain ⟨below, later, rfl, inside, further⟩ := exists_traverses_append traverses
      refine ⟨element :: below ++ later, .visit found inside further, ?_⟩
      rw [visited, visited_enter accepted, ← (get?_id found).1, List.append_assoc]
      rfl

theorem exists_traverses (accepted : tree.scanRoots roots = .ok scan) :
    ∃ listing, tree.Traverses roots listing ∧ scan.visited = listing.map Element.id := by
  obtain ⟨walk, ran, rfl⟩ := scanRoots_ok accepted
  obtain ⟨listing, traverses, visited⟩ := exists_traverses_of_run ran
  rw [pendingLinks_roots, List.map_map] at traverses
  exact ⟨listing, List.map_id roots ▸ traverses, visited⟩

theorem Traverses.elementsOf {ids : List ElementId} {listing : List Element}
    (traverses : tree.Traverses ids listing) :
    tree.elementsOf (listing.map Element.id) = listing := by
  have stored := traverses.stored
  clear traverses
  induction listing with
  | nil => rfl
  | cons element rest ih =>
      obtain ⟨here, later⟩ := List.forall_mem_cons.mp stored
      rw [SourceTree.elementsOf, List.map_cons, List.filterMap_cons, here]
      exact congrArg (element :: ·) (ih later)

theorem ncard_of_nodup {listing : List Element} {holds : Element → Prop} (distinct : listing.Nodup)
    (same : ∀ element, element ∈ listing ↔ holds element) :
    {element | holds element}.ncard = listing.length := by
  have members : {element | holds element} = (listing.toFinset : Set Element) := by
    ext element
    simp [same]
  rw [members, Set.ncard_coe_finset, List.toFinset_card_of_nodup distinct]

/-- A scan that succeeds visits the reachable elements in preorder from the roots, each once, and
finds along them their declarations, without the annotations of others, in the order in which they
are attached. -/
theorem scanRoots_traverses (accepted : tree.scanRoots roots = .ok scan) :
    ∃ listing, tree.Traverses roots listing ∧
      (∀ other, tree.Traverses roots other → other = listing) ∧
      scan.visited = listing.map Element.id ∧
      (∀ element, tree.Reachable roots element → scan.visited.count element.id = 1) ∧
      (∀ element, element ∈ listing ↔ tree.Reachable roots element) ∧
      scan.elementCount = {element | tree.Reachable roots element}.ncard ∧
      (scan.pairs = listing.flatMap fun element =>
        (element.annotations.filter (· ≠ .other)).map fun declared => { element, declared }) ∧
      ∀ pair ∈ scan.pairs, tree.elements[pair.element.id]? = some pair.element := by
  obtain ⟨listing, traverses, visited⟩ := exists_traverses accepted
  obtain ⟨_, listed, declared⟩ := scanRoots_sound accepted
  have elements : tree.elementsOf scan.visited = listing := visited ▸ traverses.elementsOf
  have reached : ∀ element, element ∈ listing ↔ tree.Reachable roots element :=
    fun element => elements ▸ mem_scanned_iff accepted element
  refine ⟨listing, traverses, fun _ => traverses.unique, visited, ?_, reached, ?_, ?_, ?_⟩
  · intro element isReached
    refine List.count_eq_one_of_mem listed.distinct ?_
    rw [visited]
    exact List.mem_map_of_mem ((reached element).mpr isReached)
  · rw [ncard_of_nodup (elements ▸ nodup_scanned accepted) reached, Scan.elementCount, visited,
      List.length_map]
  · rw [declared, elements, ← Annotation.isDeclaration_eq]
    rfl
  · intro pair member
    rw [declared, elements] at member
    obtain ⟨element, isListed, own⟩ := List.mem_flatMap.mp member
    obtain ⟨_, _, rfl⟩ := List.mem_map.mp own
    exact (Option.filter_eq_some_iff.mp (traverses.stored element isListed)).1

def kiosk : SourceTree :=
  { elements := [
      { id := 0, kind := .method, name := "sell", qualifiedName := "Kiosk.sell", parent := some 2,
        children := [], annotations := [.mapping { targetConcept := "Sales" }], location := none },
      { id := 1, kind := .type, name := "Stray", qualifiedName := "Stray", parent := none,
        children := [], annotations := [.feature { name := "Lost" }], location := none },
      { id := 2, kind := .type, name := "Kiosk", qualifiedName := "Kiosk", parent := none,
        children := [0], annotations := [.other, .feature { name := "Selling" }],
        location := none }]
    roots := [2] }

def kioskScan : Scan :=
  { tree := kiosk, visited := [2, 0], pairs := (kiosk.elementsOf [2, 0]).flatMap Element.pairs }

theorem kiosk_traversed :
    kiosk.scanRoots [2] = .ok kioskScan ∧
      ∃ listing, kiosk.Traverses [2] listing ∧ listing.map Element.id = [2, 0] ∧
        {element | kiosk.Reachable [2] element}.ncard = 2 := by
  have accepted : kiosk.scanRoots [2] = .ok kioskScan := scanRoots_of_runWithin kioskScan 4 rfl
  obtain ⟨listing, traverses, _, visited, _, _, counted, _⟩ := scanRoots_traverses accepted
  exact ⟨accepted, listing, traverses, visited.symm, counted.symm⟩

end SourceTree

end FeatureAtlas
