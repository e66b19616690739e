import Mathlib.Data.List.Basic
import FeatureAtlas.Source.Scan

/-!
What the walk of a scan keeps. Everything it has visited resolves and lies below elements that it
visited earlier, and the declarations it has found are those of the visited elements in order.
-/

namespace FeatureAtlas

theorem Annotation.isDeclaration_eq :
    isDeclaration = fun declared => decide (declared ≠ .other) := by
  funext declared
  cases declared <;> rfl

def Errand.link? : Errand → Option Link
  | .follow link => some link
  | .leave => none

def pendingLinks (agenda : List Errand) : List Link := agenda.filterMap Errand.link?

@[simp] theorem pendingLinks_nil : pendingLinks [] = [] := rfl

@[simp] theorem pendingLinks_leave (rest : List Errand) :
    pendingLinks (.leave :: rest) = pendingLinks rest := rfl

@[simp] theorem pendingLinks_follow (link : Link) (rest : List Errand) :
    pendingLinks (.follow link :: rest) = link :: pendingLinks rest := rfl

@[simp] theorem pendingLinks_errands (element : Element) (rest : List Errand) :
    pendingLinks (element.errands ++ rest) =
      element.children.map (Link.child element.id) ++ pendingLinks rest := by
  simp only [pendingLinks, Element.errands, List.filterMap_append, List.filterMap_map,
    List.append_assoc, List.filterMap_cons, List.filterMap_nil, Errand.link?, List.nil_append]
  congr 1
  exact congrFun List.filterMap_eq_map' _

@[simp] theorem pendingLinks_roots (roots : List ElementId) :
    pendingLinks (roots.map fun root => .follow (.root root)) = roots.map Link.root := by
  simp only [pendingLinks, List.filterMap_map]
  exact congrFun List.filterMap_eq_map' _

namespace SourceTree

theorem run_induction {tree : SourceTree} {Holds : List Errand → Walk → Prop}
    (onLeave : ∀ rest walk, Holds (.leave :: rest) walk → Holds rest walk.leave)
    (onEnter : ∀ link rest walk element, tree.accept walk link = .ok element →
      Holds (.follow link :: rest) walk → Holds (element.errands ++ rest) (walk.enter element))
    {agenda : List Errand} {walk final : Walk} (holds : Holds agenda walk)
    (ran : tree.run agenda walk = .ok final) : Holds [] final := by
  induction agenda, walk using SourceTree.run.induct tree with
  | case1 walk =>
      rw [run] at ran
      exact Except.ok.inj ran ▸ holds
  | case2 rest walk ih =>
      rw [run] at ran
      exact ih (onLeave rest walk holds) ran
  | case3 link rest walk error accepted =>
      rw [run, accepted] at ran
      simp at ran
  | case4 link rest walk element accepted ih =>
      rw [run, accepted] at ran
      exact ih (onEnter link rest walk element accepted holds) ran

def runWithin (tree : SourceTree) : Nat → List Errand → Walk → Option (Except ScanError Walk)
  | _, [], walk => some (.ok walk)
  | 0, _ :: _, _ => none
  | steps + 1, .leave :: rest, walk => tree.runWithin steps rest walk.leave
  | steps + 1, .follow link :: rest, walk =>
      match tree.accept walk link with
      | .error error => some (.error error)
      | .ok element => tree.runWithin steps (element.errands ++ rest) (walk.enter element)

theorem run_of_runWithin {tree : SourceTree} {steps : Nat} {agenda : List Errand} {walk : Walk}
    {result : Except ScanError Walk} (ended : tree.runWithin steps agenda walk = some result) :
    tree.run agenda walk = result := by
  induction steps generalizing agenda walk with
  | zero =>
      cases agenda with
      | nil => rw [run, Option.some.inj ended]
      | cons errand rest => simp [runWithin] at ended
  | succ steps ih =>
      cases agenda with
      | nil => rw [run, Option.some.inj ended]
      | cons errand rest =>
          cases errand with
          | leave =>
              rw [run]
              exact ih ended
          | follow link =>
              rw [runWithin] at ended
              rw [run]
              cases accepted : tree.accept walk link with
              | error error =>
                  rw [accepted] at ended
                  exact Option.some.inj ended
              | ok element =>
                  rw [accepted] at ended
                  exact ih ended

theorem scanRoots_of_runWithin (scan : Scan) {roots : List ElementId} (steps : Nat)
    (ended : scan.tree.runWithin steps (roots.map fun root => .follow (.root root)) .start =
      some (.ok { visited := scan.visited, path := [], pairs := scan.pairs })) :
    scan.tree.scanRoots roots = .ok scan := by
  rw [scanRoots, run_of_runWithin ended]
  rfl

def elementsOf (tree : SourceTree) (ids : List ElementId) : List Element :=
  ids.filterMap tree.get?

/-- Every number resolves, none is there twice, and a parent stands before its children. -/
structure Lists (tree : SourceTree) (ids : List ElementId) : Prop where
  resolved : ∀ id ∈ ids, ∃ element, tree.get? id = some element
  distinct : ids.Nodup
  rooted : ∀ id ∈ ids, ∀ element, tree.get? id = some element → ∀ parent,
    element.parent = some parent → parent ∈ ids ∧ ids.idxOf parent < ids.idxOf id

theorem Lists.snoc {tree : SourceTree} {ids : List ElementId} {id : ElementId} {element : Element}
    (listed : tree.Lists ids) (found : tree.get? id = some element) (fresh : id ∉ ids)
    (below : ∀ parent, element.parent = some parent → parent ∈ ids) : tree.Lists (ids ++ [id]) := by
  refine ⟨?_, ?_, ?_⟩
  · intro other member
    rcases List.mem_append.mp member with old | new
    · exact listed.resolved other old
    · exact ⟨element, List.mem_singleton.mp new ▸ found⟩
  · refine List.nodup_append.mpr ⟨listed.distinct, by simp, ?_⟩
    intro other old last new same
    exact fresh (List.mem_singleton.mp new ▸ same ▸ old)
  · intro other member found' elementFound parent named
    rcases List.mem_append.mp member with old | new
    · obtain ⟨earlier, before⟩ := listed.rooted other old found' elementFound parent named
      refine ⟨List.mem_append_left _ earlier, ?_⟩
      rwa [List.idxOf_append_of_mem earlier, List.idxOf_append_of_mem old]
    · rw [List.mem_singleton.mp new] at elementFound ⊢
      rw [found, Option.some.injEq] at elementFound
      subst elementFound
      have earlier := below parent named
      refine ⟨List.mem_append_left _ earlier, ?_⟩
      rw [List.idxOf_append_of_mem earlier, List.idxOf_append_of_notMem fresh]
      have bound := List.idxOf_lt_length_of_mem earlier
      omega

/-- The state of a walk with an agenda: what is visited is listed, the declarations found are
those of the visited elements, and every pending link hangs on a visited element. -/
structure Sound (tree : SourceTree) (agenda : List Errand) (walk : Walk) : Prop where
  listed : tree.Lists walk.visited
  declared : walk.pairs = (tree.elementsOf walk.visited).flatMap Element.pairs
  held : ∀ link ∈ pendingLinks agenda, ∀ holder, link.holder = some holder → holder ∈ walk.visited

theorem sound_start (tree : SourceTree) (roots : List ElementId) :
    tree.Sound (roots.map fun root => .follow (.root root)) .start := by
  refine ⟨⟨?_, ?_, ?_⟩, rfl, ?_⟩
  · simp [Walk.start]
  · simp [Walk.start]
  · simp [Walk.start]
  · intro link pending holder held
    rw [pendingLinks_roots] at pending
    obtain ⟨root, _, rfl⟩ := List.mem_map.mp pending
    simp [Link.holder] at held

theorem Sound.leave {tree : SourceTree} {rest : List Errand} {walk : Walk}
    (sound : tree.Sound (.leave :: rest) walk) : tree.Sound rest walk.leave :=
  ⟨sound.listed, sound.declared, sound.held⟩

theorem Sound.enter {tree : SourceTree} {link : Link} {rest : List Errand} {walk : Walk}
    {element : Element} (accepted : tree.accept walk link = .ok element)
    (sound : tree.Sound (.follow link :: rest) walk) :
    tree.Sound (element.errands ++ rest) (walk.enter element) := by
  obtain ⟨found, named, fresh⟩ := accept_get? accepted
  have same := (get?_id found).1
  rw [← same] at found fresh
  refine ⟨?_, ?_, ?_⟩
  · apply sound.listed.snoc found fresh
    intro parent isParent
    exact sound.held link (by simp) parent (named ▸ isParent)
  · simp only [Walk.enter, sound.declared, elementsOf, List.filterMap_append, List.flatMap_append,
      List.filterMap_cons, found, List.filterMap_nil, List.flatMap_singleton]
  · intro other pending holder held
    rw [pendingLinks_errands, List.mem_append] at pending
    rcases pending with new | old
    · obtain ⟨child, _, rfl⟩ := List.mem_map.mp new
      simp only [Link.holder, Option.some.injEq] at held
      simp [Walk.enter, ← held]
    · have visited := sound.held other (by simp [old]) holder held
      simp [Walk.enter, visited]

theorem sound_run {tree : SourceTree} {agenda : List Errand} {walk final : Walk}
    (sound : tree.Sound agenda walk) (ran : tree.run agenda walk = .ok final) :
    tree.Sound [] final :=
  run_induction (fun _ _ before => before.leave) (fun _ _ _ _ accepted before =>
    before.enter accepted) sound ran

theorem scanRoots_ok {tree : SourceTree} {roots : List ElementId} {scan : Scan}
    (accepted : tree.scanRoots roots = .ok scan) :
    ∃ walk, tree.run (roots.map fun root => .follow (.root root)) .start = .ok walk ∧
      scan = { tree, visited := walk.visited, pairs := walk.pairs } := by
  rw [scanRoots] at accepted
  cases ran : tree.run (roots.map fun root => .follow (.root root)) .start with
  | error error => simp [ran, bind, Except.bind] at accepted
  | ok walk =>
      simp only [ran, bind, Except.bind, pure, Except.pure, Except.ok.injEq] at accepted
      exact ⟨walk, rfl, accepted.symm⟩

theorem scanRoots_sound {tree : SourceTree} {roots : List ElementId} {scan : Scan}
    (accepted : tree.scanRoots roots = .ok scan) :
    scan.tree = tree ∧ tree.Lists scan.visited ∧
      scan.pairs = (tree.elementsOf scan.visited).flatMap Element.pairs := by
  obtain ⟨walk, ran, rfl⟩ := scanRoots_ok accepted
  have sound := sound_run (sound_start tree roots) ran
  exact ⟨rfl, sound.listed, sound.declared⟩

end SourceTree

end FeatureAtlas
