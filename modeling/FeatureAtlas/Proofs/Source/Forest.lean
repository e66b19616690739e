import FeatureAtlas.Proofs.Source.Tables

/-!
Which trees a scan accepts. Acceptance is a local property: the links at the roots and at the
elements that the child lists lead to. Cycles and shared children need no condition of their own.
-/

namespace FeatureAtlas

namespace SourceTree

def Contains (tree : SourceTree) (holder child : Element) : Prop :=
  ∃ id ∈ holder.children, tree.get? id = some child

inductive Reachable (tree : SourceTree) (roots : List ElementId) : Element → Prop
  | root {id element} : id ∈ roots → tree.get? id = some element → Reachable tree roots element
  | child {holder element} : Reachable tree roots holder → tree.Contains holder element →
      Reachable tree roots element

/-- Every list is free of repetitions and everything on it names its holder as its parent. -/
structure Consistent (tree : SourceTree) (roots : List ElementId) : Prop where
  rootsDistinct : roots.Nodup
  rootsParentless : ∀ id ∈ roots, ∃ element, tree.get? id = some element ∧ element.parent = none
  childrenDistinct : ∀ element, tree.Reachable roots element → element.children.Nodup
  childrenNamed : ∀ element, tree.Reachable roots element → ∀ id ∈ element.children,
    ∃ child, tree.get? id = some child ∧ child.parent = some element.id

/-- Nothing contains itself, nothing has two holders and nothing that is held is a root. -/
structure Forest (tree : SourceTree) (roots : List ElementId) : Prop where
  acyclic : ∀ element, tree.Reachable roots element →
    ¬Relation.TransGen tree.Contains element element
  unshared : ∀ first second element, tree.Reachable roots first → tree.Reachable roots second →
    tree.Contains first element → tree.Contains second element → first = second
  rootless : ∀ holder element, tree.Reachable roots holder → tree.Contains holder element →
    element.id ∉ roots

def Agrees (tree : SourceTree) (link : Link) (element : Element) : Prop :=
  tree.get? link.target = some element ∧ element.parent = link.holder

/-! What a walk that ends has followed. -/

structure Followed (tree : SourceTree) (agenda : List Errand) (walk final : Walk) : Prop where
  kept : walk.visited ⊆ final.visited
  agreed : ∀ link ∈ pendingLinks agenda,
    link.target ∈ final.visited ∧ ∃ element, tree.Agrees link element
  fresh : ∀ link ∈ pendingLinks agenda, link.target ∉ walk.visited
  distinct : ((pendingLinks agenda).map Link.target).Nodup
  entered : ∀ id ∈ final.visited, id ∉ walk.visited → ∀ element, tree.get? id = some element →
    element.children.Nodup ∧ ∀ child ∈ element.children,
      child ∈ final.visited ∧ ∃ found, tree.Agrees (.child element.id child) found

theorem visited_enter {tree : SourceTree} {walk : Walk} {link : Link} {element : Element}
    (accepted : tree.accept walk link = .ok element) :
    (walk.enter element).visited = walk.visited ++ [link.target] := by
  have same := (get?_id (accept_get? accepted).1).1
  simp [Walk.enter, same]

theorem map_target_children (element : Element) :
    (element.children.map (Link.child element.id)).map Link.target = element.children := by
  rw [List.map_map]
  exact List.map_id _

theorem Followed.follow {tree : SourceTree} {link : Link} {rest : List Errand}
    {walk final : Walk} {element : Element} (accepted : tree.accept walk link = .ok element)
    (followed : tree.Followed (element.errands ++ rest) (walk.enter element) final) :
    tree.Followed (.follow link :: rest) walk final := by
  obtain ⟨found, named, fresh⟩ := accept_get? accepted
  have visited := visited_enter accepted
  obtain ⟨kept, agreed, later, distinct, entered⟩ := followed
  rw [visited] at kept later entered
  simp only [pendingLinks_errands, List.mem_append] at agreed later
  rw [pendingLinks_errands, List.map_append, map_target_children] at distinct
  have present : link.target ∈ final.visited := kept (by simp)
  refine ⟨fun id member => kept (by simp [member]), ?_, ?_, ?_, ?_⟩
  · intro other pending
    rcases List.mem_cons.mp pending with now | old
    · exact now ▸ ⟨present, element, found, named⟩
    · exact agreed other (Or.inr old)
  · intro other pending
    rcases List.mem_cons.mp pending with now | old
    · exact now ▸ fresh
    · exact fun seen => later other (Or.inr old) (by simp [seen])
  · refine List.nodup_cons.mpr ⟨?_, (List.nodup_append.mp distinct).2.1⟩
    intro again
    obtain ⟨other, pending, target⟩ := List.mem_map.mp again
    exact later other (Or.inr pending) (by simp [target])
  · intro id member unseen stored storedFound
    by_cases now : id = link.target
    · have isElement : element = stored := by
        rw [now, found] at storedFound
        exact Option.some.inj storedFound
      subst isElement
      refine ⟨(List.nodup_append.mp distinct).1, ?_⟩
      intro child listed
      exact agreed (.child element.id child) (Or.inl (List.mem_map_of_mem listed))
    · exact entered id member (by simp [unseen, now]) stored storedFound

theorem followed_of_run {tree : SourceTree} {agenda : List Errand} {walk final : Walk}
    (ran : tree.run agenda walk = .ok final) : tree.Followed agenda walk final := by
  induction agenda, walk using SourceTree.run.induct tree with
  | case1 walk =>
      rw [run, Except.ok.injEq] at ran
      subst ran
      exact ⟨fun _ member => member, by simp, by simp, by simp,
        fun id member unseen => absurd member unseen⟩
  | case2 rest walk ih =>
      rw [run] at ran
      obtain ⟨kept, agreed, fresh, distinct, entered⟩ := ih ran
      exact ⟨kept, agreed, fresh, distinct, entered⟩
  | case3 link rest walk error accepted =>
      rw [run, accepted] at ran
      simp at ran
  | case4 link rest walk element accepted ih =>
      rw [run, accepted] at ran
      exact (ih ran).follow accepted

theorem visited_of_reachable {tree : SourceTree} {roots : List ElementId} {final : Walk}
    (ran : tree.run (roots.map fun root => .follow (.root root)) .start = .ok final)
    {element : Element} (reached : tree.Reachable roots element) :
    element.id ∈ final.visited ∧ tree.get? element.id = some element := by
  have followed := followed_of_run ran
  induction reached with
  | root listed found =>
      have same := (get?_id found).1
      have pending := followed.agreed (.root _) (by simpa using listed)
      exact ⟨same ▸ pending.1, same ▸ found⟩
  | child _ contained ih =>
      obtain ⟨id, listed, found⟩ := contained
      have same := (get?_id found).1
      have children := (followed.entered _ ih.1 (by simp [Walk.start]) _ ih.2).2 id listed
      exact ⟨same ▸ children.1, same ▸ found⟩

theorem consistent_of_run {tree : SourceTree} {roots : List ElementId} {final : Walk}
    (ran : tree.run (roots.map fun root => .follow (.root root)) .start = .ok final) :
    tree.Consistent roots := by
  have followed := followed_of_run ran
  have entered {element : Element} (reached : tree.Reachable roots element) :=
    followed.entered _ (visited_of_reachable ran reached).1 (by simp [Walk.start]) _
      (visited_of_reachable ran reached).2
  refine ⟨?_, ?_, ?_, ?_⟩
  · have distinct := followed.distinct
    rw [pendingLinks_roots, List.map_map] at distinct
    simpa [Function.comp_def, Link.target] using distinct
  · intro id listed
    obtain ⟨_, element, found, named⟩ := followed.agreed (.root id) (by simpa using listed)
    exact ⟨element, found, named⟩
  · intro element reached
    exact (entered reached).1
  · intro element reached id listed
    obtain ⟨_, child, found, named⟩ := (entered reached).2 id listed
    exact ⟨child, found, named⟩

/-! A consistent tree holds up no walk. -/

/-- Every pending link leads to a reachable element that agrees with it, no two lead to the same
element, and none leads to an element that was visited before. -/
structure Clear (tree : SourceTree) (roots : List ElementId) (agenda : List Errand)
    (walk : Walk) : Prop where
  sound : tree.Sound agenda walk
  path : walk.path ⊆ walk.visited
  agreed : ∀ link ∈ pendingLinks agenda,
    ∃ element, tree.Reachable roots element ∧ tree.Agrees link element
  fresh : ∀ link ∈ pendingLinks agenda, link.target ∉ walk.visited
  distinct : ((pendingLinks agenda).map Link.target).Nodup

theorem clear_start {tree : SourceTree} {roots : List ElementId}
    (consistent : tree.Consistent roots) :
    tree.Clear roots (roots.map fun root => .follow (.root root)) .start := by
  refine ⟨sound_start tree roots, by simp [Walk.start], ?_, by simp [Walk.start], ?_⟩
  · intro link pending
    rw [pendingLinks_roots] at pending
    obtain ⟨id, listed, rfl⟩ := List.mem_map.mp pending
    obtain ⟨element, found, parentless⟩ := consistent.rootsParentless id listed
    exact ⟨element, .root listed found, found, parentless⟩
  · rw [pendingLinks_roots, List.map_map]
    simpa [Function.comp_def, Link.target] using consistent.rootsDistinct

theorem accept_of_agrees {tree : SourceTree} {walk : Walk} {link : Link} {element : Element}
    (path : walk.path ⊆ walk.visited) (agrees : tree.Agrees link element)
    (fresh : link.target ∉ walk.visited) : tree.accept walk link = .ok element := by
  obtain ⟨found, named⟩ := agrees
  cases link with
  | root target =>
      simp only [Link.target, Link.holder] at found named fresh
      simp [accept, found, named, fresh]
  | child holder target =>
      simp only [Link.target, Link.holder] at found named fresh
      have offPath : target ∉ walk.path := fun member => fresh (path member)
      simp [accept, found, named, fresh, offPath]

theorem Clear.reached {tree : SourceTree} {roots : List ElementId} {link : Link}
    {rest : List Errand} {walk : Walk} {element : Element}
    (accepted : tree.accept walk link = .ok element)
    (clear : tree.Clear roots (.follow link :: rest) walk) : tree.Reachable roots element := by
  obtain ⟨other, reached, found, _⟩ := clear.agreed link (by simp)
  rw [(accept_get? accepted).1, Option.some.injEq] at found
  exact found ▸ reached

theorem Clear.children_fresh {tree : SourceTree} {roots : List ElementId} {link : Link}
    {rest : List Errand} {walk : Walk} {element : Element} (consistent : tree.Consistent roots)
    (accepted : tree.accept walk link = .ok element)
    (clear : tree.Clear roots (.follow link :: rest) walk) {id : ElementId}
    (member : id ∈ element.children) : id ∉ (walk.enter element).visited := by
  obtain ⟨found, _, fresh⟩ := accept_get? accepted
  have reached := clear.reached accepted
  obtain ⟨child, childFound, named⟩ := consistent.childrenNamed element reached id member
  intro seen
  -- a visited child would have brought its parent, the element, among the visited before it
  have earlier := (clear.sound.enter accepted).listed.rooted id seen child childFound _ named
  rw [visited_enter accepted, (get?_id found).1] at earlier
  rw [visited_enter accepted] at seen
  rcases List.mem_append.mp seen with old | now
  · rw [List.idxOf_append_of_mem old, List.idxOf_append_of_notMem fresh] at earlier
    have bound := List.idxOf_lt_length_of_mem old
    omega
  · rw [List.mem_singleton.mp now] at earlier
    exact Nat.lt_irrefl _ earlier.2

theorem Clear.children_apart {tree : SourceTree} {roots : List ElementId} {link : Link}
    {rest : List Errand} {walk : Walk} {element : Element} (consistent : tree.Consistent roots)
    (accepted : tree.accept walk link = .ok element)
    (clear : tree.Clear roots (.follow link :: rest) walk) {other : Link}
    (pending : other ∈ pendingLinks rest) : other.target ∉ element.children := by
  obtain ⟨found, _, fresh⟩ := accept_get? accepted
  have reached := clear.reached accepted
  intro member
  obtain ⟨child, childFound, named⟩ := consistent.childrenNamed element reached _ member
  obtain ⟨target, _, targetFound, targetNamed⟩ := clear.agreed other (by simp [pending])
  rw [childFound, Option.some.injEq] at targetFound
  rw [← targetFound, named] at targetNamed
  -- the pending link names the element as its holder, so the element would be visited already
  have visited := clear.sound.held other (by simp [pending]) element.id targetNamed.symm
  exact fresh ((get?_id found).1 ▸ visited)

theorem Clear.enter {tree : SourceTree} {roots : List ElementId} {link : Link}
    {rest : List Errand} {walk : Walk} {element : Element} (consistent : tree.Consistent roots)
    (accepted : tree.accept walk link = .ok element)
    (clear : tree.Clear roots (.follow link :: rest) walk) :
    tree.Clear roots (element.errands ++ rest) (walk.enter element) := by
  have reached := clear.reached accepted
  have visited := visited_enter accepted
  obtain ⟨linkApart, restDistinct⟩ := List.nodup_cons.mp clear.distinct
  refine ⟨clear.sound.enter accepted, ?_, ?_, ?_, ?_⟩
  · intro id member
    rcases List.mem_cons.mp member with now | old
    · simp [Walk.enter, now]
    · simp [visited, clear.path old]
  · intro other pending
    rw [pendingLinks_errands, List.mem_append] at pending
    rcases pending with new | old
    · obtain ⟨id, listed, rfl⟩ := List.mem_map.mp new
      obtain ⟨child, childFound, childNamed⟩ := consistent.childrenNamed element reached id listed
      exact ⟨child, .child reached ⟨id, listed, childFound⟩, childFound, childNamed⟩
    · exact clear.agreed other (by simp [old])
  · intro other pending
    rw [pendingLinks_errands, List.mem_append] at pending
    rcases pending with new | old
    · obtain ⟨id, listed, rfl⟩ := List.mem_map.mp new
      exact clear.children_fresh consistent accepted listed
    · rw [visited]
      intro seen
      rcases List.mem_append.mp seen with before | now
      · exact clear.fresh other (by simp [old]) before
      · exact linkApart (List.mem_map.mpr ⟨other, old, List.mem_singleton.mp now⟩)
  · rw [pendingLinks_errands, List.map_append, map_target_children]
    refine List.nodup_append.mpr ⟨consistent.childrenDistinct element reached, restDistinct, ?_⟩
    rintro id listed again pending rfl
    obtain ⟨other, old, target⟩ := List.mem_map.mp pending
    exact clear.children_apart consistent accepted old (target ▸ listed)

theorem run_of_clear {tree : SourceTree} {roots : List ElementId}
    (consistent : tree.Consistent roots) {agenda : List Errand} {walk : Walk}
    (clear : tree.Clear roots agenda walk) : ∃ final, tree.run agenda walk = .ok final := by
  induction agenda, walk using SourceTree.run.induct tree with
  | case1 walk => exact ⟨walk, by rw [run]⟩
  | case2 rest walk ih =>
      rw [run]
      refine ih ⟨clear.sound.leave, ?_, clear.agreed, clear.fresh, clear.distinct⟩
      exact fun id member => clear.path (List.mem_of_mem_tail member)
  | case3 link rest walk error accepted =>
      obtain ⟨element, _, agrees⟩ := clear.agreed link (by simp)
      have passed := accept_of_agrees clear.path agrees (clear.fresh link (by simp))
      rw [passed] at accepted
      simp at accepted
  | case4 link rest walk element accepted ih =>
      rw [run, accepted]
      exact ih (clear.enter consistent accepted)

theorem scanRoots_ok_iff (tree : SourceTree) (roots : List ElementId) :
    (∃ scan, tree.scanRoots roots = .ok scan) ↔ tree.Consistent roots := by
  constructor
  · rintro ⟨scan, accepted⟩
    obtain ⟨walk, ran, _⟩ := scanRoots_ok accepted
    exact consistent_of_run ran
  · intro consistent
    obtain ⟨final, ran⟩ := run_of_clear consistent (clear_start consistent)
    exact ⟨_, by rw [scanRoots, ran]; rfl⟩

/-! Consistent trees are forests. -/

theorem Consistent.parent_of_contains {tree : SourceTree} {roots : List ElementId}
    (consistent : tree.Consistent roots) {holder element : Element}
    (reached : tree.Reachable roots holder) (contained : tree.Contains holder element) :
    element.parent = some holder.id := by
  obtain ⟨id, listed, found⟩ := contained
  obtain ⟨child, childFound, named⟩ := consistent.childrenNamed holder reached id listed
  rw [found, Option.some.injEq] at childFound
  exact childFound ▸ named

theorem contains_later {tree : SourceTree} {roots : List ElementId} {final : Walk}
    (ran : tree.run (roots.map fun root => .follow (.root root)) .start = .ok final)
    {holder element : Element} (reached : tree.Reachable roots holder)
    (below : Relation.TransGen tree.Contains holder element) :
    tree.Reachable roots element ∧
      final.visited.idxOf holder.id < final.visited.idxOf element.id := by
  have consistent := consistent_of_run ran
  have listed := (sound_run (sound_start tree roots) ran).listed
  have step {above held : Element} (aboveReached : tree.Reachable roots above)
      (contained : tree.Contains above held) : tree.Reachable roots held ∧
        final.visited.idxOf above.id < final.visited.idxOf held.id := by
    have heldReached := Reachable.child aboveReached contained
    obtain ⟨visited, found⟩ := visited_of_reachable ran heldReached
    exact ⟨heldReached, (listed.rooted held.id visited held found above.id
      (consistent.parent_of_contains aboveReached contained)).2⟩
  induction below with
  | single contained => exact step reached contained
  | tail _ contained ih =>
      have next := step ih.1 contained
      exact ⟨next.1, Nat.lt_trans ih.2 next.2⟩

theorem Consistent.forest {tree : SourceTree} {roots : List ElementId}
    (consistent : tree.Consistent roots) : tree.Forest roots := by
  obtain ⟨final, ran⟩ := run_of_clear consistent (clear_start consistent)
  refine ⟨?_, ?_, ?_⟩
  · intro element reached around
    exact Nat.lt_irrefl _ (contains_later ran reached around).2
  · intro first second element firstReached secondReached firstHolds secondHolds
    have named := consistent.parent_of_contains firstReached firstHolds
    rw [consistent.parent_of_contains secondReached secondHolds, Option.some.injEq] at named
    have firstFound := (visited_of_reachable ran firstReached).2
    rw [← named, (visited_of_reachable ran secondReached).2, Option.some.injEq] at firstFound
    exact firstFound.symm
  · intro holder element reached contained root
    obtain ⟨parentless, found, none⟩ := consistent.rootsParentless element.id root
    have elementFound := (visited_of_reachable ran (.child reached contained)).2
    rw [elementFound, Option.some.injEq] at found
    rw [← found, consistent.parent_of_contains reached contained] at none
    simp at none

/-- A scan accepts exactly the consistent trees, which are forests, and on no tree at all does it
look outside of its tables. -/
theorem scanRoots_accepts_exactly_consistent (tree : SourceTree) (roots : List ElementId) :
    ((∃ scan, tree.scanRoots roots = .ok scan) ↔ tree.Consistent roots) ∧
      (tree.Consistent roots → tree.Forest roots) ∧
      tree.scanTables roots =
        some ((tree.scanRoots roots).map fun scan => (scan.pairs, scan.elementCount)) :=
  ⟨scanRoots_ok_iff tree roots, Consistent.forest, scanTables_eq tree roots⟩

end SourceTree

end FeatureAtlas
