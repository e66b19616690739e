import FeatureAtlas.Proofs.Source.Walk

/-!
A walk that keeps what it knows in tables with one flag for every slot. Reading or writing outside
of a table is a fault. The walk never faults and finds what the walk over lists finds.
-/

namespace FeatureAtlas

def setFlag? (flags : List Bool) (id : ElementId) (value : Bool) : Option (List Bool) :=
  if id < flags.length then some (flags.set id value) else none

theorem setFlag?_eq {flags written : List Bool} {id : ElementId} {value : Bool}
    (wrote : setFlag? flags id value = some written) :
    id < flags.length ∧ written = flags.set id value := by
  rw [setFlag?] at wrote
  split at wrote
  · exact ⟨‹_›, (Option.some.inj wrote).symm⟩
  · simp at wrote

/-- The flags of the elements visited and of those not yet left, the elements not yet left,
innermost first, the declarations found and the number of elements visited. -/
structure TableWalk where
  visited : List Bool
  onPath : List Bool
  entered : List ElementId
  pairs : List ScanPair
  count : Nat
deriving DecidableEq, Repr

namespace TableWalk

def start (size : Nat) : TableWalk :=
  { visited := List.replicate size false, onPath := List.replicate size false, entered := [],
    pairs := [], count := 0 }

def enter? (tables : TableWalk) (element : Element) : Option TableWalk :=
  match setFlag? tables.visited element.id true, setFlag? tables.onPath element.id true with
  | some visited, some onPath =>
      some { visited, onPath, entered := element.id :: tables.entered,
             pairs := tables.pairs ++ element.pairs, count := tables.count + 1 }
  | _, _ => none

def leave? (tables : TableWalk) : Option TableWalk :=
  match tables.entered with
  | [] => none
  | id :: rest =>
      (setFlag? tables.onPath id false).map fun onPath =>
        { tables with onPath, entered := rest }

def accept? (tree : SourceTree) (tables : TableWalk) :
    Link → Option (Except ScanError Element)
  | .root target =>
      match tree.get? target with
      | none => some (.error (.unknownRoot target))
      | some element =>
          if element.parent.isSome then
            some (.error (.parentMismatch target none element.parent))
          else
            tables.visited[target]?.map fun visited =>
              if visited then .error (.sharedChild target) else .ok element
  | .child holder target =>
      match tree.get? target with
      | none => some (.error (.unknownElement holder target))
      | some element =>
          tables.onPath[target]?.bind fun onPath =>
            if onPath then some (.error (.containmentCycle target))
            else
              tables.visited[target]?.map fun visited =>
                if visited then .error (.sharedChild target)
                else if element.parent ≠ some holder then
                  .error (.parentMismatch target (some holder) element.parent)
                else .ok element

theorem accept?_fresh {tree : SourceTree} {tables : TableWalk} {link : Link} {element : Element}
    (accepted : tables.accept? tree link = some (.ok element)) :
    tables.visited[element.id]? = some false := by
  cases link with
  | root target =>
      simp only [accept?] at accepted
      split at accepted
      · simp at accepted
      · rename_i found stored
        split at accepted
        · simp at accepted
        · obtain ⟨flag, read, outcome⟩ := Option.map_eq_some_iff.mp accepted
          cases flag with
          | true => simp at outcome
          | false =>
              simp only [Bool.false_eq_true, if_false, Except.ok.injEq] at outcome
              subst outcome
              rw [(SourceTree.get?_id stored).1]
              exact read
  | child holder target =>
      simp only [accept?] at accepted
      split at accepted
      · simp at accepted
      · rename_i found stored
        obtain ⟨onPath, _, off⟩ := Option.bind_eq_some_iff.mp accepted
        split at off
        · simp at off
        · obtain ⟨flag, read, outcome⟩ := Option.map_eq_some_iff.mp off
          cases flag with
          | true => simp at outcome
          | false =>
              simp only [Bool.false_eq_true, if_false] at outcome
              split at outcome
              · simp at outcome
              · simp only [Except.ok.injEq] at outcome
                subst outcome
                rw [(SourceTree.get?_id stored).1]
                exact read

theorem enter?_unvisited {tables entered : TableWalk} {element : Element}
    (fresh : tables.visited[element.id]? = some false)
    (enters : tables.enter? element = some entered) :
    entered.visited.count false < tables.visited.count false := by
  rw [enter?] at enters
  split at enters
  · rename_i visited onPath wrote _
    obtain ⟨bound, rfl⟩ := setFlag?_eq wrote
    rw [← Option.some.inj enters]
    rw [List.getElem?_eq_getElem bound, Option.some.injEq] at fresh
    have here : 0 < tables.visited.count false :=
      List.count_pos_iff.mpr (fresh ▸ List.getElem_mem bound)
    have set : (true == false) = false := rfl
    simp only [List.count_set bound, fresh, beq_self_eq_true, if_true, set, Bool.false_eq_true,
      if_false]
    omega
  · simp at enters

theorem leave?_visited {tables left : TableWalk} (leaves : tables.leave? = some left) :
    left.visited = tables.visited := by
  rw [leave?] at leaves
  split at leaves
  · simp at leaves
  · obtain ⟨onPath, _, rfl⟩ := Option.map_eq_some_iff.mp leaves
    rfl

end TableWalk

namespace SourceTree

def runTables (tree : SourceTree) :
    List Errand → TableWalk → Option (Except ScanError TableWalk)
  | [], tables => some (.ok tables)
  | .leave :: rest, tables =>
      match _leaves : tables.leave? with
      | none => none
      | some left => tree.runTables rest left
  | .follow link :: rest, tables =>
      match _accepted : tables.accept? tree link with
      | none => none
      | some (.error error) => some (.error error)
      | some (.ok element) =>
          match _enters : tables.enter? element with
          | none => none
          | some entered => tree.runTables (element.errands ++ rest) entered
termination_by agenda tables => (tables.visited.count false, agenda.length)
decreasing_by
  · rw [TableWalk.leave?_visited _leaves]
    apply Prod.Lex.right
    simp
  · apply Prod.Lex.left
    exact TableWalk.enter?_unvisited (TableWalk.accept?_fresh _accepted) _enters

def scanTables (tree : SourceTree) (roots : List ElementId) :
    Option (Except ScanError (List ScanPair × Nat)) :=
  (tree.runTables (roots.map fun root => .follow (.root root)) (.start tree.size)).map
    fun outcome => outcome.map fun tables => (tables.pairs, tables.count)

end SourceTree

namespace TableWalk

structure Represents (size : Nat) (tables : TableWalk) (walk : Walk) : Prop where
  visitedSize : tables.visited.length = size
  onPathSize : tables.onPath.length = size
  visited : ∀ id < size, tables.visited[id]? = some (decide (id ∈ walk.visited))
  onPath : ∀ id < size, tables.onPath[id]? = some (decide (id ∈ walk.path))
  entered : tables.entered = walk.path
  pathDistinct : walk.path.Nodup
  pathVisited : walk.path ⊆ walk.visited
  pathBound : ∀ id ∈ walk.path, id < size
  pairs : tables.pairs = walk.pairs
  count : tables.count = walk.visited.length

theorem represents_start (size : Nat) : Represents size (start size) .start := by
  refine ⟨by simp [start], by simp [start], ?_, ?_, rfl, by simp [Walk.start],
    by simp [Walk.start], by simp [Walk.start], rfl, rfl⟩
  · intro id bound
    simp [start, Walk.start, bound]
  · intro id bound
    simp [start, Walk.start, bound]

theorem Represents.accept {tree : SourceTree} {tables : TableWalk} {walk : Walk}
    (represents : Represents tree.size tables walk) (link : Link) :
    tables.accept? tree link = some (tree.accept walk link) := by
  cases link with
  | root target =>
      simp only [accept?, SourceTree.accept]
      cases found : tree.get? target with
      | none => rfl
      | some element =>
          have read := represents.visited target (SourceTree.get?_id found).2
          simp only [read, Option.map_some]
          split
          · rfl
          · simp only [decide_eq_true_eq]
  | child holder target =>
      simp only [accept?, SourceTree.accept]
      cases found : tree.get? target with
      | none => rfl
      | some element =>
          have bound := (SourceTree.get?_id found).2
          simp only [represents.onPath target bound, represents.visited target bound,
            Option.map_some, Option.bind_some, decide_eq_true_eq]
          split
          · rfl
          · rfl

theorem Represents.enter {tree : SourceTree} {tables : TableWalk} {walk : Walk} {link : Link}
    {element : Element} (represents : Represents tree.size tables walk)
    (accepted : tree.accept walk link = .ok element) :
    ∃ entered, tables.enter? element = some entered ∧
      Represents tree.size entered (walk.enter element) := by
  obtain ⟨found, _, fresh⟩ := SourceTree.accept_get? accepted
  obtain ⟨same, bound⟩ := SourceTree.get?_id found
  rw [← same] at bound fresh
  have visitedBound := represents.visitedSize ▸ bound
  have onPathBound := represents.onPathSize ▸ bound
  refine ⟨_, by simp only [enter?, setFlag?, visitedBound, onPathBound, if_true]; rfl, ?_⟩
  refine ⟨by simp [represents.visitedSize], by simp [represents.onPathSize], ?_, ?_,
    by simp [Walk.enter, represents.entered], ?_, ?_, ?_, by simp [Walk.enter, represents.pairs],
    by simp [Walk.enter, represents.count]⟩
  · intro id inside
    by_cases now : element.id = id
    · simp [Walk.enter, ← now, visitedBound]
    · rw [List.getElem?_set_ne now, represents.visited id inside]
      simp [Walk.enter, Ne.symm now]
  · intro id inside
    by_cases now : element.id = id
    · simp [Walk.enter, ← now, onPathBound]
    · rw [List.getElem?_set_ne now, represents.onPath id inside]
      simp [Walk.enter, Ne.symm now]
  · exact List.nodup_cons.mpr
      ⟨fun member => fresh (represents.pathVisited member), represents.pathDistinct⟩
  · intro id member
    rcases List.mem_cons.mp member with now | old
    · simp [Walk.enter, now]
    · simp [Walk.enter, represents.pathVisited old]
  · intro id member
    rcases List.mem_cons.mp member with now | old
    · exact now ▸ bound
    · exact represents.pathBound id old

theorem Represents.leave {size : Nat} {tables : TableWalk} {walk : Walk}
    (represents : Represents size tables walk) (inside : walk.path ≠ []) :
    ∃ left, tables.leave? = some left ∧ Represents size left walk.leave := by
  obtain ⟨id, rest, path⟩ := List.exists_cons_of_ne_nil inside
  have distinct := path ▸ represents.pathDistinct
  have bound : id < size := represents.pathBound id (by simp [path])
  have onPathBound := represents.onPathSize ▸ bound
  refine ⟨_, by simp only [leave?, represents.entered, path, setFlag?, onPathBound, if_true,
    Option.map_some]; rfl, ?_⟩
  refine ⟨represents.visitedSize, by simp [represents.onPathSize], represents.visited, ?_,
    by simp [Walk.leave, path], ?_, ?_, ?_, represents.pairs, represents.count⟩
  · intro other inside
    by_cases now : id = other
    · subst now
      simp [Walk.leave, path, onPathBound, (List.nodup_cons.mp distinct).1]
    · rw [List.getElem?_set_ne now, represents.onPath other inside]
      simp [Walk.leave, path, Ne.symm now]
  · simpa [Walk.leave, path] using (List.nodup_cons.mp distinct).2
  · exact fun other member => represents.pathVisited (List.mem_of_mem_tail member)
  · exact fun other member => represents.pathBound other (List.mem_of_mem_tail member)

end TableWalk

namespace SourceTree

theorem runTables_leave {tree : SourceTree} {rest : List Errand} {tables left : TableWalk}
    (leaves : tables.leave? = some left) :
    tree.runTables (.leave :: rest) tables = tree.runTables rest left := by
  rw [runTables]
  split
  · simp_all
  · rename_i other found
    rw [leaves, Option.some.injEq] at found
    rw [found]

theorem runTables_error {tree : SourceTree} {link : Link} {rest : List Errand}
    {tables : TableWalk} {error : ScanError}
    (accepted : tables.accept? tree link = some (.error error)) :
    tree.runTables (.follow link :: rest) tables = some (.error error) := by
  rw [runTables]
  split <;> simp_all

theorem runTables_enter {tree : SourceTree} {link : Link} {rest : List Errand}
    {tables entered : TableWalk} {element : Element}
    (accepted : tables.accept? tree link = some (.ok element))
    (enters : tables.enter? element = some entered) :
    tree.runTables (.follow link :: rest) tables =
      tree.runTables (element.errands ++ rest) entered := by
  rw [runTables]
  split
  · simp_all
  · simp_all
  · rename_i other found
    rw [accepted, Option.some.injEq, Except.ok.injEq] at found
    subst found
    split
    · simp_all
    · rename_i other found
      rw [enters, Option.some.injEq] at found
      rw [found]

theorem count_leave_errands (element : Element) (rest : List Errand) :
    (element.errands ++ rest).count .leave = rest.count .leave + 1 := by
  have none : (element.children.map fun child =>
      Errand.follow (.child element.id child)).count .leave = 0 := by
    simp [List.count_eq_zero]
  simp only [Element.errands, List.count_append, none]
  simp
  omega

/-- Every leave on the agenda belongs to an element on the path, so nothing is left in vain. -/
theorem runTables_represents {tree : SourceTree} {agenda : List Errand} {walk : Walk}
    {tables : TableWalk} (represents : TableWalk.Represents tree.size tables walk)
    (balanced : agenda.count .leave = walk.path.length) :
    match tree.run agenda walk with
    | .error error => tree.runTables agenda tables = some (.error error)
    | .ok final => ∃ ended, tree.runTables agenda tables = some (.ok ended) ∧
        TableWalk.Represents tree.size ended final := by
  induction agenda, walk using SourceTree.run.induct tree generalizing tables with
  | case1 walk =>
      simp only [run]
      exact ⟨tables, by rw [runTables], represents⟩
  | case2 rest walk ih =>
      have inside : walk.path ≠ [] := by
        intro empty
        simp [empty] at balanced
      obtain ⟨left, leaves, leftRepresents⟩ := represents.leave inside
      have next := ih leftRepresents (by
        simp only [List.count_cons_self] at balanced
        simp [Walk.leave]
        omega)
      rw [run, runTables_leave leaves]
      exact next
  | case3 link rest walk error accepted =>
      rw [run, accepted]
      exact runTables_error (represents.accept link ▸ congrArg some accepted)
  | case4 link rest walk element accepted ih =>
      obtain ⟨entered, enters, enteredRepresents⟩ := represents.enter accepted
      have next := ih enteredRepresents (by
        rw [count_leave_errands]
        simpa [Walk.enter] using balanced)
      rw [run, accepted,
        runTables_enter (represents.accept link ▸ congrArg some accepted) enters]
      exact next

theorem scanTables_eq (tree : SourceTree) (roots : List ElementId) :
    tree.scanTables roots =
      some ((tree.scanRoots roots).map fun scan => (scan.pairs, scan.elementCount)) := by
  have balanced : (roots.map fun root => Errand.follow (.root root)).count .leave =
      Walk.start.path.length := by
    simp [Walk.start, List.count_eq_zero]
  have outcome := runTables_represents (TableWalk.represents_start tree.size) balanced
  rw [scanTables, scanRoots]
  cases ran : tree.run (roots.map fun root => .follow (.root root)) .start with
  | error error =>
      simp only [ran] at outcome
      rw [outcome]
      rfl
  | ok final =>
      simp only [ran] at outcome
      obtain ⟨ended, ranTables, represents⟩ := outcome
      rw [ranTables]
      simp only [Option.map_some, Except.map, bind, Except.bind, pure, Except.pure,
        Scan.elementCount, represents.pairs, represents.count]

end SourceTree

end FeatureAtlas
