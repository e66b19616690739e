import Mathlib.Data.List.Sigma
import FeatureAtlas.Proofs.Source.Reach

/-!
Why a scan is refused. The walk passes the places where elements are mentioned in preorder, and the
first of them that is not consistent with those before it ends the scan. What the error says about
this place holds in the tree.
-/

namespace FeatureAtlas

/-- A place where an element is mentioned: the link that leads to the element, and its position
among the roots or among the children of the holder. -/
structure Mention where
  link : Link
  position : Nat
deriving DecidableEq, Repr

def Mention.target (mention : Mention) : ElementId := mention.link.target

def mentions (link : ElementId → Link) (ids : List ElementId) : List Mention :=
  ids.zipIdx.map fun entry => { link := link entry.1, position := entry.2 }

@[simp] theorem map_link_mentions (link : ElementId → Link) (ids : List ElementId) :
    (mentions link ids).map Mention.link = ids.map link := by
  rw [mentions, List.map_map]
  exact (List.map_map (f := Prod.fst) (g := link)).symm.trans
    (congrArg (List.map link) (List.zipIdx_map_fst 0 ids))

theorem mem_mentions {link : ElementId → Link} {ids : List ElementId} {mention : Mention} :
    mention ∈ mentions link ids ↔
      ∃ id, ids[mention.position]? = some id ∧ mention.link = link id := by
  rw [mentions, List.mem_map]
  constructor
  · rintro ⟨⟨id, position⟩, member, rfl⟩
    exact ⟨id, List.mk_mem_zipIdx_iff_getElem?.mp member, rfl⟩
  · rintro ⟨id, found, same⟩
    exact ⟨(id, mention.position), List.mk_mem_zipIdx_iff_getElem?.mpr found, same ▸ rfl⟩

theorem nodup_mentions (link : ElementId → Link) (ids : List ElementId) :
    (mentions link ids).Nodup := by
  apply List.Nodup.of_map Mention.position
  rw [mentions, List.map_map]
  exact List.nodup_zipIdx_map_snd ids

namespace SourceTree

variable {tree : SourceTree} {roots : List ElementId}

def Mentions (tree : SourceTree) (roots : List ElementId) (mention : Mention) : Prop :=
  match mention.link with
  | .root target => roots[mention.position]? = some target
  | .child holder target => ∃ element, tree.Reachable roots element ∧ element.id = holder ∧
      element.children[mention.position]? = some target

theorem Mentions.reachable {mention : Mention} (mentioned : tree.Mentions roots mention)
    {element : Element} (found : tree.get? mention.target = some element) :
    tree.Reachable roots element := by
  obtain ⟨link, position⟩ := mention
  cases link with
  | root target => exact .root (List.mem_of_getElem? mentioned) found
  | child holder target =>
      obtain ⟨above, reached, _, listed⟩ := mentioned
      exact .child reached ⟨target, List.mem_of_getElem? listed, found⟩

/-- A mention is consistent with those before it when it leads to an element that names its holder
as its parent, and none of them leads there. -/
structure Fits (tree : SourceTree) (before : List Mention) (mention : Mention) : Prop where
  agrees : ∃ element, tree.Agrees mention.link element
  fresh : mention.target ∉ before.map Mention.target

/-- How far a traversal in preorder comes along mentions that are consistent with those before
them: the mentions passed, and those that are next. -/
inductive Passes (tree : SourceTree) (roots : List ElementId) :
    List Mention → List Mention → Prop
  | start : Passes tree roots [] (mentions .root roots)
  | next {passed mention pending element} : Passes tree roots passed (mention :: pending) →
      tree.Fits passed mention → tree.get? mention.target = some element →
      Passes tree roots (passed ++ [mention])
        (mentions (.child element.id) element.children ++ pending)

variable {passed pending : List Mention}

theorem passed_perm (passed pending new : List Mention) (mention : Mention) :
    ((passed ++ [mention]) ++ (new ++ pending)).Perm (new ++ (passed ++ mention :: pending)) := by
  rw [List.append_cons passed mention pending]
  exact List.perm_append_comm_assoc _ _ _

theorem Passes.mentioned (passes : tree.Passes roots passed pending) :
    ∀ mention ∈ passed ++ pending, tree.Mentions roots mention := by
  induction passes with
  | start =>
      intro mention member
      obtain ⟨id, listed, same⟩ := mem_mentions.mp member
      rw [Mentions, same]
      exact listed
  | @next passed mention pending element _ _ found ih =>
      have reached := (ih mention (by simp)).reachable found
      intro other member
      rcases List.mem_append.mp ((passed_perm ..).mem_iff.mp member) with new | old
      · obtain ⟨id, listed, same⟩ := mem_mentions.mp new
        rw [Mentions, same]
        exact ⟨element, reached, rfl, listed⟩
      · exact ih other old

theorem Passes.held (passes : tree.Passes roots passed pending) :
    ∀ mention ∈ passed ++ pending, ∀ holder, mention.link.holder = some holder →
      holder ∈ passed.map Mention.target := by
  induction passes with
  | start =>
      intro mention member holder held
      obtain ⟨id, _, same⟩ := mem_mentions.mp member
      simp [same, Link.holder] at held
  | @next passed mention pending element _ _ found ih =>
      intro other member holder held
      rw [List.map_append, List.mem_append]
      rcases List.mem_append.mp ((passed_perm ..).mem_iff.mp member) with new | old
      · obtain ⟨id, _, same⟩ := mem_mentions.mp new
        rw [same, Link.holder, Option.some.injEq] at held
        exact .inr (by simp [← held, (get?_id found).1])
      · exact .inl (ih other old holder held)

theorem Passes.distinct (passes : tree.Passes roots passed pending) :
    (passed ++ pending).Nodup := by
  induction passes with
  | start => exact nodup_mentions _ _
  | @next passed mention pending element before fits found ih =>
      rw [(passed_perm ..).nodup_iff]
      refine List.nodup_append.mpr ⟨nodup_mentions _ _, ih, ?_⟩
      rintro other new again old rfl
      obtain ⟨id, _, same⟩ := mem_mentions.mp new
      have earlier := before.held other old element.id (by rw [same, Link.holder])
      exact fits.fresh ((get?_id found).1 ▸ earlier)

theorem Passes.consistent (passes : tree.Passes roots passed pending) :
    (∀ earlier ∈ passed, ∃ element, tree.Agrees earlier.link element) ∧
      (passed.map Mention.target).Nodup := by
  induction passes with
  | start => simp
  | next _ fits _ ih =>
      rw [List.forall_mem_append, List.map_append]
      refine ⟨⟨ih.1, by simpa using fits.agrees⟩, List.nodup_append.mpr ⟨ih.2, by simp, ?_⟩⟩
      rintro target earlier again now rfl
      rw [List.map_singleton, List.mem_singleton] at now
      exact fits.fresh (now ▸ earlier)

/-! The walk follows the traversal. -/

theorem run_error_induction {Holds : List Errand → Walk → Prop}
    (onLeave : ∀ rest walk, Holds (.leave :: rest) walk → Holds rest walk.leave)
    (onEnter : ∀ link rest walk element, tree.accept walk link = .ok element →
      Holds (.follow link :: rest) walk → Holds (element.errands ++ rest) (walk.enter element))
    {agenda : List Errand} {walk : Walk} {error : ScanError} (holds : Holds agenda walk)
    (failed : tree.run agenda walk = .error error) :
    ∃ link rest stopped, Holds (.follow link :: rest) stopped ∧
      tree.accept stopped link = .error error := by
  induction agenda, walk using SourceTree.run.induct tree with
  | case1 walk =>
      rw [run] at failed
      simp at failed
  | case2 rest walk ih =>
      rw [run] at failed
      exact ih (onLeave rest walk holds) failed
  | case3 link rest walk error accepted =>
      rw [run, accepted] at failed
      exact ⟨link, rest, walk, holds, Except.error.inj failed ▸ accepted⟩
  | case4 link rest walk element accepted ih =>
      rw [run, accepted] at failed
      exact ih (onEnter link rest walk element accepted holds) failed

def Hangs : List Errand → List ElementId → Prop
  | [], _ => True
  | .leave :: rest, path => Hangs rest path.tail
  | .follow link :: rest, path => link.holder = path.head? ∧ Hangs rest path

theorem hangs_roots (roots : List ElementId) :
    Hangs (roots.map fun root => .follow (.root root)) [] := by
  induction roots with
  | nil => trivial
  | cons root rest ih => exact ⟨rfl, ih⟩

theorem hangs_errands (element : Element) {rest : List Errand} {path : List ElementId}
    (hangs : Hangs rest path) : Hangs (element.errands ++ rest) (element.id :: path) := by
  rw [Element.errands, List.append_assoc]
  induction element.children with
  | nil => exact hangs
  | cons child others ih => exact ⟨rfl, ih⟩

/-- The traversal that a walk has followed so far. On its path, each element contains those that
are further inside. -/
structure Trail (tree : SourceTree) (roots : List ElementId) (passed pending : List Mention)
    (agenda : List Errand) (walk : Walk) : Prop where
  passes : tree.Passes roots passed pending
  links : pending.map Mention.link = pendingLinks agenda
  visited : walk.visited = passed.map Mention.target
  within : walk.path ⊆ walk.visited
  hangs : Hangs agenda walk.path
  nested : (tree.elementsOf walk.path).Pairwise fun inner outer =>
    Relation.TransGen tree.Contains outer inner

variable {agenda rest : List Errand} {walk : Walk} {link : Link} {element : Element}

theorem trail_start (tree : SourceTree) (roots : List ElementId) :
    tree.Trail roots [] (mentions .root roots) (roots.map fun root => .follow (.root root))
      .start where
  passes := .start
  links := by rw [map_link_mentions, pendingLinks_roots]
  visited := rfl
  within := List.nil_subset _
  hangs := hangs_roots roots
  nested := .nil

theorem Trail.leave (trail : tree.Trail roots passed pending (.leave :: rest) walk) :
    tree.Trail roots passed pending rest walk.leave where
  passes := trail.passes
  links := trail.links
  visited := trail.visited
  within := fun _ member => trail.within (List.mem_of_mem_tail member)
  hangs := trail.hangs
  nested := trail.nested.sublist ((List.tail_sublist _).filterMap _)

theorem Trail.exists_mention
    (trail : tree.Trail roots passed pending (.follow link :: rest) walk) :
    ∃ mention further, pending = mention :: further ∧ mention.link = link ∧
      further.map Mention.link = pendingLinks rest := by
  have links := trail.links
  rw [pendingLinks_follow, List.map_eq_cons_iff] at links
  obtain ⟨mention, further, rfl, same, others⟩ := links
  exact ⟨mention, further, rfl, same, others⟩

theorem Mentions.holder {mention : Mention} (mentioned : tree.Mentions roots mention)
    {holder : ElementId} (held : mention.link.holder = some holder)
    (found : tree.get? mention.target = some element) :
    ∃ above, tree.get? holder = some above ∧ tree.Contains above element := by
  obtain ⟨link, position⟩ := mention
  cases link with
  | root target => simp [Link.holder] at held
  | child above target =>
      obtain ⟨above, reached, same, listed⟩ := mentioned
      rw [Link.holder, Option.some.injEq] at held
      refine ⟨above, ?_, target, List.mem_of_getElem? listed, found⟩
      rw [← held, ← same, reached.stored]

theorem Trail.contains (trail : tree.Trail roots passed pending (.follow link :: rest) walk)
    (found : tree.get? link.target = some element) :
    ∀ outer ∈ tree.elementsOf walk.path, Relation.TransGen tree.Contains outer element := by
  obtain ⟨mention, further, rfl, rfl, _⟩ := trail.exists_mention
  have nested := trail.nested
  have innermost := trail.hangs.1
  cases path : walk.path with
  | nil => simp [elementsOf]
  | cons holder outside =>
      rw [path, List.head?_cons] at innermost
      obtain ⟨above, stored, contained⟩ :=
        (trail.passes.mentioned mention (by simp)).holder innermost found
      -- the holder is innermost on the path, so it is contained in all the others
      rw [path, elementsOf, List.filterMap_cons, stored, List.pairwise_cons] at nested
      rw [elementsOf, List.filterMap_cons, stored]
      refine List.forall_mem_cons.mpr ⟨.single contained, ?_⟩
      exact fun outer member => (nested.1 outer member).tail contained

def OnTrail (tree : SourceTree) (roots : List ElementId) (agenda : List Errand) (walk : Walk) :
    Prop :=
  ∃ passed pending, tree.Trail roots passed pending agenda walk

theorem OnTrail.leave (onTrail : tree.OnTrail roots (.leave :: rest) walk) :
    tree.OnTrail roots rest walk.leave := by
  obtain ⟨passed, pending, trail⟩ := onTrail
  exact ⟨passed, pending, trail.leave⟩

theorem OnTrail.enter (accepted : tree.accept walk link = .ok element)
    (onTrail : tree.OnTrail roots (.follow link :: rest) walk) :
    tree.OnTrail roots (element.errands ++ rest) (walk.enter element) := by
  obtain ⟨passed, pending, trail⟩ := onTrail
  obtain ⟨found, named, fresh⟩ := accept_get? accepted
  have contains := trail.contains found
  obtain ⟨mention, further, rfl, rfl, links⟩ := trail.exists_mention
  have fits : tree.Fits passed mention := ⟨⟨element, found, named⟩, trail.visited ▸ fresh⟩
  refine ⟨passed ++ [mention], mentions (.child element.id) element.children ++ further, ?_⟩
  refine ⟨trail.passes.next fits found, ?_, ?_, ?_, hangs_errands element trail.hangs.2, ?_⟩
  · rw [List.map_append, map_link_mentions, links, pendingLinks_errands]
  · rw [visited_enter accepted, trail.visited, List.map_append]
    rfl
  · exact List.cons_subset.mpr ⟨by simp [Walk.enter],
      fun id member => List.mem_append_left _ (trail.within member)⟩
  · rw [Walk.enter, elementsOf, List.filterMap_cons, (get?_id found).1, found]
    exact List.pairwise_cons.mpr ⟨contains, trail.nested⟩

theorem exists_trail_of_error {error : ScanError} (failed : tree.scanRoots roots = .error error) :
    ∃ passed pending link rest walk,
      tree.Trail roots passed pending (.follow link :: rest) walk ∧
        tree.accept walk link = .error error := by
  rw [scanRoots] at failed
  cases ran : tree.run (roots.map fun root => .follow (.root root)) .start with
  | ok walk => simp [ran, bind, Except.bind, pure, Except.pure] at failed
  | error found =>
      rw [ran] at failed
      obtain rfl := Except.error.inj failed
      have begins : tree.OnTrail roots (roots.map fun root => .follow (.root root)) .start :=
        ⟨_, _, trail_start tree roots⟩
      obtain ⟨link, rest, walk, ⟨passed, pending, trail⟩, refused⟩ :=
        run_error_induction (fun _ _ => OnTrail.leave) (fun _ _ _ _ => OnTrail.enter) begins ran
      exact ⟨passed, pending, link, rest, walk, trail, refused⟩

/-! What an error says. -/

inductive Refuses (tree : SourceTree) (walk : Walk) : Link → ScanError → Prop
  | unknownRoot (root : ElementId) : tree.get? root = none →
      Refuses tree walk (.root root) (.unknownRoot root)
  | unknownElement (parent child : ElementId) : tree.get? child = none →
      Refuses tree walk (.child parent child) (.unknownElement parent child)
  | containmentCycle (link : Link) (element : Element) : tree.get? link.target = some element →
      link.target ∈ walk.path → Refuses tree walk link (.containmentCycle link.target)
  | sharedChild (link : Link) (element : Element) : tree.get? link.target = some element →
      link.target ∈ walk.visited → Refuses tree walk link (.sharedChild link.target)
  | parentMismatch (link : Link) (element : Element) : tree.get? link.target = some element →
      element.parent ≠ link.holder →
      Refuses tree walk link (.parentMismatch link.target link.holder element.parent)

theorem refuses_of_accept {error : ScanError} (refused : tree.accept walk link = .error error) :
    tree.Refuses walk link error := by
  cases link with
  | root target =>
      simp only [accept] at refused
      split at refused
      · rename_i missing
        exact Except.error.inj refused ▸ .unknownRoot target missing
      · rename_i element found
        split at refused
        · rename_i parented
          refine Except.error.inj refused ▸ .parentMismatch (.root target) element found ?_
          exact Option.isSome_iff_ne_none.mp parented
        · split at refused
          · rename_i seen
            exact Except.error.inj refused ▸ .sharedChild (.root target) element found seen
          · simp at refused
  | child holder target =>
      simp only [accept] at refused
      split at refused
      · rename_i missing
        exact Except.error.inj refused ▸ .unknownElement holder target missing
      · rename_i element found
        split at refused
        · rename_i inside
          exact Except.error.inj refused ▸
            .containmentCycle (.child holder target) element found inside
        · split at refused
          · rename_i seen
            exact Except.error.inj refused ▸ .sharedChild (.child holder target) element found seen
          · split at refused
            · rename_i foreign
              exact Except.error.inj refused ▸
                .parentMismatch (.child holder target) element found foreign
            · simp at refused

/-- What an error says of the tree. -/
def Defect (tree : SourceTree) (roots : List ElementId) : ScanError → Prop
  | .unknownRoot root => root ∈ roots ∧ tree.get? root = none
  | .unknownElement parent child => tree.get? child = none ∧
      ∃ holder, tree.Reachable roots holder ∧ holder.id = parent ∧ child ∈ holder.children
  | .containmentCycle id => ∃ element, element.id = id ∧ tree.Reachable roots element ∧
      Relation.TransGen tree.Contains element element
  | .sharedChild id => ∃ first second, first ≠ second ∧ first.target = id ∧ second.target = id ∧
      tree.Mentions roots first ∧ tree.Mentions roots second
  | .parentMismatch id expected found => found ≠ expected ∧
      (∃ element, tree.get? id = some element ∧ element.parent = found) ∧
      match expected with
      | none => id ∈ roots
      | some parent =>
          ∃ holder, tree.Reachable roots holder ∧ holder.id = parent ∧ id ∈ holder.children

end SourceTree

def ScanError.Blames : ScanError → Link → Prop
  | .unknownRoot root, link => link = .root root
  | .unknownElement parent child, link => link = .child parent child
  | .containmentCycle element, link => link.target = element
  | .sharedChild element, link => link.target = element
  | .parentMismatch element expected _, link => link.target = element ∧ link.holder = expected

namespace SourceTree

variable {tree : SourceTree} {roots : List ElementId} {passed pending : List Mention}
variable {rest : List Errand} {walk : Walk} {link : Link} {error : ScanError}

theorem Refuses.blames (refuses : tree.Refuses walk link error) : error.Blames link := by
  cases refuses with
  | unknownRoot root missing => rfl
  | unknownElement parent child missing => rfl
  | containmentCycle link element found inside => rfl
  | sharedChild link element found seen => rfl
  | parentMismatch link element found foreign => exact ⟨rfl, rfl⟩

theorem Refuses.unfit {mention : Mention} (refuses : tree.Refuses walk mention.link error)
    (visited : walk.visited = passed.map Mention.target) (within : walk.path ⊆ walk.visited) :
    ¬tree.Fits passed mention := by
  rintro ⟨⟨agreed, stored, named⟩, fresh⟩
  rw [← visited] at fresh
  generalize isLink : mention.link = link at refuses stored named
  have target : mention.target = link.target := congrArg Link.target isLink
  rw [target] at fresh
  cases refuses with
  | unknownRoot root missing => simp [Link.target, missing] at stored
  | unknownElement parent child missing => simp [Link.target, missing] at stored
  | containmentCycle link element found inside => exact fresh (within inside)
  | sharedChild link element found seen => exact fresh seen
  | parentMismatch link element found foreign =>
      obtain rfl := Option.some.inj (found.symm.trans stored)
      exact foreign named

theorem Trail.mentioned_before {mention : Mention}
    (trail : tree.Trail roots passed (mention :: pending) (.follow link :: rest) walk)
    (seen : mention.target ∈ walk.visited) :
    ∃ earlier, earlier ≠ mention ∧ earlier.target = mention.target ∧
      tree.Mentions roots earlier := by
  rw [trail.visited] at seen
  obtain ⟨earlier, member, same⟩ := List.mem_map.mp seen
  have apart := (List.nodup_append.mp trail.passes.distinct).2.2
  exact ⟨earlier, apart earlier member mention (by simp), same,
    trail.passes.mentioned earlier (List.mem_append_left _ member)⟩

theorem Refuses.defect {mention : Mention}
    (trail : tree.Trail roots passed (mention :: pending) (.follow mention.link :: rest) walk)
    (refuses : tree.Refuses walk mention.link error) : tree.Defect roots error := by
  have mentioned := trail.passes.mentioned mention (by simp)
  obtain ⟨link, position⟩ := mention
  cases refuses with
  | unknownRoot root missing => exact ⟨List.mem_of_getElem? mentioned, missing⟩
  | unknownElement parent child missing =>
      obtain ⟨holder, reached, same, listed⟩ := mentioned
      exact ⟨missing, holder, reached, same, List.mem_of_getElem? listed⟩
  | containmentCycle _ element found inside =>
      have onPath := List.mem_filterMap.mpr ⟨_, inside, found⟩
      exact ⟨element, (get?_id found).1, mentioned.reachable found,
        trail.contains found element onPath⟩
  | sharedChild _ element found seen =>
      obtain ⟨earlier, apart, same, before⟩ := trail.mentioned_before seen
      exact ⟨earlier, ⟨link, position⟩, apart, same, rfl, before, mentioned⟩
  | parentMismatch _ element found foreign =>
      refine ⟨foreign, ⟨element, found, rfl⟩, ?_⟩
      cases link with
      | root target => exact List.mem_of_getElem? mentioned
      | child parent target =>
          obtain ⟨holder, reached, same, listed⟩ := mentioned
          exact ⟨holder, reached, same, List.mem_of_getElem? listed⟩

/-- A scan that fails names a defect: what its error says is so, and it is about the first link in
the traversal that is not consistent with those before it. -/
theorem scanRoots_names_defect (failed : tree.scanRoots roots = .error error) :
    tree.Defect roots error ∧
      ∃ passed mention pending, tree.Passes roots passed (mention :: pending) ∧
        (∀ earlier ∈ passed, ∃ element, tree.Agrees earlier.link element) ∧
        (passed.map Mention.target).Nodup ∧ ¬tree.Fits passed mention ∧
        error.Blames mention.link := by
  obtain ⟨passed, pending, link, rest, walk, trail, refused⟩ := exists_trail_of_error failed
  obtain ⟨mention, further, rfl, rfl, _⟩ := trail.exists_mention
  have refuses := refuses_of_accept refused
  obtain ⟨agreed, distinct⟩ := trail.passes.consistent
  exact ⟨refuses.defect trail, passed, mention, further, trail.passes, agreed, distinct,
    refuses.unfit trail.visited trail.within, refuses.blames⟩

def bazaar : SourceTree :=
  { elements := [
      { id := 0, kind := .type, name := "Bazaar", qualifiedName := "Bazaar", parent := none,
        children := [1, 2], annotations := [], location := none },
      { id := 1, kind := .type, name := "Stall", qualifiedName := "Bazaar.Stall", parent := some 0,
        children := [2], annotations := [], location := none },
      { id := 2, kind := .method, name := "pay", qualifiedName := "Bazaar.Stall.pay",
        parent := some 1, children := [], annotations := [], location := none }]
    roots := [0] }

theorem bazaar_names_shared :
    bazaar.scanRoots [0] = .error (.sharedChild 2) ∧
      ∃ first second, first ≠ second ∧ first.target = 2 ∧ second.target = 2 ∧
        bazaar.Mentions [0] first ∧ bazaar.Mentions [0] second := by
  have stops : bazaar.runWithin 6 [.follow (.root 0)] .start = some (.error (.sharedChild 2)) := rfl
  have failed : bazaar.scanRoots [0] = .error (.sharedChild 2) := by
    rw [scanRoots, List.map_singleton, run_of_runWithin stops]
    rfl
  exact ⟨failed, (scanRoots_names_defect failed).1⟩

end SourceTree

end FeatureAtlas
