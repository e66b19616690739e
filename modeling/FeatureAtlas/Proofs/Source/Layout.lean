import FeatureAtlas.Proofs.Source.Forest

/-!
Trees laid out from outlines. Each outline is put into the next slot, before what is nested in it,
so that the slots are filled in preorder; and the scan of such a tree visits one after the other.
-/

namespace FeatureAtlas

namespace Outline

theorem count_eq (outline : Outline) : outline.count = countAll outline.children + 1 := by
  cases outline
  rw [count]

theorem countAll_append (outlines others : List Outline) :
    countAll (outlines ++ others) = countAll outlines + countAll others := by
  induction outlines with
  | nil => simp [countAll]
  | cons outline rest ih => rw [List.cons_append, countAll, ih, countAll, Nat.add_assoc]

end Outline

namespace SourceTree

def idsFrom (first : ElementId) : List Outline → List ElementId
  | [] => []
  | outline :: rest => first :: idsFrom (first + outline.count) rest

structure Parent where
  id : ElementId
  qualifiedName : String
deriving DecidableEq, Repr, Inhabited

mutual

/-- The elements of an outline that is put into the slots from `first` on. -/
def layOut (parent : Option Parent) (first : ElementId) : Outline → List Element
  | { kind, name, qualifiedName, location, annotations, children } =>
      let qualified := qualify (parent.map Parent.qualifiedName) qualifiedName name
      { id := first, kind, name, qualifiedName := qualified, parent := parent.map Parent.id,
        children := idsFrom (first + 1) children, annotations, location } ::
        layOutAll (some { id := first, qualifiedName := qualified }) (first + 1) children

def layOutAll (parent : Option Parent) (first : ElementId) : List Outline → List Element
  | [] => []
  | outline :: rest =>
      layOut parent first outline ++ layOutAll parent (first + outline.count) rest

end

def headOf (parent : Option Parent) (first : ElementId) (outline : Outline) : Element where
  id := first
  kind := outline.kind
  name := outline.name
  qualifiedName := qualify (parent.map Parent.qualifiedName) outline.qualifiedName outline.name
  parent := parent.map Parent.id
  children := idsFrom (first + 1) outline.children
  annotations := outline.annotations
  location := outline.location

def Parent.of (element : Element) : Parent :=
  { id := element.id, qualifiedName := element.qualifiedName }

theorem layOut_eq (parent : Option Parent) (first : ElementId) (outline : Outline) :
    layOut parent first outline = headOf parent first outline ::
      layOutAll (some (.of (headOf parent first outline))) (first + 1) outline.children := by
  cases outline
  rw [layOut]
  rfl

theorem layOutAll_append (parent : Option Parent) (first : ElementId)
    (outlines others : List Outline) :
    layOutAll parent first (outlines ++ others) = layOutAll parent first outlines ++
      layOutAll parent (first + Outline.countAll outlines) others := by
  induction outlines generalizing first with
  | nil => simp [layOutAll, Outline.countAll]
  | cons outline rest ih =>
      rw [List.cons_append, layOutAll, ih, layOutAll, Outline.countAll, List.append_assoc,
        Nat.add_assoc]

mutual

theorem map_id_layOut (parent : Option Parent) (first : ElementId) : (outline : Outline) →
    (layOut parent first outline).map Element.id = List.range' first outline.count
  | { kind, name, qualifiedName, location, annotations, children } => by
      rw [layOut_eq, List.map_cons, map_id_layOutAll _ _ children, Outline.count_eq,
        List.range'_succ]
      rfl

theorem map_id_layOutAll (parent : Option Parent) (first : ElementId) :
    (outlines : List Outline) →
    (layOutAll parent first outlines).map Element.id =
      List.range' first (Outline.countAll outlines)
  | [] => by rw [layOutAll, Outline.countAll, List.map_nil, List.range'_zero]
  | outline :: rest => by
      rw [layOutAll, List.map_append, map_id_layOut _ _ outline, map_id_layOutAll _ _ rest,
        Outline.countAll, List.range'_append_1]

end

theorem length_layOut (parent : Option Parent) (first : ElementId) (outline : Outline) :
    (layOut parent first outline).length = outline.count := by
  rw [← List.length_map Element.id, map_id_layOut, List.length_range']

theorem length_layOutAll (parent : Option Parent) (first : ElementId) (outlines : List Outline) :
    (layOutAll parent first outlines).length = Outline.countAll outlines := by
  rw [← List.length_map Element.id, map_id_layOutAll, List.length_range']

/-! The slots that outlines are put into. -/

theorem modify_middle {α : Type} (before : List α) (value : α) (after : List α) (change : α → α) :
    (before ++ value :: after).modify before.length change = before ++ change value :: after := by
  induction before with
  | nil => rfl
  | cons first rest ih => exact congrArg (first :: ·) ih

mutual

theorem push_eq {tree : SourceTree} {parent : Option Parent}
    (held : tree.nameAt? (parent.map Parent.id) = parent.map Parent.qualifiedName) :
    (outline : Outline) → push (parent.map Parent.id) tree outline =
      ({ tree with elements := tree.elements ++ layOut parent tree.elements.length outline },
        tree.elements.length)
  | { kind, name, qualifiedName, location, annotations, children } => by
      have nested := pushAll_eq tree.elements [] tree.roots
        { id := tree.elements.length, kind, name,
          qualifiedName := qualify (parent.map Parent.qualifiedName) qualifiedName name,
          parent := parent.map Parent.id, children := [], annotations, location } rfl children
      rw [push, held, nested]
      simp [layOut, Parent.of]

/-- What is put below the element in some slot stands behind all there is, and its numbers at the
end of the children of that element. -/
theorem pushAll_eq (before laid : List Element) (roots : List ElementId) (holder : Element)
    (inPlace : holder.id = before.length) : (outlines : List Outline) →
    pushAll before.length { elements := before ++ holder :: laid, roots } outlines =
      { elements := before ++
          { holder with
            children := holder.children ++ idsFrom (before.length + 1 + laid.length) outlines } ::
            (laid ++ layOutAll (some (.of holder)) (before.length + 1 + laid.length) outlines)
        roots }
  | [] => by simp [pushAll, idsFrom, layOutAll]
  | outline :: rest => by
      let tree : SourceTree := { elements := before ++ holder :: laid, roots }
      have length : tree.elements.length = before.length + 1 + laid.length := by
        simp [tree]
        omega
      have held : tree.nameAt? ((some (Parent.of holder)).map Parent.id) =
          (some (Parent.of holder)).map Parent.qualifiedName := by
        simp [tree, nameAt?, Parent.of, inPlace]
      have pushed := push_eq held outline
      rw [Option.map_some, show (Parent.of holder).id = before.length from inPlace, length]
        at pushed
      have later := pushAll_eq before
        (laid ++ layOut (some (.of holder)) (before.length + 1 + laid.length) outline) roots
        { holder with children := holder.children ++ [before.length + 1 + laid.length] } inPlace
        rest
      rw [pushAll, pushed]
      simp only [tree, adopt, List.append_assoc, List.cons_append, modify_middle]
      rw [later, List.length_append, length_layOut, idsFrom, layOutAll]
      simp [Parent.of, Nat.add_assoc]

end

theorem foldl_pushRoot (outlines : List Outline) (tree : SourceTree) :
    outlines.foldl pushRoot tree =
      { elements := tree.elements ++ layOutAll none tree.elements.length outlines
        roots := tree.roots ++ idsFrom tree.elements.length outlines } := by
  induction outlines generalizing tree with
  | nil => simp [layOutAll, idsFrom]
  | cons outline rest ih =>
      have pushed := @push_eq tree none rfl outline
      rw [Option.map_none] at pushed
      rw [List.foldl_cons, pushRoot, pushed, ih]
      simp [layOutAll, idsFrom, length_layOut]

theorem ofOutlines_eq (outlines : List Outline) :
    ofOutlines outlines =
      { elements := layOutAll none 0 outlines, roots := idsFrom 0 outlines } := by
  rw [ofOutlines, foldl_pushRoot]
  rfl

theorem elements_ofOutlines (outlines : List Outline) :
    (ofOutlines outlines).elements = layOutAll none 0 outlines := by
  rw [ofOutlines_eq]

theorem roots_ofOutlines (outlines : List Outline) :
    (ofOutlines outlines).roots = idsFrom 0 outlines := by
  rw [ofOutlines_eq]

theorem size_ofOutlines (outlines : List Outline) :
    (ofOutlines outlines).size = Outline.countAll outlines := by
  rw [size, elements_ofOutlines, length_layOutAll]

theorem get?_ofOutlines (outlines : List Outline) (id : ElementId) :
    (ofOutlines outlines).get? id = (layOutAll none 0 outlines)[id]? := by
  rw [get?, elements_ofOutlines]
  cases stored : (layOutAll none 0 outlines)[id]? with
  | none => rfl
  | some element =>
      have here : ((layOutAll none 0 outlines).map Element.id)[id]? = some element.id := by
        rw [List.getElem?_map, stored, Option.map_some]
      rw [map_id_layOutAll, List.getElem?_eq_some_iff] at here
      obtain ⟨_, isId⟩ := here
      rw [List.getElem_range', Nat.zero_add, Nat.one_mul] at isId
      simp [isId]

/-! The scan. -/

end SourceTree

def Walk.through (walk : Walk) (elements : List Element) : Walk :=
  { visited := walk.visited ++ elements.map Element.id, path := walk.path,
    pairs := walk.pairs ++ elements.flatMap Element.pairs }

theorem Walk.through_nil (walk : Walk) : walk.through [] = walk := by simp [through]

theorem Walk.through_append (walk : Walk) (first second : List Element) :
    walk.through (first ++ second) = (walk.through first).through second := by
  simp [through]

theorem Walk.through_cons (walk : Walk) (element : Element) (rest : List Element) :
    walk.through (element :: rest) = ((walk.enter element).through rest).leave := by
  simp [through, enter, leave]

def Link.under : Option ElementId → ElementId → Link
  | none, target => .root target
  | some holder, target => .child holder target

theorem Link.target_under (holder : Option ElementId) (target : ElementId) :
    (under holder target).target = target := by
  cases holder <;> rfl

theorem Link.holder_under (holder : Option ElementId) (target : ElementId) :
    (under holder target).holder = holder := by
  cases holder <;> rfl

namespace SourceTree

theorem get?_of_append {tree : SourceTree} {before after : List Element} {element : Element}
    (elements : tree.elements = before ++ element :: after) (here : element.id = before.length) :
    tree.get? before.length = some element := by
  simp [get?, elements, here]

theorem run_head {tree : SourceTree} {before after : List Element} {parent : Option Parent}
    {outline : Outline}
    (elements : tree.elements = before ++ headOf parent before.length outline :: after)
    {walk : Walk} (path : walk.path ⊆ walk.visited)
    (earlier : ∀ id ∈ walk.visited, id < before.length) (rest : List Errand) :
    tree.run (.follow (.under (parent.map Parent.id) before.length) :: rest) walk =
      tree.run ((headOf parent before.length outline).errands ++ rest)
        (walk.enter (headOf parent before.length outline)) := by
  have accepted : tree.accept walk (.under (parent.map Parent.id) before.length) =
      .ok (headOf parent before.length outline) := by
    apply accept_of_agrees path
    · rw [Agrees, Link.target_under, Link.holder_under]
      exact ⟨get?_of_append elements rfl, rfl⟩
    · rw [Link.target_under]
      exact fun seen => Nat.lt_irrefl _ (earlier _ seen)
  rw [run, accepted]

theorem path_enter {walk : Walk} (path : walk.path ⊆ walk.visited) (element : Element) :
    (walk.enter element).path ⊆ (walk.enter element).visited := by
  intro id member
  rcases List.mem_cons.mp member with now | old
  · simp [Walk.enter, now]
  · simp [Walk.enter, path old]

mutual

theorem run_layOut {tree : SourceTree} {before after : List Element} (parent : Option Parent)
    (rest : List Errand) {walk : Walk} (path : walk.path ⊆ walk.visited)
    (earlier : ∀ id ∈ walk.visited, id < before.length) : (outline : Outline) →
    tree.elements = before ++ layOut parent before.length outline ++ after →
    tree.run (.follow (.under (parent.map Parent.id) before.length) :: rest) walk =
      tree.run rest (walk.through (layOut parent before.length outline))
  | { kind, name, qualifiedName, location, annotations, children }, elements => by
      let outline : Outline := { kind, name, qualifiedName, location, annotations, children }
      let head := headOf parent before.length outline
      rw [layOut_eq, List.append_assoc, List.cons_append] at elements
      have inside : tree.elements = (before ++ [head]) ++
          layOutAll (some (.of head)) (before ++ [head]).length children ++ after := by
        simpa [head, outline] using elements
      have entered : ∀ id ∈ (walk.enter head).visited, id < (before ++ [head]).length := by
        intro id seen
        rw [List.length_append, List.length_singleton]
        rcases List.mem_append.mp seen with old | new
        · exact Nat.lt_succ_of_lt (earlier id old)
        · rw [List.mem_singleton.mp new]
          exact Nat.lt_succ_self _
      have walked := run_layOutAll (some (.of head)) (.leave :: rest)
        (path_enter path head) entered children inside
      rw [run_head elements path earlier, layOut_eq, Walk.through_cons, Element.errands,
        List.append_assoc]
      rw [run] at walked
      simpa [head, outline, headOf, Link.under, Function.comp_def, Parent.of] using walked

theorem run_layOutAll {tree : SourceTree} {before after : List Element} (parent : Option Parent)
    (rest : List Errand) {walk : Walk} (path : walk.path ⊆ walk.visited)
    (earlier : ∀ id ∈ walk.visited, id < before.length) : (outlines : List Outline) →
    tree.elements = before ++ layOutAll parent before.length outlines ++ after →
    tree.run ((idsFrom before.length outlines).map
        (fun id => .follow (.under (parent.map Parent.id) id)) ++ rest) walk =
      tree.run rest (walk.through (layOutAll parent before.length outlines))
  | [], _ => by
      rw [idsFrom, layOutAll, Walk.through_nil]
      rfl
  | outline :: others, elements => by
      rw [layOutAll, List.append_assoc, List.append_assoc] at elements
      rw [idsFrom, List.map_cons, List.cons_append, layOutAll, Walk.through_append]
      have length : (before ++ layOut parent before.length outline).length =
          before.length + outline.count := by
        rw [List.length_append, length_layOut]
      rw [run_layOut parent _ path earlier outline (by rw [elements, List.append_assoc]), ← length]
      apply run_layOutAll parent rest _ _ others
      · rw [elements, length, List.append_assoc, List.append_assoc]
      · exact fun id member => List.mem_append_left _ (path member)
      · intro id seen
        rw [length]
        rcases List.mem_append.mp seen with old | new
        · exact Nat.lt_of_lt_of_le (earlier id old) (Nat.le_add_right _ _)
        · rw [map_id_layOut, List.mem_range'_1] at new
          exact new.2

end

theorem scan_ofOutlines (outlines : List Outline) :
    (ofOutlines outlines).scan = .ok
      { tree := ofOutlines outlines
        visited := List.range (Outline.countAll outlines)
        pairs := (layOutAll none 0 outlines).flatMap Element.pairs } := by
  have whole : (ofOutlines outlines).elements =
      [] ++ layOutAll none ([] : List Element).length outlines ++ [] := by
    simp [elements_ofOutlines]
  have path : Walk.start.path ⊆ Walk.start.visited := List.nil_subset _
  have earlier : ∀ id ∈ Walk.start.visited, id < ([] : List Element).length := by
    simp [Walk.start]
  have ran := run_layOutAll none [] path earlier outlines whole
  have visited : (Walk.start.through (layOutAll none 0 outlines)).visited =
      List.range (Outline.countAll outlines) := by
    rw [Walk.through, map_id_layOutAll, List.range_eq_range']
    rfl
  rw [List.append_nil, run] at ran
  rw [scan, scanRoots, roots_ofOutlines]
  simp only [Option.map_none, Link.under, List.length_nil] at ran
  rw [ran, ← visited]
  rfl

end SourceTree

end FeatureAtlas
