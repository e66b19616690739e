import Mathlib.Data.List.Forall2
import FeatureAtlas.Proofs.Model.Containment
import FeatureAtlas.Proofs.Model.Renumbering

/-!
Trees that show the same nesting of mapped elements. The elements of the one have images in the
other, under other numbers, and between images there may be further elements as long as they are not
mapped. The models of the two are the same but for the numbers.
-/

namespace FeatureAtlas

variable {number : ElementId → ElementId} {quiet : Bool}

theorem related_flatMap {α β γ δ : Type} {related : List γ → List δ → Prop}
    (none : related [] [])
    (append : ∀ {first firstImage second secondImage}, related first firstImage →
      related second secondImage → related (first ++ second) (firstImage ++ secondImage))
    {items : List α} {images : List β} {left : α → List γ} {right : β → List δ}
    (each : List.Forall₂ (fun item image => related (left item) (right image)) items images) :
    related (items.flatMap left) (images.flatMap right) := by
  induction each with
  | nil => exact none
  | cons first _ ih =>
      rw [List.flatMap_cons, List.flatMap_cons]
      exact append first ih

theorem forall₂_flatMap {α β γ : Type} {related : β → γ → Prop} {items : List α}
    {left : α → List β} {right : α → List γ}
    (each : ∀ item ∈ items, List.Forall₂ related (left item) (right item)) :
    List.Forall₂ related (items.flatMap left) (items.flatMap right) := by
  have parts : List.Forall₂ (fun item image => List.Forall₂ related (left item) (right image))
      items items := List.forall₂_same.mpr each
  exact @related_flatMap _ _ _ _ (List.Forall₂ related) .nil
    (fun first second => List.rel_append first second) _ _ _ _ parts

theorem forall₂_slot {β γ : Type} {related : β → γ → Prop} {items : List β} {images : List γ}
    (each : List.Forall₂ related items images) (index : Nat) :
    (items[index]? = none ∧ images[index]? = none) ∨
      ∃ item image, items[index]? = some item ∧ images[index]? = some image ∧
        related item image := by
  have length := each.length_eq
  by_cases bound : index < items.length
  · right
    have imageBound : index < images.length := length ▸ bound
    exact ⟨_, _, List.getElem?_eq_getElem bound, List.getElem?_eq_getElem imageBound,
      each.get bound imageBound⟩
  · left
    rw [List.getElem?_eq_none_iff, List.getElem?_eq_none_iff]
    omega

structure Element.Mirrors (number : ElementId → ElementId) (element image : Element) : Prop where
  ref : image.toRef = element.toRef.renumber number
  mappedKeys : image.mappedKeys = element.mappedKeys

theorem Element.Mirrors.id {element image : Element} (mirrors : element.Mirrors number image) :
    image.id = number element.id :=
  congrArg ElementRef.id mirrors.ref

namespace SourceTree

/-- An element lies below its parent and, as long as parents are not mapped, below theirs. -/
inductive LiesBelow (tree : SourceTree) : Element → Option Element → Prop
  | parent (element : Element) : LiesBelow tree element (tree.parentOf? element)
  | beyond {element between : Element} {above : Option Element} :
      tree.parentOf? element = some between → between.mappedKeys = [] →
      LiesBelow tree between above → LiesBelow tree element above

structure Mirrors (number : ElementId → ElementId) (tree mirror : SourceTree) : Prop where
  injective : Function.Injective number
  reflected : ∀ {id element}, tree.get? id = some element →
    ∃ image above, mirror.get? (number id) = some image ∧ element.Mirrors number image ∧
      mirror.LiesBelow image above ∧
      Option.Rel (Element.Mirrors number) (tree.parentOf? element) above

variable {tree mirror : SourceTree}

theorem get?_of_parentOf? {element parent : Element}
    (isParent : tree.parentOf? element = some parent) : tree.get? parent.id = some parent := by
  obtain ⟨id, _, found⟩ := Option.bind_eq_some_iff.mp isParent
  rwa [(get?_id found).1]

theorem LiesBelow.found {element holder : Element} {above : Option Element}
    (below : tree.LiesBelow element above) (isHolder : above = some holder) :
    tree.get? holder.id = some holder := by
  induction below with
  | parent element => exact get?_of_parentOf? isHolder
  | beyond _ _ _ ih => exact ih isHolder

theorem LiesBelow.nearestMapped_iff {element : Element} {above : Option Element}
    (below : tree.LiesBelow element above) (ancestor : Element) :
    tree.NearestMapped element ancestor ↔ ∃ holder, above = some holder ∧
      (holder.mappedKeys ≠ [] ∧ ancestor = holder ∨
        holder.mappedKeys = [] ∧ tree.NearestMapped holder ancestor) := by
  induction below with
  | parent element =>
      cases isParent : tree.parentOf? element with
      | none =>
          constructor
          · intro nearest
            obtain ⟨parent, other⟩ := nearest.exists_parent
            simp [isParent] at other
          · rintro ⟨holder, none, _⟩
            simp at none
      | some parent => simp [SourceTree.nearestMapped_iff isParent]
  | beyond isParent unmapped _ ih =>
      rw [SourceTree.nearestMapped_iff isParent, ← ih]
      simp [unmapped]

theorem Mirrors.nearest (mirrors : tree.Mirrors number mirror) {ids : List ElementId}
    (listed : tree.Lists ids) {element image : Element} (member : element ∈ tree.elementsOf ids)
    (found : mirror.get? (number element.id) = some image) :
    (∃ ancestor reflected, tree.NearestMapped element ancestor ∧
        mirror.NearestMapped image reflected ∧ ancestor.Mirrors number reflected) ∨
      ∀ ancestor, ¬tree.NearestMapped element ancestor ∧ ¬mirror.NearestMapped image ancestor := by
  -- the parents of listed elements are listed earlier
  induction place : ids.idxOf element.id using Nat.strongRecOn generalizing element image with
  | ind place ih =>
      have elementFound := (mem_elementsOf.mp member).2
      obtain ⟨_, above, imageFound, _, below, related⟩ := mirrors.reflected elementFound
      obtain rfl := Option.some.inj (imageFound.symm.trans found)
      have here : tree.LiesBelow element (tree.parentOf? element) := .parent element
      cases isParent : tree.parentOf? element with
      | none =>
          rw [isParent] at related here
          cases related
          right
          intro ancestor
          rw [here.nearestMapped_iff, below.nearestMapped_iff]
          simp
      | some parent =>
          rw [isParent] at related here
          cases related with
          | @some _ holder isImage =>
          obtain ⟨parentMember, before⟩ := listed.parent member isParent
          have holderFound := isImage.id ▸ below.found rfl
          by_cases mapped : parent.mappedKeys = []
          · rcases ih _ (place ▸ before) parentMember holderFound rfl with
              ⟨ancestor, reflected, nearest, mirrored, same⟩ | none
            · left
              refine ⟨ancestor, reflected, ?_, ?_, same⟩
              · exact (here.nearestMapped_iff ancestor).mpr ⟨parent, rfl, .inr ⟨mapped, nearest⟩⟩
              · exact (below.nearestMapped_iff reflected).mpr
                  ⟨holder, rfl, .inr ⟨isImage.mappedKeys.trans mapped, mirrored⟩⟩
            · right
              intro ancestor
              rw [here.nearestMapped_iff, below.nearestMapped_iff]
              simp [mapped, isImage.mappedKeys, none ancestor]
          · left
            refine ⟨parent, holder, ?_, ?_, isImage⟩
            · exact (here.nearestMapped_iff parent).mpr ⟨parent, rfl, .inl ⟨mapped, rfl⟩⟩
            · refine (below.nearestMapped_iff holder).mpr ⟨holder, rfl, .inl ⟨?_, rfl⟩⟩
              rwa [isImage.mappedKeys]

end SourceTree

/-! The declarations and the nestings of the two. -/

theorem EchoedPairs.append {first second firstEchoes secondEchoes : List ScanPair}
    (front : EchoedPairs number quiet first firstEchoes)
    (back : EchoedPairs number quiet second secondEchoes) :
    EchoedPairs number quiet (first ++ second) (firstEchoes ++ secondEchoes) := by
  induction front with
  | none => exact back
  | same declared ref named _ ih => exact .same declared ref named ih
  | blank isQuiet isBlank _ ih => exact .blank isQuiet isBlank ih

theorem EchoedPairs.flatMap {elements images : List Element}
    (each : List.Forall₂ (fun element image => EchoedPairs number quiet element.pairs image.pairs)
      elements images) :
    EchoedPairs number quiet (elements.flatMap Element.pairs) (images.flatMap Element.pairs) :=
  related_flatMap .none .append each

structure Nesting.Mirrors (number : ElementId → ElementId) (nesting image : Nesting) : Prop where
  element : nesting.element.Mirrors number image.element
  ancestor : nesting.ancestor.Mirrors number image.ancestor
  child : image.child = nesting.child
  parent : image.parent = nesting.parent

theorem forall₂_between {element ancestor image reflected : Element}
    (isImage : element.Mirrors number image) (isReflected : ancestor.Mirrors number reflected) :
    List.Forall₂ (Nesting.Mirrors number) (Nesting.between element ancestor)
      (Nesting.between image reflected) := by
  rw [Nesting.between, Nesting.between, isImage.mappedKeys, isReflected.mappedKeys]
  apply forall₂_flatMap
  intro child _
  rw [List.forall₂_map_left_iff, List.forall₂_map_right_iff, List.forall₂_same]
  intro parent _
  exact ⟨isImage, isReflected, rfl, rfl⟩

namespace Scan

variable {tree otherTree : SourceTree} {roots otherRoots : List ElementId} {scan mirror : Scan}

theorem mappings_echo
    (declared : (({} : Assembly).declareAll scan.pairs).Echoes number quiet
      (({} : Assembly).declareAll mirror.pairs)) :
    nodeKeys mirror.mappings = nodeKeys scan.mappings ∧
      mappedIds mirror.mappings = (mappedIds scan.mappings).map number := by
  have declares := Assembly.declareAll_declares scan.pairs
  have reflected := Assembly.declareAll_declares mirror.pairs
  refine ⟨reflected.keys.symm.trans (declared.model.keys.trans declares.keys), ?_⟩
  rw [mappings, mappings, ← reflected.order, ← declares.order, declared.order]

theorem nestings_mirror (accepted : tree.scanRoots roots = .ok scan)
    (otherAccepted : otherTree.scanRoots otherRoots = .ok mirror)
    (mirrors : scan.tree.Mirrors number mirror.tree)
    (sameIds : mappedIds mirror.mappings = (mappedIds scan.mappings).map number) :
    List.Forall₂ (Nesting.Mirrors number) scan.nestings mirror.nestings := by
  rw [nestings, nestings, sameIds, List.flatMap_map]
  apply forall₂_flatMap
  intro id member
  have reflected := List.mem_map_of_mem (f := number) member
  rw [← sameIds] at reflected
  rw [mappings_eq accepted, SourceTree.mem_mappedIds_mappings] at member
  rw [mappings_eq otherAccepted, SourceTree.mem_mappedIds_mappings] at reflected
  obtain ⟨element, scanned, rfl, _⟩ := member
  obtain ⟨image, imageScanned, isId, _⟩ := reflected
  have found := isId ▸ (SourceTree.mem_elementsOf.mp imageScanned).2
  obtain ⟨_, _, imageFound, isImage, _, _⟩ :=
    mirrors.reflected (SourceTree.mem_elementsOf.mp scanned).2
  obtain rfl := Option.some.inj (imageFound.symm.trans found)
  rw [← isId]
  rcases mirrors.nearest (listed accepted) scanned found with
    ⟨ancestor, reflection, nearest, reflectedNearest, isReflection⟩ | isolated
  · rw [nestingsAt_of_nearest accepted scanned nearest,
      nestingsAt_of_nearest otherAccepted imageScanned reflectedNearest]
    exact forall₂_between isImage isReflection
  · rw [nestingsAt_of_isolated accepted scanned fun ancestor => (isolated ancestor).1,
      nestingsAt_of_isolated otherAccepted imageScanned fun ancestor => (isolated ancestor).2]
    exact .nil

theorem attempts_mirror (accepted : tree.scanRoots roots = .ok scan)
    (otherAccepted : otherTree.scanRoots otherRoots = .ok mirror)
    (mirrors : scan.tree.Mirrors number mirror.tree)
    (sameKeys : nodeKeys mirror.mappings = nodeKeys scan.mappings)
    (sameIds : mappedIds mirror.mappings = (mappedIds scan.mappings).map number) :
    List.Forall₂ (LinkAttempt.Echoes number) scan.attempts mirror.attempts := by
  rw [attempts_eq accepted, attempts_eq otherAccepted, sameKeys, List.forall₂_map_left_iff,
    List.forall₂_map_right_iff]
  refine (nestings_mirror accepted otherAccepted mirrors sameIds).imp ?_
  intro nesting image isImage
  refine ⟨?_, ?_, isImage.ancestor.ref, isImage.element.ref⟩
  · simp only [Nesting.attempt, isImage.parent]
  · simp only [Nesting.attempt, isImage.child]

theorem build_echoes_of_declared (accepted : tree.scanRoots roots = .ok scan)
    (otherAccepted : otherTree.scanRoots otherRoots = .ok mirror)
    (mirrors : scan.tree.Mirrors number mirror.tree)
    (declared : (({} : Assembly).declareAll scan.pairs).Echoes number quiet
      (({} : Assembly).declareAll mirror.pairs)) :
    scan.build.Echoes number quiet mirror.build := by
  obtain ⟨sameKeys, sameIds⟩ := mappings_echo declared
  have attempted := attempts_mirror accepted otherAccepted mirrors sameKeys sameIds
  rw [← scan.declared_attempts, ← mirror.declared_attempts] at attempted
  exact (declared.linkAll attempted).reportCycles mirrors.injective

/-- Scans with the same declarations of trees with the same nesting give the same model but for the
numbers of the elements and, if it is quiet, the diagnostics of empty names. -/
theorem build_echoes (accepted : tree.scanRoots roots = .ok scan)
    (otherAccepted : otherTree.scanRoots otherRoots = .ok mirror)
    (mirrors : scan.tree.Mirrors number mirror.tree)
    (echoed : EchoedPairs number quiet scan.pairs mirror.pairs) :
    scan.build.Echoes number quiet mirror.build := by
  have declared := Assembly.echoes_empty.declareAll mirrors.injective echoed
  exact build_echoes_of_declared accepted otherAccepted mirrors declared

end Scan

end FeatureAtlas
