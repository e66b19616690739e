import FeatureAtlas.Proofs.Export.Numbers
import FeatureAtlas.Proofs.Model.Mirroring
import FeatureAtlas.Proofs.Source.Layout

/-!
Wrappers: elements without declarations that are put around siblings. A wrapper takes a slot, and
everything behind it moves up by one.
-/

namespace FeatureAtlas

namespace Outline

mutual

def named : Outline → Bool
  | { qualifiedName, children, .. } => qualifiedName.isSome && allNamed children

def allNamed : List Outline → Bool
  | [] => true
  | outline :: rest => outline.named && allNamed rest

end

theorem named_eq (outline : Outline) :
    outline.named = (outline.qualifiedName.isSome && allNamed outline.children) := by
  cases outline
  rw [named]

theorem allNamed_append (outlines others : List Outline) :
    allNamed (outlines ++ others) = (allNamed outlines && allNamed others) := by
  induction outlines with
  | nil => simp [allNamed]
  | cons outline rest ih => rw [List.cons_append, allNamed, ih, allNamed, Bool.and_assoc]

/-- A wrapper without declarations is put around siblings that stand next to each other. -/
inductive Wraps : List Outline → List Outline → Prop
  | around (wrapper : Outline) (after : List Outline) :
      (∀ declared ∈ wrapper.annotations, declared.isDeclaration = false) →
      Wraps (wrapper.children ++ after) (wrapper :: after)
  | within {outline : Outline} {children : List Outline} (after : List Outline) :
      Wraps outline.children children →
      Wraps (outline :: after) ({ outline with children } :: after)
  | behind (outline : Outline) {rest wrapped : List Outline} :
      Wraps rest wrapped → Wraps (outline :: rest) (outline :: wrapped)

theorem Wraps.countAll {outlines wrapped : List Outline} (wraps : Wraps outlines wrapped) :
    countAll wrapped = countAll outlines + 1 := by
  induction wraps with
  | around _ after _ =>
      rw [Outline.countAll, count_eq, countAll_append]
      omega
  | within after _ ih =>
      rw [Outline.countAll, Outline.countAll, count_eq, count_eq, ih]
      omega
  | behind outline _ ih =>
      rw [Outline.countAll, Outline.countAll, ih]
      omega

end Outline

def shift (place id : Nat) : Nat := if id < place then id else id + 1

theorem shift_of_lt {place id : Nat} (before : id < place) : shift place id = id := if_pos before

theorem shift_of_le {place id : Nat} (behind : place ≤ id) : shift place id = id + 1 :=
  if_neg (Nat.not_lt.mpr behind)

theorem shift_injective (place : Nat) : Function.Injective (shift place) := by
  intro first second same
  simp only [shift] at same
  split at same <;> split at same <;> omega

/-- The same element under another number. A relation says what its parent may be. -/
structure Element.Stands (number : ElementId → ElementId)
    (parents : Option ElementId → Option ElementId → Prop) (element image : Element) : Prop where
  ref : image.toRef = element.toRef.renumber number
  annotations : image.annotations = element.annotations
  parent : parents element.parent image.parent

namespace SourceTree

section

variable {number : ElementId → ElementId} {parents : Option ElementId → Option ElementId → Prop}

theorem stands_headOf {parent otherParent : Option Parent} {first otherFirst : ElementId}
    (top : parents (parent.map Parent.id) (otherParent.map Parent.id)) {outline : Outline}
    (named : outline.qualifiedName.isSome = true) (numbered : number first = otherFirst)
    (children : List Outline) :
    (headOf parent first outline).Stands number parents
      (headOf otherParent otherFirst { outline with children }) := by
  obtain ⟨name, isName⟩ := Option.isSome_iff_exists.mp named
  refine ⟨?_, rfl, top⟩
  simp [headOf, Element.toRef, ElementRef.renumber, numbered, isName, qualify]

mutual

theorem forall₂_layOut (below : ∀ id, parents (some id) (some (number id)))
    {parent otherParent : Option Parent}
    (top : parents (parent.map Parent.id) (otherParent.map Parent.id)) {first otherFirst : Nat} :
    (outline : Outline) → outline.named = true →
    (∀ offset < outline.count, number (first + offset) = otherFirst + offset) →
    List.Forall₂ (Element.Stands number parents) (layOut parent first outline)
      (layOut otherParent otherFirst outline)
  | { kind, name, qualifiedName, location, annotations, children }, named, numbered => by
      rw [Outline.named_eq, Bool.and_eq_true] at named
      rw [Outline.count_eq] at numbered
      have head : number first = otherFirst := numbered 0 (Nat.succ_pos _)
      rw [layOut_eq, layOut_eq]
      refine .cons (stands_headOf top named.1 head _) ?_
      apply forall₂_layOutAll below _ children named.2
      · intro offset bound
        have inside := numbered (offset + 1) (Nat.succ_lt_succ bound)
        rw [Nat.add_assoc, Nat.add_comm 1, inside, Nat.add_assoc, Nat.add_comm 1]
      · have down := below first
        rwa [head] at down

theorem forall₂_layOutAll (below : ∀ id, parents (some id) (some (number id)))
    {parent otherParent : Option Parent}
    (top : parents (parent.map Parent.id) (otherParent.map Parent.id)) {first otherFirst : Nat} :
    (outlines : List Outline) → Outline.allNamed outlines = true →
    (∀ offset < Outline.countAll outlines, number (first + offset) = otherFirst + offset) →
    List.Forall₂ (Element.Stands number parents) (layOutAll parent first outlines)
      (layOutAll otherParent otherFirst outlines)
  | [], _, _ => by
      rw [layOutAll, layOutAll]
      exact .nil
  | outline :: rest, named, numbered => by
      rw [Outline.allNamed, Bool.and_eq_true] at named
      rw [Outline.countAll] at numbered
      rw [layOutAll, layOutAll]
      apply List.rel_append
      · exact forall₂_layOut below top outline named.1
          fun offset bound => numbered offset (Nat.lt_add_right _ bound)
      · apply forall₂_layOutAll below top rest named.2
        intro offset bound
        have behind := numbered (outline.count + offset) (Nat.add_lt_add_left bound _)
        rw [Nat.add_assoc, behind, Nat.add_assoc]

end

end

/-- What a parent may be once there is a wrapper: the same, or the wrapper instead of its parent. -/
def wrapperOver (wrapper : Element) (parent image : Option ElementId) : Prop :=
  image = parent.map (shift wrapper.id) ∨
    image = some wrapper.id ∧ wrapper.parent = parent.map (shift wrapper.id)

def Displaced (wrapper element image : Element) : Prop :=
  element.Stands (shift wrapper.id) (wrapperOver wrapper) image

inductive Inserted (wrapper : Element) (first : Nat) : List Element → List Element → Prop
  | intro {before after imagesBefore imagesAfter : List Element} :
      List.Forall₂ (Displaced wrapper) before imagesBefore →
      List.Forall₂ (Displaced wrapper) after imagesAfter →
      wrapper.id = first + before.length →
      Inserted wrapper first (before ++ after) (imagesBefore ++ wrapper :: imagesAfter)

section

variable {wrapper : Element} {first count : Nat}
  {elements images others otherImages : List Element}

theorem Inserted.prepend (displaced : List.Forall₂ (Displaced wrapper) others otherImages)
    (length : others.length = count)
    (inserted : Inserted wrapper (first + count) elements images) :
    Inserted wrapper first (others ++ elements) (otherImages ++ images) := by
  cases inserted with
  | intro before after place =>
      rw [← List.append_assoc, ← List.append_assoc]
      refine .intro (List.rel_append displaced before) after ?_
      rw [place, List.length_append, length, Nat.add_assoc]

theorem Inserted.append (inserted : Inserted wrapper first elements images)
    (displaced : List.Forall₂ (Displaced wrapper) others otherImages) :
    Inserted wrapper first (elements ++ others) (images ++ otherImages) := by
  cases inserted with
  | intro before after place =>
      rw [List.append_assoc, List.append_assoc, List.cons_append]
      exact .intro before (List.rel_append after displaced) place

end

theorem displaced_before {wrapper : Element} {parent otherParent : Option Parent} {first : Nat}
    (top : wrapperOver wrapper (parent.map Parent.id) (otherParent.map Parent.id))
    {outline : Outline} (named : outline.named = true)
    (before : first + outline.count ≤ wrapper.id) :
    List.Forall₂ (Displaced wrapper) (layOut parent first outline)
      (layOut otherParent first outline) := by
  apply forall₂_layOut (fun id => .inl rfl) top outline named
  intro offset bound
  apply shift_of_lt
  omega

theorem displaced_behind {wrapper : Element} {parent otherParent : Option Parent} {first : Nat}
    (top : wrapperOver wrapper (parent.map Parent.id) (otherParent.map Parent.id))
    {outlines : List Outline} (named : Outline.allNamed outlines = true)
    (behind : wrapper.id ≤ first) :
    List.Forall₂ (Displaced wrapper) (layOutAll parent first outlines)
      (layOutAll otherParent (first + 1) outlines) := by
  apply forall₂_layOutAll (fun id => .inl rfl) top outlines named
  intro offset bound
  rw [shift_of_le (Nat.le_add_right_of_le behind)]
  exact Nat.add_right_comm _ _ _

theorem map_shift_of_lt {parent : Option ElementId} {first place : Nat}
    (above : ∀ id, parent = some id → id < first) (behind : first ≤ place) :
    parent.map (shift place) = parent := by
  cases isParent : parent with
  | none => rfl
  | some id => rw [Option.map_some, shift_of_lt (Nat.lt_of_lt_of_le (above id isParent) behind)]

theorem exists_inserted {outlines wrapped : List Outline} (wraps : Outline.Wraps outlines wrapped)
    (named : Outline.allNamed outlines = true) {parent otherParent : Option Parent} {first : Nat}
    (same : otherParent.map Parent.id = parent.map Parent.id)
    (above : ∀ id, parent.map Parent.id = some id → id < first) :
    ∃ wrapper, wrapper.pairs = [] ∧ first ≤ wrapper.id ∧
      wrapper.id ≤ first + Outline.countAll outlines ∧
      Inserted wrapper first (layOutAll parent first outlines)
        (layOutAll otherParent first wrapped) := by
  -- the parent has a slot before all of these, so it has the same number on both sides
  have unmoved {place : Nat} (behind : first ≤ place) :
      otherParent.map Parent.id = (parent.map Parent.id).map (shift place) :=
    same.trans (map_shift_of_lt above behind).symm
  induction wraps generalizing parent otherParent first with
  | around outline after plain =>
      rw [Outline.allNamed_append, Bool.and_eq_true] at named
      have parentSame := unmoved (Nat.le_refl first)
      refine ⟨headOf otherParent first outline, ?_, Nat.le_refl _, Nat.le_add_right _ _, ?_⟩
      · rw [Element.pairs, List.filter_eq_nil_iff.mpr, List.map_nil]
        exact fun declared member => Bool.eq_false_iff.mp (plain declared member)
      · rw [layOutAll_append, layOutAll, layOut_eq, Outline.count_eq]
        refine .intro .nil (List.rel_append ?inside ?back) rfl
        case inside => exact displaced_behind (.inr ⟨rfl, parentSame⟩) named.1 (Nat.le_refl _)
        case back => exact displaced_behind (.inl parentSame) named.2 (Nat.le_add_right _ _)
  | @within outline children after wraps ih =>
      rw [Outline.allNamed, Outline.named_eq, Bool.and_eq_true, Bool.and_eq_true] at named
      have inner : ∀ id, (some (Parent.of (headOf parent first outline))).map Parent.id = some id →
          id < first + 1 := by
        rintro id ⟨⟩
        exact Nat.lt_succ_self _
      have innerSame :
          (some (Parent.of (headOf otherParent first { outline with children }))).map Parent.id =
            (some (Parent.of (headOf parent first outline))).map Parent.id := rfl
      obtain ⟨wrapper, bare, lower, upper, inserted⟩ := ih named.1.2 innerSame inner
        fun behind => (map_shift_of_lt inner behind).symm
      have parentSame := unmoved (Nat.le_of_succ_le lower)
      have head : Displaced wrapper (headOf parent first outline)
          (headOf otherParent first { outline with children }) :=
        stands_headOf (.inl parentSame) named.1.1 (shift_of_lt lower) children
      have back := displaced_behind (.inl parentSame) named.2 upper
      have order (count : Nat) : first + (count + 1) = first + 1 + count := by omega
      refine ⟨wrapper, bare, Nat.le_of_succ_le lower, ?_, ?_⟩
      · rw [Outline.countAll, Outline.count_eq]
        omega
      · rw [layOutAll, layOutAll, layOut_eq, layOut_eq, Outline.count_eq, Outline.count_eq,
          wraps.countAll, order (Outline.countAll outline.children),
          order (Outline.countAll outline.children + 1)]
        exact (inserted.prepend (.cons head .nil) rfl).append back
  | @behind outline rest wrapped wraps ih =>
      rw [Outline.allNamed, Bool.and_eq_true] at named
      have earlier := fun id isParent => Nat.lt_add_right outline.count (above id isParent)
      obtain ⟨wrapper, bare, lower, upper, inserted⟩ := ih named.2 same earlier
        fun behind => same.trans (map_shift_of_lt earlier behind).symm
      have parentSame := unmoved (Nat.le_of_add_right_le lower)
      have front := displaced_before (.inl parentSame) named.1 lower
      refine ⟨wrapper, bare, Nat.le_of_add_right_le lower, ?_, ?_⟩
      · rw [Outline.countAll]
        omega
      · rw [layOutAll, layOutAll]
        exact inserted.prepend front (length_layOut parent first outline)

/-! The two trees. -/

theorem Displaced.mirrors {wrapper element image : Element}
    (displaced : Displaced wrapper element image) :
    element.Mirrors (shift wrapper.id) image := by
  refine ⟨displaced.ref, ?_⟩
  rw [Element.mappedKeys, displaced.annotations, Element.mappedKeys]

theorem Displaced.pairs {wrapper element image : Element}
    (displaced : Displaced wrapper element image) :
    EchoedPairs (shift wrapper.id) false element.pairs image.pairs := by
  rw [Element.pairs, Element.pairs, displaced.annotations]
  induction element.annotations.filter Annotation.isDeclaration with
  | nil => exact .none
  | cons declared rest ih =>
      rw [List.map_cons, List.map_cons]
      exact .same rfl displaced.ref (by simp) ih

theorem mappedKeys_of_pairs {element : Element} (bare : element.pairs = []) :
    element.mappedKeys = [] := by
  have none : element.mappings = [] := by
    rw [← mappingsOf_pairs, bare]
    rfl
  rw [Element.mappings, List.map_eq_nil_iff] at none
  rw [Element.mappedKeys, none, List.eraseDups_nil]

section

variable {wrapper : Element}

theorem Inserted.inPlace {elements images : List Element}
    (inserted : Inserted wrapper 0 elements images) : images[wrapper.id]? = some wrapper := by
  cases inserted with
  | intro before _ place =>
      rw [Nat.zero_add, before.length_eq] at place
      rw [place, List.getElem?_append_right (Nat.le_refl _), Nat.sub_self, List.getElem?_cons_zero]

theorem Inserted.slot {elements images : List Element}
    (inserted : Inserted wrapper 0 elements images) (id : Nat) :
    (elements[id]? = none ∧ images[shift wrapper.id id]? = none) ∨
      ∃ element image, elements[id]? = some element ∧
        images[shift wrapper.id id]? = some image ∧ Displaced wrapper element image := by
  cases inserted with
  | @intro before after imagesBefore imagesAfter front back place =>
      rw [Nat.zero_add] at place
      have length := front.length_eq
      by_cases bound : id < before.length
      · rw [shift_of_lt (place ▸ bound), List.getElem?_append_left bound,
          List.getElem?_append_left (length ▸ bound)]
        exact forall₂_slot front id
      · rw [Nat.not_lt] at bound
        rw [shift_of_le (place ▸ bound), List.getElem?_append_right bound,
          List.getElem?_append_right (by omega), ← length, Nat.sub_add_comm bound,
          List.getElem?_cons_succ]
        exact forall₂_slot back _

theorem Inserted.pairs {elements images : List Element}
    (inserted : Inserted wrapper 0 elements images) (bare : wrapper.pairs = []) :
    EchoedPairs (shift wrapper.id) false (elements.flatMap Element.pairs)
      (images.flatMap Element.pairs) := by
  cases inserted with
  | intro front back _ =>
      rw [List.flatMap_append, List.flatMap_append, List.flatMap_cons, bare, List.nil_append]
      apply EchoedPairs.append
      · exact EchoedPairs.flatMap (front.imp fun _ _ => Displaced.pairs)
      · exact EchoedPairs.flatMap (back.imp fun _ _ => Displaced.pairs)

variable {outlines wrapped : List Outline}

theorem Inserted.reflects
    (inserted : Inserted wrapper 0 (layOutAll none 0 outlines) (layOutAll none 0 wrapped))
    (parent : Option ElementId) :
    Option.Rel (Element.Mirrors (shift wrapper.id)) (parent.bind (ofOutlines outlines).get?)
      ((parent.map (shift wrapper.id)).bind (ofOutlines wrapped).get?) := by
  cases parent with
  | none => exact .none
  | some id =>
      simp only [Option.bind_some, Option.map_some, get?_ofOutlines]
      rcases inserted.slot id with ⟨absent, missing⟩ | ⟨element, image, found, reflected, displaced⟩
      · rw [absent, missing]
        exact .none
      · rw [found, reflected]
        exact .some displaced.mirrors

theorem Inserted.mirrors
    (inserted : Inserted wrapper 0 (layOutAll none 0 outlines) (layOutAll none 0 wrapped))
    (bare : wrapper.pairs = []) :
    (ofOutlines outlines).Mirrors (shift wrapper.id) (ofOutlines wrapped) := by
  refine ⟨shift_injective _, ?_⟩
  intro id element stored
  rw [get?_ofOutlines] at stored
  rcases inserted.slot id with ⟨absent, _⟩ | ⟨other, image, found, reflected, displaced⟩
  · simp [absent] at stored
  · obtain rfl := Option.some.inj (found.symm.trans stored)
    refine ⟨image, (other.parent.map (shift wrapper.id)).bind (ofOutlines wrapped).get?,
      (get?_ofOutlines wrapped _).trans reflected, displaced.mirrors, ?_,
      inserted.reflects other.parent⟩
    rcases displaced.parent with kept | ⟨held, beyond⟩
    · rw [← kept]
      exact .parent image
    · have between : (ofOutlines wrapped).parentOf? image = some wrapper := by
        rw [parentOf?, held, Option.bind_some, get?_ofOutlines, inserted.inPlace]
      rw [← beyond]
      exact .beyond between (mappedKeys_of_pairs bare) (.parent wrapper)

end

end SourceTree

namespace Scan

/-- A wrapper around siblings, anywhere in the outlines, changes nothing in the document of the
model, nor in what is exported of it. -/
theorem build_wrapped {outlines wrapped : List Outline} (wraps : Outline.Wraps outlines wrapped)
    (named : Outline.allNamed outlines = true) :
    ∃ scan other, (SourceTree.ofOutlines outlines).scan = .ok scan ∧
      (SourceTree.ofOutlines wrapped).scan = .ok other ∧
      other.build.document = scan.build.document ∧
      ∀ format, other.build.exportText format = scan.build.exportText format := by
  have above : ∀ id, (none : Option SourceTree.Parent).map SourceTree.Parent.id = some id →
      id < 0 := by simp
  obtain ⟨wrapper, bare, _, _, inserted⟩ := SourceTree.exists_inserted wraps named rfl above
  have accepted := SourceTree.scan_ofOutlines outlines
  have otherAccepted := SourceTree.scan_ofOutlines wrapped
  have echoes := build_echoes accepted otherAccepted (inserted.mirrors bare) (inserted.pairs bare)
  exact ⟨_, _, accepted, otherAccepted, echoes.document, echoes.exportText⟩

def payOutline : Outline where
  kind := .method
  name := "pay"
  qualifiedName := some "Shop.pay"
  annotations := [.mapping { targetConcept := "Payments", granularity := .component }]

def priceOutline : Outline where
  kind := .field
  name := "price"
  qualifiedName := some "Shop.price"
  annotations := [.feature { name := "Prices" }]

def shopOutline (children : List Outline) : Outline where
  name := "Shop"
  qualifiedName := some "Shop"
  annotations := [.mapping { targetConcept := "Sales", granularity := .module }]
  children

theorem shop_wraps_pay :
    Outline.Wraps [shopOutline [priceOutline, payOutline]]
      [shopOutline [priceOutline, { name := "Inner", children := [payOutline] }]] ∧
    Outline.allNamed [shopOutline [priceOutline, payOutline]] = true ∧
      ∃ scan other,
        (SourceTree.ofOutlines [shopOutline [priceOutline, payOutline]]).scan = .ok scan ∧
        (SourceTree.ofOutlines
          [shopOutline [priceOutline, { name := "Inner", children := [payOutline] }]]).scan =
            .ok other ∧
        other.build.document = scan.build.document ∧
        ∀ format, other.build.exportText format = scan.build.exportText format := by
  have inner : Outline.Wraps [priceOutline, payOutline]
      [priceOutline, { name := "Inner", children := [payOutline] }] :=
    .behind _ (.around { name := "Inner", children := [payOutline] } [] (by simp))
  have wraps : Outline.Wraps [shopOutline [priceOutline, payOutline]]
      [shopOutline [priceOutline, { name := "Inner", children := [payOutline] }]] :=
    .within [] inner
  have named : Outline.allNamed [shopOutline [priceOutline, payOutline]] = true := by decide
  exact ⟨wraps, named, build_wrapped wraps named⟩

end Scan

end FeatureAtlas
