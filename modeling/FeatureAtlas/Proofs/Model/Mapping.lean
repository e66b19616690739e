import FeatureAtlas.Model.Assembly
import FeatureAtlas.Proofs.Distinct
import FeatureAtlas.Proofs.Source.Walk

/-!
The mappings of source elements: which nodes an element takes part in, and what the mappings found
by a scan say about nodes and elements, each in the order of its first mapping.
-/

namespace FeatureAtlas

/-- The key of the node that a mapping asks for. A blank name asks for none. -/
def Annotation.mappedKey? : Annotation → Option NodeKey
  | .mapping declaration =>
      if FeatureAtlas.isBlank declaration.targetConcept then none else some declaration.key
  | .feature _ | .other => none

theorem Annotation.mappedKey?_of_isBlank {declared : Annotation}
    (blank : declared.isBlank = true) : declared.mappedKey? = none := by
  cases declared with
  | mapping declaration => exact if_pos blank
  | feature _ => rfl
  | other => rfl

theorem Annotation.mappedKey?_eq_some_iff {declared : Annotation} {key : NodeKey} :
    declared.mappedKey? = some key ↔ ∃ declaration, declared = .mapping declaration ∧
      FeatureAtlas.isBlank declaration.targetConcept = false ∧ declaration.key = key := by
  cases declared with
  | mapping declaration => simp [mappedKey?]
  | feature _ => simp [mappedKey?]
  | other => simp [mappedKey?]

def Element.mappedKeys (element : Element) : List NodeKey :=
  (element.annotations.filterMap Annotation.mappedKey?).eraseDups

structure Mapping where
  element : Element
  key : NodeKey
deriving DecidableEq, Repr

def ScanPair.mapping? (pair : ScanPair) : Option Mapping :=
  pair.declared.mappedKey?.map fun key => { element := pair.element, key }

def mappingsOf (pairs : List ScanPair) : List Mapping := pairs.filterMap ScanPair.mapping?

def nodeKeys (mappings : List Mapping) : List NodeKey := (mappings.map Mapping.key).eraseDups

def mappedIds (mappings : List Mapping) : List ElementId :=
  (mappings.map fun mapping => mapping.element.id).eraseDups

def keysOf (mappings : List Mapping) (id : ElementId) : List NodeKey :=
  ((mappings.filter fun mapping => mapping.element.id == id).map Mapping.key).eraseDups

theorem mappingsOf_snoc (pairs : List ScanPair) (pair : ScanPair) :
    mappingsOf (pairs ++ [pair]) = mappingsOf pairs ++ pair.mapping?.toList := by
  cases found : pair.mapping? <;> simp [mappingsOf, found]

theorem nodeKeys_snoc (mappings : List Mapping) (mapping : Mapping) :
    nodeKeys (mappings ++ [mapping]) =
      if mapping.key ∈ nodeKeys mappings then nodeKeys mappings
      else nodeKeys mappings ++ [mapping.key] := by
  simp only [nodeKeys, List.map_append, List.map_singleton, eraseDups_snoc, List.mem_eraseDups]

theorem mappedIds_snoc (mappings : List Mapping) (mapping : Mapping) :
    mappedIds (mappings ++ [mapping]) =
      if mapping.element.id ∈ mappedIds mappings then mappedIds mappings
      else mappedIds mappings ++ [mapping.element.id] := by
  simp only [mappedIds, List.map_append, List.map_singleton, eraseDups_snoc, List.mem_eraseDups]

theorem keysOf_snoc_same (mappings : List Mapping) (mapping : Mapping) :
    keysOf (mappings ++ [mapping]) mapping.element.id =
      if mapping.key ∈ keysOf mappings mapping.element.id then keysOf mappings mapping.element.id
      else keysOf mappings mapping.element.id ++ [mapping.key] := by
  simp only [keysOf, List.filter_append, List.filter_cons, beq_self_eq_true, if_true,
    List.filter_nil, List.map_append, List.map_singleton, eraseDups_snoc, List.mem_eraseDups]

theorem keysOf_snoc_other {mappings : List Mapping} {mapping : Mapping} {id : ElementId}
    (different : mapping.element.id ≠ id) :
    keysOf (mappings ++ [mapping]) id = keysOf mappings id := by
  simp [keysOf, List.filter_append, different]

theorem nodup_nodeKeys (mappings : List Mapping) : (nodeKeys mappings).Nodup :=
  nodup_eraseDups _

theorem nodup_mappedIds (mappings : List Mapping) : (mappedIds mappings).Nodup :=
  nodup_eraseDups _

theorem mem_nodeKeys_of_mem_keysOf {mappings : List Mapping} {id : ElementId} {key : NodeKey}
    (member : key ∈ keysOf mappings id) : key ∈ nodeKeys mappings := by
  rw [keysOf, List.mem_eraseDups] at member
  rw [nodeKeys, List.mem_eraseDups]
  obtain ⟨mapping, kept, isKey⟩ := List.mem_map.mp member
  exact List.mem_map.mpr ⟨mapping, (List.mem_filter.mp kept).1, isKey⟩

theorem keysOf_eq_nil {mappings : List Mapping} {id : ElementId}
    (absent : id ∉ mappedIds mappings) : keysOf mappings id = [] := by
  have none : (mappings.filter fun mapping => mapping.element.id == id) = [] := by
    rw [List.filter_eq_nil_iff]
    intro mapping member same
    apply absent
    rw [mappedIds, List.mem_eraseDups]
    exact List.mem_map.mpr ⟨mapping, member, beq_iff_eq.mp same⟩
  simp [keysOf, none]

/-! The mappings of listed elements. -/

def Element.mappings (element : Element) : List Mapping :=
  (element.annotations.filterMap Annotation.mappedKey?).map fun key => { element, key }

theorem Element.nodup_mappedKeys (element : Element) : element.mappedKeys.Nodup := nodup_eraseDups _

theorem mappingsOf_pairs (element : Element) : mappingsOf element.pairs = element.mappings := by
  simp only [mappingsOf, Element.pairs, Element.mappings, List.filterMap_map,
    List.filterMap_filter, List.map_filterMap]
  apply List.filterMap_congr
  intro declared _
  cases declared <;> rfl

theorem mappingsOf_flatMap (elements : List Element) :
    mappingsOf (elements.flatMap Element.pairs) = elements.flatMap Element.mappings := by
  induction elements with
  | nil => rfl
  | cons element rest ih =>
      rw [List.flatMap_cons, List.flatMap_cons, ← ih, ← mappingsOf_pairs]
      exact List.filterMap_append

theorem mem_mappings {element : Element} {mapping : Mapping} :
    mapping ∈ element.mappings ↔ mapping.element = element ∧ mapping.key ∈ element.mappedKeys := by
  simp only [Element.mappings, Element.mappedKeys, List.mem_map, List.mem_eraseDups]
  constructor
  · rintro ⟨key, member, rfl⟩
    exact ⟨rfl, member⟩
  · rintro ⟨rfl, member⟩
    exact ⟨mapping.key, member, rfl⟩

theorem filter_mappings_of_ne {element : Element} {id : ElementId} (different : element.id ≠ id) :
    (element.mappings.filter fun mapping => mapping.element.id == id) = [] := by
  rw [List.filter_eq_nil_iff]
  intro mapping member same
  rw [(mem_mappings.mp member).1, beq_iff_eq] at same
  exact different same

theorem filter_flatMap_mappings {elements : List Element}
    (distinct : (elements.map Element.id).Nodup) {element : Element} (member : element ∈ elements) :
    ((elements.flatMap Element.mappings).filter fun mapping => mapping.element.id == element.id) =
      element.mappings := by
  induction elements with
  | nil => simp at member
  | cons first rest ih =>
      obtain ⟨apart, distinctRest⟩ := List.nodup_cons.mp distinct
      rw [List.flatMap_cons, List.filter_append]
      rcases List.mem_cons.mp member with here | later
      · subst here
        have own : (element.mappings.filter fun mapping => mapping.element.id == element.id) =
            element.mappings := by
          rw [List.filter_eq_self]
          intro mapping mappingMember
          rw [(mem_mappings.mp mappingMember).1, beq_self_eq_true]
        have others : ((rest.flatMap Element.mappings).filter
            fun mapping => mapping.element.id == element.id) = [] := by
          rw [List.filter_eq_nil_iff]
          intro mapping mappingMember same
          obtain ⟨other, otherMember, own⟩ := List.mem_flatMap.mp mappingMember
          rw [(mem_mappings.mp own).1, beq_iff_eq] at same
          exact apart (same ▸ List.mem_map_of_mem otherMember)
        rw [own, others, List.append_nil]
      · have different : first.id ≠ element.id := by
          intro same
          exact apart (same ▸ List.mem_map_of_mem later)
        rw [filter_mappings_of_ne different, List.nil_append]
        exact ih distinctRest later

namespace SourceTree

def mappings (tree : SourceTree) (ids : List ElementId) : List Mapping :=
  (tree.elementsOf ids).flatMap Element.mappings

theorem mem_elementsOf {tree : SourceTree} {ids : List ElementId} {element : Element} :
    element ∈ tree.elementsOf ids ↔ element.id ∈ ids ∧ tree.get? element.id = some element := by
  rw [elementsOf, List.mem_filterMap]
  constructor
  · rintro ⟨id, member, found⟩
    have same := (get?_id found).1
    exact ⟨same ▸ member, same ▸ found⟩
  · rintro ⟨member, found⟩
    exact ⟨element.id, member, found⟩

theorem Lists.map_id {tree : SourceTree} {ids : List ElementId} (listed : tree.Lists ids) :
    (tree.elementsOf ids).map Element.id = ids := by
  have resolves := listed.resolved
  clear listed
  induction ids with
  | nil => rfl
  | cons id rest ih =>
      obtain ⟨element, found⟩ := resolves id (by simp)
      have same := (get?_id found).1
      simp only [elementsOf, List.filterMap_cons, found, List.map_cons, same]
      exact congrArg (id :: ·) (ih fun other member => resolves other (by simp [member]))

theorem Lists.keysOf_mappings {tree : SourceTree} {ids : List ElementId} (listed : tree.Lists ids)
    {element : Element} (member : element ∈ tree.elementsOf ids) :
    keysOf (tree.mappings ids) element.id = element.mappedKeys := by
  have distinct : ((tree.elementsOf ids).map Element.id).Nodup := by
    rw [listed.map_id]
    exact listed.distinct
  rw [keysOf, mappings, filter_flatMap_mappings distinct member, Element.mappings, List.map_map]
  exact congrArg List.eraseDups (List.map_id _)

theorem mem_mappedIds_mappings {tree : SourceTree} {ids : List ElementId} {id : ElementId} :
    id ∈ mappedIds (tree.mappings ids) ↔
      ∃ element ∈ tree.elementsOf ids, element.id = id ∧ element.mappedKeys ≠ [] := by
  rw [mappedIds, List.mem_eraseDups, List.mem_map]
  constructor
  · rintro ⟨mapping, member, isId⟩
    obtain ⟨element, listed, own⟩ := List.mem_flatMap.mp member
    obtain ⟨isElement, key⟩ := mem_mappings.mp own
    exact ⟨element, listed, isElement ▸ isId, List.ne_nil_of_mem key⟩
  · rintro ⟨element, listed, isId, mapped⟩
    obtain ⟨key, rest, keys⟩ := List.exists_cons_of_ne_nil mapped
    have own : { element, key } ∈ element.mappings := mem_mappings.mpr ⟨rfl, by simp [keys]⟩
    exact ⟨_, List.mem_flatMap.mpr ⟨element, listed, own⟩, isId⟩

end SourceTree

end FeatureAtlas
