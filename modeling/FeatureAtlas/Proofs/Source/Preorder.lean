import Mathlib.Data.List.Nodup
import FeatureAtlas.Proofs.Source.Layout

/-!
Outlines in preorder. An outline is told by its route, and the number of an element is the place of
the route of its outline among all routes.
-/

namespace FeatureAtlas

def Along {α : Type} (holds : Nat → α → Prop) (first : Nat) (entries : List α) : Prop :=
  ∀ offset entry, entries[offset]? = some entry → holds (first + offset) entry

namespace Along

variable {α : Type} {holds : Nat → α → Prop} {first : Nat} {entry : α} {entries others : List α}

theorem head (along : Along holds first (entry :: entries)) : holds first entry := along 0 entry rfl

theorem tail (along : Along holds first (entry :: entries)) : Along holds (first + 1) entries := by
  intro offset other found
  rw [Nat.add_assoc, Nat.add_comm 1]
  exact along (offset + 1) other found

theorem left (along : Along holds first (entries ++ others)) : Along holds first entries := by
  intro offset other found
  have bound := (List.getElem?_eq_some_iff.mp found).1
  exact along offset other ((List.getElem?_append_left bound).trans found)

theorem right (along : Along holds first (entries ++ others)) :
    Along holds (first + entries.length) others := by
  intro offset other found
  rw [Nat.add_assoc]
  apply along (entries.length + offset) other
  rwa [List.getElem?_append_right (Nat.le_add_right _ _), Nat.add_sub_cancel_left]

end Along

namespace Outline

/-- The way to an outline: which of the roots, then which child on every further level. -/
abbrev Route := List Nat

def reach? (outline : Outline) : Route → Option Outline
  | [] => some outline
  | index :: rest => outline.children[index]?.bind fun child => child.reach? rest

def find? (outlines : List Outline) : Route → Option Outline
  | [] => none
  | index :: rest => outlines[index]?.bind fun outline => outline.reach? rest

mutual

def preorder (route : Route) : Outline → List (Route × Outline)
  | { kind, name, qualifiedName, location, annotations, children } =>
      (route, { kind, name, qualifiedName, location, annotations, children }) ::
        preorderAll route 0 children

def preorderAll (above : Route) (index : Nat) : List Outline → List (Route × Outline)
  | [] => []
  | outline :: rest =>
      outline.preorder (above ++ [index]) ++ preorderAll above (index + 1) rest

end

def routes (outlines : List Outline) : List Route := (preorderAll [] 0 outlines).map Prod.fst

def number (outlines : List Outline) (route : Route) : ElementId := (routes outlines).idxOf route

def holder? (route : Route) : Option Route :=
  if route.length ≤ 1 then none else some route.dropLast

theorem holder?_snoc (above : Route) (index : Nat) :
    holder? (above ++ [index]) = if above = [] then none else some above := by
  rw [holder?, List.length_append, List.length_singleton, List.dropLast_concat]
  exact if_congr (by simp) rfl rfl

theorem preorder_eq (route : Route) (outline : Outline) :
    outline.preorder route = (route, outline) :: preorderAll route 0 outline.children := by
  cases outline
  rw [preorder]

mutual

theorem mem_preorder_iff (route : Route) : (outline : Outline) → (other : Route) →
    (found : Outline) →
    ((other, found) ∈ outline.preorder route ↔
      ∃ rest, other = route ++ rest ∧ outline.reach? rest = some found)
  | { kind, name, qualifiedName, location, annotations, children }, other, found => by
      rw [preorder_eq, List.mem_cons, mem_preorderAll_iff route 0 children]
      constructor
      · rintro (same | ⟨offset, rest, rfl, reached⟩)
        · obtain ⟨rfl, rfl⟩ := Prod.mk.inj same
          exact ⟨[], (List.append_nil _).symm, rfl⟩
        · exact ⟨offset :: rest, by rw [Nat.zero_add], reached⟩
      · rintro ⟨rest, rfl, reached⟩
        cases rest with
        | nil =>
            rw [reach?, Option.some.injEq] at reached
            exact .inl (by rw [List.append_nil, reached])
        | cons offset rest => exact .inr ⟨offset, rest, by rw [Nat.zero_add], reached⟩

theorem mem_preorderAll_iff (above : Route) (index : Nat) : (outlines : List Outline) →
    (other : Route) → (found : Outline) →
    ((other, found) ∈ preorderAll above index outlines ↔
      ∃ offset rest, other = above ++ (index + offset) :: rest ∧
        find? outlines (offset :: rest) = some found)
  | [], other, found => by simp [preorderAll, find?]
  | outline :: others, other, found => by
      rw [preorderAll, List.mem_append, mem_preorder_iff _ outline,
        mem_preorderAll_iff above (index + 1) others]
      constructor
      · rintro (⟨rest, rfl, reached⟩ | ⟨offset, rest, rfl, reached⟩)
        · exact ⟨0, rest, by simp, reached⟩
        · exact ⟨offset + 1, rest, by rw [Nat.add_assoc, Nat.add_comm 1], reached⟩
      · rintro ⟨offset, rest, rfl, reached⟩
        cases offset with
        | zero => exact .inl ⟨rest, by simp, reached⟩
        | succ offset =>
            exact .inr ⟨offset, rest, by rw [Nat.add_assoc, Nat.add_comm 1], reached⟩

end

theorem mem_sites_iff (outlines : List Outline) (route : Route) (found : Outline) :
    (route, found) ∈ preorderAll [] 0 outlines ↔ find? outlines route = some found := by
  rw [mem_preorderAll_iff]
  constructor
  · rintro ⟨offset, rest, rfl, reached⟩
    rwa [List.nil_append, Nat.zero_add]
  · intro reached
    cases route with
    | nil => cases reached
    | cons offset rest => exact ⟨offset, rest, by rw [List.nil_append, Nat.zero_add], reached⟩

theorem mem_routes_iff (outlines : List Outline) (route : Route) :
    route ∈ routes outlines ↔ (find? outlines route).isSome := by
  rw [routes, List.mem_map, Option.isSome_iff_exists]
  constructor
  · rintro ⟨⟨_, found⟩, member, rfl⟩
    exact ⟨found, (mem_sites_iff outlines _ found).mp member⟩
  · rintro ⟨found, reached⟩
    exact ⟨(route, found), (mem_sites_iff outlines route found).mpr reached, rfl⟩

mutual

theorem pairwise_preorder (route : Route) : (outline : Outline) →
    ((outline.preorder route).map Prod.fst).Pairwise (· < ·)
  | { kind, name, qualifiedName, location, annotations, children } => by
      rw [preorder_eq, List.map_cons, List.pairwise_cons]
      refine ⟨?_, pairwise_preorderAll route 0 children⟩
      intro other member
      obtain ⟨⟨_, found⟩, listed, rfl⟩ := List.mem_map.mp member
      obtain ⟨offset, rest, rfl, _⟩ := (mem_preorderAll_iff route 0 children _ _).mp listed
      have after : route ++ [] < route ++ (0 + offset) :: rest :=
        List.append_left_lt (List.nil_lt_cons _ _)
      simpa using after

theorem pairwise_preorderAll (above : Route) (index : Nat) : (outlines : List Outline) →
    ((preorderAll above index outlines).map Prod.fst).Pairwise (· < ·)
  | [] => by
      rw [preorderAll]
      exact .nil
  | outline :: others => by
      rw [preorderAll, List.map_append, List.pairwise_append]
      refine ⟨pairwise_preorder _ outline, pairwise_preorderAll above (index + 1) others, ?_⟩
      intro first firstMember second secondMember
      obtain ⟨⟨_, _⟩, firstListed, rfl⟩ := List.mem_map.mp firstMember
      obtain ⟨⟨_, _⟩, secondListed, rfl⟩ := List.mem_map.mp secondMember
      obtain ⟨rest, rfl, _⟩ := (mem_preorder_iff _ outline _ _).mp firstListed
      obtain ⟨offset, more, rfl, _⟩ := (mem_preorderAll_iff _ _ others _ _).mp secondListed
      rw [List.append_assoc]
      apply List.append_left_lt
      exact List.cons_lt_cons_iff.mpr (.inl (by omega))

end

theorem pairwise_routes (outlines : List Outline) : (routes outlines).Pairwise (· < ·) :=
  pairwise_preorderAll [] 0 outlines

theorem nodup_routes (outlines : List Outline) : (routes outlines).Nodup := by
  apply (pairwise_routes outlines).imp
  intro route other before same
  exact List.lt_irrefl route (same ▸ before)

/-! Levels are the lengths of routes. -/

theorem levels_eq (outline : Outline) : outline.levels = levelsAll outline.children + 1 := by
  cases outline
  rw [levels]

mutual

theorem levels_le_iff : (outline : Outline) → (bound : Nat) →
    (outline.levels ≤ bound ↔
      ∀ rest found, outline.reach? rest = some found → rest.length < bound)
  | { kind, name, qualifiedName, location, annotations, children }, 0 => by
      rw [levels_eq]
      constructor
      · intro fits
        omega
      · intro short
        exact absurd (short [] _ rfl) (Nat.lt_irrefl 0)
  | { kind, name, qualifiedName, location, annotations, children }, bound + 1 => by
      rw [levels_eq, Nat.add_le_add_iff_right, levelsAll_le_iff children bound]
      constructor
      · intro short rest found reached
        cases rest with
        | nil => exact Nat.succ_pos bound
        | cons index rest => exact Nat.lt_succ_of_le (short (index :: rest) found reached)
      · intro short route found reached
        cases route with
        | nil => cases reached
        | cons index rest => exact Nat.le_of_lt_succ (short (index :: rest) found reached)

theorem levelsAll_le_iff : (outlines : List Outline) → (bound : Nat) →
    (levelsAll outlines ≤ bound ↔
      ∀ route found, find? outlines route = some found → route.length ≤ bound)
  | [], bound => by
      rw [levelsAll]
      constructor
      · intro _ route found reached
        cases route <;> simp [find?] at reached
      · exact fun _ => Nat.zero_le bound
  | outline :: others, bound => by
      rw [levelsAll, Nat.max_le, levels_le_iff outline bound, levelsAll_le_iff others bound]
      constructor
      · rintro ⟨here, later⟩ route found reached
        match route with
        | 0 :: rest => exact here rest found reached
        | (index + 1) :: rest => exact later (index :: rest) found reached
      · intro short
        refine ⟨fun rest found reached => short (0 :: rest) found reached, ?_⟩
        intro route found reached
        cases route with
        | nil => cases reached
        | cons index rest => exact short ((index + 1) :: rest) found reached

end

mutual

theorem length_preorder (route : Route) : (outline : Outline) →
    (outline.preorder route).length = outline.count
  | { kind, name, qualifiedName, location, annotations, children } => by
      rw [preorder_eq, List.length_cons, length_preorderAll _ _ children, count]

theorem length_preorderAll (above : Route) (index : Nat) : (outlines : List Outline) →
    (preorderAll above index outlines).length = countAll outlines
  | [] => by rw [preorderAll, countAll, List.length_nil]
  | outline :: others => by
      rw [preorderAll, List.length_append, length_preorder _ outline,
        length_preorderAll _ _ others, countAll]

end

abbrev Numbered (number : Route → ElementId) (first : ElementId)
    (sites : List (Route × Outline)) : Prop :=
  Along (fun id site => number site.1 = id) first sites

theorem numbered_preorderAll (outlines : List Outline) :
    Numbered (number outlines) 0 (preorderAll [] 0 outlines) := by
  intro offset site found
  have listed : (routes outlines)[offset]? = some site.1 := by
    rw [routes, List.getElem?_map, found, Option.map_some]
  obtain ⟨bound, here⟩ := List.getElem?_eq_some_iff.mp listed
  rw [number, ← here, (nodup_routes outlines).idxOf_getElem offset bound, Nat.zero_add]

end Outline

namespace SourceTree

open Outline (Route Numbered)

/-- The element of an outline: it has what the outline says, and is nested as the outline is. -/
structure Shows (tree : SourceTree) (number : Route → ElementId) (element : Element)
    (site : Route × Outline) : Prop where
  id : element.id = number site.1
  kind : element.kind = site.2.kind
  name : element.name = site.2.name
  annotations : element.annotations = site.2.annotations
  location : element.location = site.2.location
  parent : element.parent = (Outline.holder? site.1).map number
  children : element.children =
    (List.range site.2.children.length).map fun index => number (site.1 ++ [index])
  qualifiedName : element.qualifiedName = site.2.qualifiedName.getD
    ((tree.parentOf? element).elim site.2.name
      fun parent => parent.qualifiedName ++ "." ++ site.2.name)

variable {tree : SourceTree} {number : Route → ElementId} {first : ElementId}

theorem idsFrom_eq {above : Route} {index : Nat} {outlines : List Outline}
    (numbered : Numbered number first (Outline.preorderAll above index outlines)) :
    idsFrom first outlines =
      (List.range outlines.length).map fun offset => number (above ++ [index + offset]) := by
  induction outlines generalizing index first with
  | nil => rfl
  | cons outline rest ih =>
      rw [Outline.preorderAll] at numbered
      have here := numbered.left
      rw [Outline.preorder_eq] at here
      have behind := numbered.right
      rw [Outline.length_preorder] at behind
      rw [idsFrom, ih behind, List.length_cons, List.range_succ_eq_map, List.map_cons,
        List.map_map, Nat.add_zero, ← here.head]
      congr 1
      apply List.map_congr_left
      intro offset _
      rw [Function.comp_apply, Nat.add_assoc, Nat.add_comm 1]

structure Hosts (tree : SourceTree) (number : Route → ElementId) (above : Option Route)
    (parent : Option Parent) : Prop where
  id : parent.map Parent.id = above.map number
  stored : ∀ holder, parent = some holder →
    ∃ element, tree.get? holder.id = some element ∧ element.qualifiedName = holder.qualifiedName

theorem shows_headOf {parent : Option Parent} {route : Route} {outline : Outline}
    (numbered : Numbered number first (outline.preorder route))
    (hosts : tree.Hosts number (Outline.holder? route) parent) :
    tree.Shows number (headOf parent first outline) (route, outline) := by
  rw [Outline.preorder_eq] at numbered
  refine ⟨numbered.head.symm, rfl, rfl, rfl, rfl, hosts.id, ?_, ?_⟩
  · refine (idsFrom_eq numbered.tail).trans ?_
    simp only [Nat.zero_add]
  · have isParent : tree.parentOf? (headOf parent first outline) =
        parent.bind fun holder => tree.get? holder.id := by
      cases parent <;> rfl
    rw [isParent]
    cases explicit : outline.qualifiedName with
    | some name => simp [headOf, qualify, explicit]
    | none =>
        cases isHolder : parent with
        | none => simp [headOf, qualify, explicit]
        | some holder =>
            obtain ⟨element, found, same⟩ := hosts.stored holder isHolder
            simp [headOf, qualify, explicit, found, same]

mutual

theorem shows_layOut {parent : Option Parent} {first : ElementId} {route : Route}
    (below : route ≠ []) : (outline : Outline) →
    Numbered number first (outline.preorder route) →
    Along (fun id element => tree.get? id = some element) first (layOut parent first outline) →
    tree.Hosts number (Outline.holder? route) parent →
    List.Forall₂ (tree.Shows number) (layOut parent first outline) (outline.preorder route)
  | { kind, name, qualifiedName, location, annotations, children }, numbered, stored, hosts => by
      have head := shows_headOf numbered hosts
      rw [layOut_eq] at stored ⊢
      rw [Outline.preorder_eq] at numbered ⊢
      refine .cons head (shows_layOutAll children numbered.tail stored.tail fun index => ?_)
      rw [Outline.holder?_snoc, if_neg below]
      refine ⟨congrArg some numbered.head.symm, ?_⟩
      rintro holder ⟨⟩
      exact ⟨_, stored.head, rfl⟩

theorem shows_layOutAll {parent : Option Parent} {first : ElementId} {above : Route}
    {index : Nat} : (outlines : List Outline) →
    Numbered number first (Outline.preorderAll above index outlines) →
    Along (fun id element => tree.get? id = some element) first (layOutAll parent first outlines) →
    (∀ index, tree.Hosts number (Outline.holder? (above ++ [index])) parent) →
    List.Forall₂ (tree.Shows number) (layOutAll parent first outlines)
      (Outline.preorderAll above index outlines)
  | [], _, _, _ => by
      rw [layOutAll, Outline.preorderAll]
      exact .nil
  | outline :: rest, numbered, stored, hosts => by
      rw [Outline.preorderAll] at numbered ⊢
      rw [layOutAll] at stored ⊢
      have behind := numbered.right
      have later := stored.right
      rw [Outline.length_preorder] at behind
      rw [length_layOut] at later
      apply List.rel_append
      · exact shows_layOut (by simp) outline numbered.left stored.left (hosts index)
      · exact shows_layOutAll rest behind later hosts

end

/-- A tree that has the elements of outlines, each in the slot of its number, in preorder. -/
structure LaidOut (tree : SourceTree) (outlines : List Outline) : Prop where
  size : tree.size = (Outline.routes outlines).length
  ids : tree.elements.map Element.id = List.range tree.size
  preorder : (Outline.routes outlines).Pairwise (· < ·)
  reached : ∀ route, route ∈ Outline.routes outlines ↔ (Outline.find? outlines route).isSome
  shows : ∀ route outline, Outline.find? outlines route = some outline →
    ∃ element, tree.get? (Outline.number outlines route) = some element ∧
      tree.Shows (Outline.number outlines) element (route, outline)
  roots : tree.roots =
    (List.range outlines.length).map fun index => Outline.number outlines [index]

theorem ofOutlines_stored (outlines : List Outline) :
    Along (fun id element => (ofOutlines outlines).get? id = some element) 0
      (layOutAll none 0 outlines) := by
  intro offset element found
  rw [get?_ofOutlines, Nat.zero_add, found]

theorem ofOutlines_shows (outlines : List Outline) :
    List.Forall₂ ((ofOutlines outlines).Shows (Outline.number outlines))
      (layOutAll none 0 outlines) (Outline.preorderAll [] 0 outlines) := by
  apply shows_layOutAll outlines (Outline.numbered_preorderAll outlines)
    (ofOutlines_stored outlines)
  intro index
  rw [Outline.holder?_snoc, if_pos rfl]
  exact ⟨rfl, by simp⟩

theorem ofOutlines_laidOut (outlines : List Outline) : (ofOutlines outlines).LaidOut outlines := by
  have length : (Outline.routes outlines).length = Outline.countAll outlines := by
    rw [Outline.routes, List.length_map, Outline.length_preorderAll]
  refine ⟨(size_ofOutlines outlines).trans length.symm, ?_, Outline.pairwise_routes outlines,
    Outline.mem_routes_iff outlines, ?_, ?_⟩
  · rw [size_ofOutlines, List.range_eq_range', elements_ofOutlines]
    exact map_id_layOutAll none 0 outlines
  · intro route outline reached
    obtain ⟨slot, bound, isSite⟩ :=
      List.mem_iff_getElem.mp ((Outline.mem_sites_iff outlines route outline).mpr reached)
    have shown := ofOutlines_shows outlines
    have elementBound := shown.length_eq ▸ bound
    have place := Outline.numbered_preorderAll outlines slot _ (List.getElem?_eq_getElem bound)
    have stored := ofOutlines_stored outlines slot _ (List.getElem?_eq_getElem elementBound)
    have shows := shown.get elementBound bound
    simp only [List.get_eq_getElem, isSite] at place shows
    rw [← place] at stored
    exact ⟨_, stored, shows⟩
  · have roots := idsFrom_eq (Outline.numbered_preorderAll outlines)
    simp only [List.nil_append, Nat.zero_add] at roots
    rw [roots_ofOutlines]
    exact roots

end SourceTree

end FeatureAtlas
