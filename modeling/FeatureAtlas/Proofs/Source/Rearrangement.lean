import Mathlib.Data.List.Pairwise
import FeatureAtlas.Source.Outline

/-!
Documents that are written differently. In an object, members may change places at any depth, and an
object that is read as a record may have further members that are none of its fields. Whatever goes
through such a value member by member comes to the same.
-/

namespace FeatureAtlas

/-- What a value stands for in a written document. -/
inductive Role where
  | document
  | outlines
  | outline
  | location
  | annotations
  | tagged
  | value
deriving DecidableEq, Repr

def Json.isLeaf : Json → Bool
  | .null | .bool _ | .string (some _) => true
  | _ => false

namespace Annotation

def isTag (member : Option String × Json) : Bool := member.1 == some "annotation"

def tags (members : List (Option String × Json)) : List Json := (members.filter isTag).map Prod.snd

def textAlone : List Json → Option String
  | [.string text] => text
  | _ => none

def tag? (members : List (Option String × Json)) : Option String := textAlone (tags members)

def declared : Option String → List String
  | some "feature" => FeatureDeclaration.format.fields.map Field.name
  | some "mapping" => MappingDeclaration.format.fields.map Field.name
  | _ => []

end Annotation

namespace Role

def fields : Role → List String
  | document => SourceDocument.format.fields.map Field.name
  | outline => (Outline.format fun _ _ _ => .ok []).fields.map Field.name
  | location => Location.format.fields.map Field.name
  | _ => []

def member : Role → String → Role
  | document, "roots" => outlines
  | outline, "location" => location
  | outline, "metadata" => annotations
  | outline, "children" => outlines
  | _, _ => value

def item : Role → Nat → Role
  | outlines, _ => outline
  | annotations, _ => tagged
  | role, index => ((role.fields[index]?).map role.member).getD value

open Annotation (declared tag?)

/-- Whether an object takes no notice of members with a name. -/
def Ignores (role : Role) (members : List (Option String × Json)) (name : String) : Prop :=
  match role with
  | document | outline | location => name ∉ role.fields
  | tagged =>
      name ≠ "annotation" ∧ name ∉ declared (tag? members)
  | outlines | annotations | value => False

end Role

mutual

/-- A value that says the same to whatever reads it in that role. -/
inductive Rearranged : Role → Json → Json → Prop
  | same (role : Role) (value : Json) : Rearranged role value value
  | array {role : Role} {items others : List Json} :
      RearrangedItems role 0 items others → Rearranged role (.array items) (.array others)
  | object {role : Role} {members others : List (Option String × Json)} :
      RearrangedMembers role (role.Ignores members) members others →
        Rearranged role (.object members) (.object others)

inductive RearrangedItems : Role → Nat → List Json → List Json → Prop
  | nil (role : Role) (index : Nat) : RearrangedItems role index [] []
  | cons {role : Role} {index : Nat} {item other : Json} {items others : List Json} :
      Rearranged (role.item index) item other →
        RearrangedItems role (index + 1) items others →
          RearrangedItems role index (item :: items) (other :: others)

/-- Members that are written differently, change places, and have others put among them that are
ignored. -/
inductive RearrangedMembers : Role → (String → Prop) → List (Option String × Json) →
    List (Option String × Json) → Prop
  | nil (role : Role) (ignored : String → Prop) : RearrangedMembers role ignored [] []
  | cons {role : Role} {ignored : String → Prop} {value other : Json}
      {members others : List (Option String × Json)} (name : Option String) :
      Rearranged (name.elim .value role.member) value other →
        RearrangedMembers role ignored members others →
          RearrangedMembers role ignored ((name, value) :: members) ((name, other) :: others)
  | swap {role : Role} {ignored : String → Prop} (first second : Option String × Json)
      (members : List (Option String × Json)) :
      RearrangedMembers role ignored (first :: second :: members) (second :: first :: members)
  | insert {role : Role} {ignored : String → Prop} {name : String} {value : Json}
      (members : List (Option String × Json)) :
      ignored name → value.isLeaf = true →
        RearrangedMembers role ignored members ((some name, value) :: members)
  | trans {role : Role} {ignored : String → Prop}
      {members between others : List (Option String × Json)} :
      RearrangedMembers role ignored members between →
        RearrangedMembers role ignored between others →
          RearrangedMembers role ignored members others

end

namespace RearrangedMembers

variable {role : Role} {ignored : String → Prop} {members others : List (Option String × Json)}

theorem refl (role : Role) (ignored : String → Prop) (members : List (Option String × Json)) :
    RearrangedMembers role ignored members members := by
  induction members with
  | nil => exact .nil role ignored
  | cons member rest ih => exact .cons member.1 (.same _ _) ih

theorem of_perm (perm : members.Perm others) : RearrangedMembers role ignored members others := by
  induction perm with
  | nil => exact .nil role ignored
  | cons member _ ih => exact .cons member.1 (.same _ _) ih
  | swap first second members => exact .swap second first members
  | trans _ _ first second => exact first.trans second

theorem length_eq (nothing : ∀ name, ¬ignored name) :
    {members others : List (Option String × Json)} →
      RearrangedMembers role ignored members others → members.length = others.length
  | _, _, .nil _ _ => rfl
  | _, _, .cons _ _ rest => by
      rw [List.length_cons, List.length_cons, rest.length_eq nothing]
  | _, _, .swap _ _ _ => rfl
  | _, _, .insert _ here _ => absurd here (nothing _)
  | _, _, .trans first second => (first.length_eq nothing).trans (second.length_eq nothing)

end RearrangedMembers

/-! What can be skipped or held. -/

theorem Json.holdableItems_eq (levels : Nat) (items : List Json) :
    holdableItems levels items = items.all (·.holdable levels) := by
  induction items with
  | nil => rfl
  | cons item rest ih => rw [holdableItems, List.all_cons, ih]

theorem Json.holdableMembers_eq (levels : Nat) (members : List (Option String × Json)) :
    holdableMembers levels members =
      members.all fun member => member.1.isSome && member.2.holdable levels := by
  induction members with
  | nil => rfl
  | cons member rest ih => rw [holdableMembers, List.all_cons, ih]

theorem Json.readable_of_isLeaf {value : Json} (leaf : value.isLeaf = true) :
    value.readable = true := by
  unfold isLeaf at leaf
  split at leaf <;> first | rfl | cases leaf

theorem Json.holdable_of_isLeaf {value : Json} (leaf : value.isLeaf = true) (levels : Nat) :
    value.holdable levels = true := by
  unfold isLeaf at leaf
  split at leaf <;> first | rfl | cases leaf

mutual

theorem Rearranged.readable_eq : {role : Role} → {value other : Json} →
    Rearranged role value other → value.readable = other.readable
  | _, _, _, .same _ _ => rfl
  | _, _, _, .array items => by rw [Json.readable, Json.readable, items.readable_eq]
  | _, _, _, .object members => by rw [Json.readable, Json.readable, members.readable_eq]

theorem RearrangedItems.readable_eq : {role : Role} → {index : Nat} →
    {items others : List Json} → RearrangedItems role index items others →
      Json.readableItems items = Json.readableItems others
  | _, _, _, _, .nil _ _ => rfl
  | _, _, _, _, .cons item items => by
      rw [Json.readableItems, Json.readableItems, item.readable_eq, items.readable_eq]

theorem RearrangedMembers.readable_eq : {role : Role} → {ignored : String → Prop} →
    {members others : List (Option String × Json)} →
      RearrangedMembers role ignored members others →
        Json.readableMembers members = Json.readableMembers others
  | _, _, _, _, .nil _ _ => rfl
  | _, _, _, _, .cons _ value members => by
      rw [Json.readableMembers, Json.readableMembers, value.readable_eq, members.readable_eq]
  | _, _, _, _, .swap _ _ _ => by
      simp only [Json.readableMembers]
      exact Bool.and_left_comm _ _ _
  | _, _, _, _, .insert _ _ leaf => by
      rw [Json.readableMembers, Json.readable_of_isLeaf leaf, Bool.true_and]
  | _, _, _, _, .trans first second => first.readable_eq.trans second.readable_eq

end

mutual

theorem Rearranged.holdable_eq : {role : Role} → {value other : Json} →
    Rearranged role value other → ∀ levels, value.holdable levels = other.holdable levels
  | _, _, _, .same _ _ => fun _ => rfl
  | _, _, _, .array items => fun levels => by
      rw [Json.holdable, Json.holdable, items.holdable_eq]
  | _, _, _, .object members => fun levels => by
      rw [Json.holdable, Json.holdable, members.holdable_eq]

theorem RearrangedItems.holdable_eq : {role : Role} → {index : Nat} →
    {items others : List Json} → RearrangedItems role index items others →
      ∀ levels, Json.holdableItems levels items = Json.holdableItems levels others
  | _, _, _, _, .nil _ _ => fun _ => rfl
  | _, _, _, _, .cons item items => fun levels => by
      rw [Json.holdableItems, Json.holdableItems, item.holdable_eq, items.holdable_eq]

theorem RearrangedMembers.holdable_eq : {role : Role} → {ignored : String → Prop} →
    {members others : List (Option String × Json)} →
      RearrangedMembers role ignored members others →
        ∀ levels, Json.holdableMembers levels members = Json.holdableMembers levels others
  | _, _, _, _, .nil _ _ => fun _ => rfl
  | _, _, _, _, .cons _ value members => fun levels => by
      rw [Json.holdableMembers, Json.holdableMembers, value.holdable_eq, members.holdable_eq]
  | _, _, _, _, .swap _ _ _ => fun levels => by
      simp only [Json.holdableMembers]
      exact Bool.and_left_comm _ _ _
  | _, _, _, _, .insert _ _ leaf => fun levels => by
      rw [Json.holdableMembers, Json.holdable_of_isLeaf leaf]
      rfl
  | _, _, _, _, .trans first second => fun levels =>
      (first.holdable_eq levels).trans (second.holdable_eq levels)

end

end FeatureAtlas
