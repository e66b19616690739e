import Mathlib.Data.Nat.Init
import FeatureAtlas.Proofs.Json.Reading
import FeatureAtlas.Proofs.Number.Range
import FeatureAtlas.Proofs.Source.MemberOrder

/-!
Source documents that are written differently are decoded alike. An annotation is taken apart into
its tag and its other members before anything of it is decoded, so its tag may stand anywhere, and
an annotation with an unknown tag is skipped whatever it holds.
-/

namespace FeatureAtlas

open Decoder

/-! Records. -/

theorem Location.orderless : Location.format.Orderless .location where
  commuting := by
    simp only [Location.format, List.pairwise_cons, List.forall_mem_cons, List.not_mem_nil,
      false_imp_iff, implies_true, List.Pairwise.nil, and_true]
    and_intros <;> exact Store.commute_put fun _ _ _ => rfl
  fields := by
    simp only [Location.format, List.forall_mem_cons]
    exact ⟨Store.orderless_put (orderless_text _), Store.orderless_put (orderless_narrow _),
      Store.orderless_put (orderless_narrow _), Store.orderless_put (orderless_narrow _),
      Store.orderless_put (orderless_narrow _), List.forall_mem_nil _⟩

theorem FeatureDeclaration.orderless : FeatureDeclaration.format.Orderless .tagged where
  commuting := by
    simp only [FeatureDeclaration.format, List.pairwise_cons, List.forall_mem_cons,
      List.not_mem_nil, false_imp_iff, implies_true, List.Pairwise.nil, and_true]
    and_intros <;> exact Store.commute_put fun _ _ _ => rfl
  fields := by
    simp only [FeatureDeclaration.format, List.forall_mem_cons]
    exact ⟨Store.orderless_put (orderless_text _), Store.orderless_put (orderless_text _),
      Store.orderless_put (orderless_variant _), List.forall_mem_nil _⟩

theorem MappingDeclaration.orderless : MappingDeclaration.format.Orderless .tagged where
  commuting := by
    simp only [MappingDeclaration.format, List.pairwise_cons, List.forall_mem_cons,
      List.not_mem_nil, false_imp_iff, implies_true, List.Pairwise.nil, and_true]
    exact Store.commute_put fun _ _ _ => rfl
  fields := by
    simp only [MappingDeclaration.format, List.forall_mem_cons]
    exact ⟨Store.orderless_put (orderless_text _), Store.orderless_put (orderless_variant _),
      List.forall_mem_nil _⟩

/-! Annotations. -/

namespace Annotation

variable {ignored : String → Prop} {members others : List (Option String × Json)} {levels : Nat}

def untagged (members : List (Option String × Json)) : List (Option String × Json) :=
  members.filter fun member => !isTag member

def canHold (levels : Nat) (member : Option String × Json) : Bool :=
  member.1.isSome && (isTag member || member.2.holdable levels)

section

variable {name : String} {value : Json} {rest : List (Option String × Json)}

theorem isTag_other (other : name ≠ "annotation") (value : Json) :
    isTag (some name, value) = false := by
  simpa [isTag] using other

theorem tags_cons (member : Option String × Json) (rest : List (Option String × Json)) :
    tags (member :: rest) = if isTag member then member.2 :: tags rest else tags rest := by
  rw [tags, List.filter_cons]
  split
  · rfl
  · rfl

theorem tags_tag (value : Json) : tags ((some "annotation", value) :: rest) = value :: tags rest :=
  rfl

theorem tags_other (other : name ≠ "annotation") (value : Json) :
    tags ((some name, value) :: rest) = tags rest := by
  rw [tags_cons, isTag_other other]
  rfl

theorem untagged_tag (value : Json) :
    untagged ((some "annotation", value) :: rest) = untagged rest :=
  rfl

theorem untagged_other (other : name ≠ "annotation") (value : Json) :
    untagged ((some name, value) :: rest) = (some name, value) :: untagged rest := by
  rw [untagged, List.filter_cons, isTag_other other, untagged]
  rfl

theorem canHold_tag (value : Json) : canHold levels (some "annotation", value) = true := rfl

theorem canHold_other (other : name ≠ "annotation") (value : Json) :
    canHold levels (some name, value) = value.holdable levels := by
  rw [canHold, isTag_other other]
  rfl

theorem splitTag_other (other : name ≠ "annotation") (tag : Option String)
    (held : List (Option String × Json)) :
    splitTag levels ((some name, value) :: rest) tag held =
      if value.holdable levels then splitTag levels rest tag ((some name, value) :: held)
      else .error .malformed := by
  rw [splitTag]
  exact other

theorem splitTag_of_tagged (tag : String) (members held : List (Option String × Json)) :
    (splitTag levels members (some tag) held).toOption =
      if members.all (canHold levels) && (tags members).isEmpty then
        some (some tag, held.reverse ++ untagged members)
      else none := by
  induction members generalizing held with
  | nil =>
      rw [splitTag, untagged, List.filter_nil, List.append_nil]
      rfl
  | cons member rest ih =>
      obtain ⟨_ | name, value⟩ := member
      · rfl
      · by_cases here : name = "annotation"
        · subst here
          rw [tags_tag, List.isEmpty_cons, Bool.and_false]
          rfl
        · rw [splitTag_other here, List.all_cons, canHold_other here, tags_other here,
            untagged_other here]
          by_cases holdable : value.holdable levels = true
          · rw [if_pos holdable, holdable, Bool.true_and, ih, List.reverse_cons,
              List.append_assoc, List.singleton_append]
          · have refused : value.holdable levels = false := by simpa using holdable
            rw [if_neg holdable, refused]
            rfl

theorem splitTag_of_untagged (members held : List (Option String × Json)) :
    (splitTag levels members none held).toOption =
      if members.all (canHold levels) then
        match tags members with
        | [] => some (none, held.reverse ++ untagged members)
        | [.string (some tag)] => some (some tag, held.reverse ++ untagged members)
        | _ => none
      else none := by
  induction members generalizing held with
  | nil =>
      rw [splitTag, untagged, List.filter_nil, List.append_nil]
      rfl
  | cons member rest ih =>
      obtain ⟨_ | name, value⟩ := member
      · rfl
      · by_cases here : name = "annotation"
        · subst here
          rw [List.all_cons, canHold_tag, Bool.true_and, tags_tag, untagged_tag]
          rcases value with _ | _ | _ | (_ | tag) | _ | _ | _
          case string.some =>
            rw [splitTag, splitTag_of_tagged]
            cases tags rest with
            | nil => simp only [List.isEmpty_nil, Bool.and_true]
            | cons => simp
          all_goals exact (ite_self none).symm
        · rw [splitTag_other here, List.all_cons, canHold_other here, tags_other here,
            untagged_other here]
          by_cases holdable : value.holdable levels = true
          · rw [if_pos holdable, holdable, Bool.true_and, ih, List.reverse_cons,
              List.append_assoc, List.singleton_append]
          · have refused : value.holdable levels = false := by simpa using holdable
            rw [if_neg holdable, refused]
            rfl

end

theorem toOption_decoder_object (source : ValueSource) (levels : Nat)
    (members : List (Option String × Json)) :
    (decoder source (levels + 1) (.object members)).toOption =
      if members.all (canHold levels) then
        (tag? members).bind fun tag => (ofHeldMembers tag levels (untagged members)).toOption
      else none := by
  rw [decoder, toOption_bind, splitTag_of_untagged]
  split
  · rw [tag?]
    rcases tags members with _ | ⟨first, _ | ⟨second, more⟩⟩
    · rfl
    · rcases first with _ | _ | _ | (_ | tag) | _ | _ | _ <;> rfl
    · rcases first with _ | _ | _ | (_ | tag) | _ | _ | _ <;> rfl
  · rfl

/-! Rearranged annotations. -/

theorem canHold_rearranged : {role : Role} → {ignored : String → Prop} →
    {members others : List (Option String × Json)} →
      RearrangedMembers role ignored members others →
        (∀ name, ignored name → name ≠ "annotation") →
          members.all (canHold levels) = others.all (canHold levels)
  | _, _, _, _, .nil _ _, _ => rfl
  | _, _, (_, value) :: _, (_, changed) :: _, .cons name here rest, unknown => by
      have same : canHold levels (name, value) = canHold levels (name, changed) := by
        rw [canHold, canHold, isTag, isTag, here.holdable_eq]
      rw [List.all_cons, List.all_cons, same, canHold_rearranged rest unknown]
  | _, _, _, _, .swap _ _ _, _ => by
      simp only [List.all_cons]
      exact Bool.and_left_comm _ _ _
  | _, _, _, (some name, value) :: _, .insert _ here leaf, unknown => by
      rw [List.all_cons, canHold_other (unknown name here), Json.holdable_of_isLeaf leaf,
        Bool.true_and]
  | _, _, _, _, .trans first second, unknown =>
      (canHold_rearranged first unknown).trans (canHold_rearranged second unknown)

theorem untagged_rearranged : {role : Role} → {ignored : String → Prop} →
    {members others : List (Option String × Json)} →
      RearrangedMembers role ignored members others →
        (∀ name, ignored name → name ≠ "annotation") →
          RearrangedMembers role ignored (untagged members) (untagged others)
  | _, _, _, _, .nil role ignored, _ => .nil role ignored
  | _, _, (_, value) :: _, (_, changed) :: _, .cons name here rest, unknown => by
      have later := untagged_rearranged rest unknown
      have same : isTag (name, value) = isTag (name, changed) := rfl
      rw [untagged, untagged, List.filter_cons, List.filter_cons, same]
      split
      · exact .cons name here later
      · exact later
  | _, _, _, _, .swap first second members, _ => by
      simp only [untagged, List.filter_cons]
      split
      · split
        · exact .swap first second _
        · exact .refl _ _ _
      · exact .refl _ _ _
  | _, _, _, (some name, value) :: _, .insert _ here leaf, unknown => by
      rw [untagged_other (unknown name here)]
      exact .insert _ here leaf
  | _, _, _, _, .trans first second, unknown =>
      (untagged_rearranged first unknown).trans (untagged_rearranged second unknown)

theorem length_tags_rearranged : {role : Role} → {ignored : String → Prop} →
    {members others : List (Option String × Json)} →
      RearrangedMembers role ignored members others →
        (∀ name, ignored name → name ≠ "annotation") →
          (tags members).length = (tags others).length
  | _, _, _, _, .nil _ _, _ => rfl
  | _, _, (_, value) :: _, (_, changed) :: _, .cons name _ rest, unknown => by
      have later := length_tags_rearranged rest unknown
      have same : isTag (name, value) = isTag (name, changed) := rfl
      rw [tags_cons, tags_cons, same]
      split
      · rw [List.length_cons, List.length_cons, later]
      · exact later
  | _, _, _, _, .swap first second members, _ => by
      simp only [tags_cons]
      split
      · split <;> rfl
      · rfl
  | _, _, _, (some name, value) :: _, .insert _ here _, unknown => by
      rw [tags_other (unknown name here)]
  | _, _, _, _, .trans first second, unknown =>
      (length_tags_rearranged first unknown).trans (length_tags_rearranged second unknown)

theorem textAlone_of_length {values : List Json} (several : values.length ≠ 1) :
    textAlone values = none := by
  rw [textAlone]
  rintro text rfl
  exact several rfl

theorem tag?_rearranged : {role : Role} → {ignored : String → Prop} →
    {members others : List (Option String × Json)} →
      RearrangedMembers role ignored members others →
        (∀ name, ignored name → name ≠ "annotation") → tag? members = tag? others
  | _, _, _, _, .nil _ _, _ => rfl
  | _, _, (_, value) :: members, (_, changed) :: others, .cons name here rest, unknown => by
      have later := tag?_rearranged rest unknown
      have length := length_tags_rearranged rest unknown
      have same : isTag (name, value) = isTag (name, changed) := rfl
      rw [tag?, tag?, tags_cons, tags_cons, same]
      split
      · by_cases single : (tags members).length = 0
        · have none : tags members = [] := List.length_eq_zero_iff.mp single
          have otherNone : tags others = [] := List.length_eq_zero_iff.mp (length ▸ single)
          rw [none, otherNone]
          cases here <;> rfl
        · rw [textAlone_of_length (by simpa using single),
            textAlone_of_length (by simpa [← length] using single)]
      · exact later
  | _, _, _, _, .swap first second members, _ => by
      rw [tag?, tag?]
      simp only [tags_cons]
      split
      · split
        · rw [textAlone_of_length (by simp), textAlone_of_length (by simp)]
        · rfl
      · rfl
  | _, _, _, (some name, value) :: _, .insert _ here _, unknown => by
      rw [tag?, tag?, tags_other (unknown name here)]
  | _, _, _, _, .trans first second, unknown =>
      (tag?_rearranged first unknown).trans (tag?_rearranged second unknown)

theorem ofHeldMembers_other {tag : String} (noFeature : tag ≠ "feature")
    (noMapping : tag ≠ "mapping") (levels : Nat) (members : List (Option String × Json)) :
    ofHeldMembers tag levels members = .ok other := by
  unfold ofHeldMembers
  split
  · exact absurd rfl noFeature
  · exact absurd rfl noMapping
  · rfl

theorem toOption_ofHeldMembers {tag : String}
    (rearranged : RearrangedMembers .tagged ignored members others)
    (unknown : ∀ name, ignored name → name ∉ declared (some tag)) :
    (ofHeldMembers tag levels members).toOption = (ofHeldMembers tag levels others).toOption := by
  by_cases feature : tag = "feature"
  · subst feature
    rw [ofHeldMembers, ofHeldMembers, toOption_map, toOption_map,
      FeatureDeclaration.orderless.ofMembers unknown rearranged]
  · by_cases mapping : tag = "mapping"
    · subst mapping
      rw [ofHeldMembers, ofHeldMembers, toOption_map, toOption_map,
        MappingDeclaration.orderless.ofMembers unknown rearranged]
    · rw [ofHeldMembers_other feature mapping, ofHeldMembers_other feature mapping]

theorem ofHeldItems_other {tag : String} (noFeature : tag ≠ "feature") (noMapping : tag ≠ "mapping")
    (levels : Nat) (items : List Json) :
    ofHeldItems tag levels items = if items.isEmpty then .ok other else .error .malformed := by
  unfold ofHeldItems
  split
  · exact absurd rfl noFeature
  · exact absurd rfl noMapping
  · rfl
  · rfl

theorem toOption_storeHeld {α : Type} {format : RecordFormat α} {index : Nat}
    {items others : List Json} (orderless : format.Orderless .tagged)
    (rearranged : RearrangedItems .tagged index items others) (record : α) :
    (RecordFormat.storeItems .held levels format.fields items record).toOption =
      (RecordFormat.storeItems .held levels format.fields others record).toOption :=
  RecordFormat.toOption_storeItems rearranged format.fields
    (fun _ field found => orderless.fields field (List.mem_of_getElem? found)) record

theorem toOption_ofHeldItems {tag : String} {index : Nat} {items others : List Json}
    (rearranged : RearrangedItems .tagged index items others) :
    (ofHeldItems tag levels items).toOption = (ofHeldItems tag levels others).toOption := by
  by_cases feature : tag = "feature"
  · subst feature
    rw [ofHeldItems, ofHeldItems, toOption_map, toOption_map,
      toOption_storeHeld FeatureDeclaration.orderless rearranged]
  · by_cases mapping : tag = "mapping"
    · subst mapping
      rw [ofHeldItems, ofHeldItems, toOption_map, toOption_map,
        toOption_storeHeld MappingDeclaration.orderless rearranged]
    · rw [ofHeldItems_other feature mapping, ofHeldItems_other feature mapping]
      cases rearranged <;> rfl

theorem toOption_decoder_array {items others : List Json}
    (rearranged : RearrangedItems .tagged 0 items others) (source : ValueSource) :
    (decoder source (levels + 1) (.array items)).toOption =
      (decoder source (levels + 1) (.array others)).toOption := by
  cases rearranged with
  | nil => rfl
  | cons here later =>
      rename_i tag changed rest others
      cases here with
      | array => rfl
      | object => rfl
      | same =>
          rcases tag with _ | _ | _ | (_ | tag) | _ | _ | _
          case string.some =>
            rw [decoder, decoder, ← Json.holdableItems_eq, ← Json.holdableItems_eq,
              later.holdable_eq]
            split
            · exact toOption_ofHeldItems later
            · rfl
          all_goals rfl

theorem orderless : Annotation.decoder.Orderless .tagged := by
  intro source levels value other rearranged
  cases levels with
  | zero => rfl
  | succ levels =>
      cases rearranged with
      | same => rfl
      | array items => exact toOption_decoder_array items source
      | object rearranged =>
          rename_i members others
          have unknown (name : String) (ignored : Role.tagged.Ignores members name) :
              name ≠ "annotation" := ignored.1
          rw [toOption_decoder_object, toOption_decoder_object,
            canHold_rearranged rearranged unknown, ← tag?_rearranged rearranged unknown]
          split
          · cases tag : tag? members with
            | none => rfl
            | some tag =>
                refine toOption_ofHeldMembers (untagged_rearranged rearranged unknown) ?_
                intro name ignored
                exact tag ▸ ignored.2
          · rfl

end Annotation

/-! Annotations of others. -/

namespace Json

/-- A value of texts, integers of 64 bits and the like, with so many levels of nesting at most. -/
inductive Modest : Nat → Json → Prop
  | null (levels : Nat) : Modest levels .null
  | bool (levels : Nat) (value : Bool) : Modest levels (.bool value)
  | text (levels : Nat) (value : String) : Modest levels (.text value)
  | integer (levels : Nat) (negative : Bool) {whole : Nat} : whole < ScaledWord.bound →
      Modest levels (.number { negative, whole, fraction := [], exponent := none })
  | array {levels : Nat} {items : List Json} :
      (∀ item ∈ items, Modest levels item) → Modest (levels + 1) (.array items)
  | object {levels : Nat} {members : List (Option String × Json)} :
      (∀ member ∈ members, member.1.isSome) → (∀ member ∈ members, Modest levels member.2) →
        Modest (levels + 1) (.object members)

theorem Modest.holdable {levels : Nat} {value : Json} (modest : value.Modest levels) :
    value.holdable levels = true := by
  induction modest with
  | null | bool | text => rfl
  | integer levels negative bounded => exact Numeral.fitsDouble_of_lt bounded
  | array _ ih =>
      simp only [Json.holdable, holdableItems_eq, Bool.and_eq_true, List.all_eq_true]
      exact ⟨rfl, ih⟩
  | object named _ ih =>
      simp only [Json.holdable, holdableMembers_eq, List.all_eq_true, Bool.and_eq_true]
      exact ⟨rfl, fun member inside => ⟨named member inside, ih member inside⟩⟩

end Json

namespace Annotation

theorem tags_eq_nil {members : List (Option String × Json)}
    (others : ∀ member ∈ members, isTag member = false) : tags members = [] := by
  rw [tags, List.filter_eq_nil_iff.mpr fun member inside => by simp [others member inside]]
  rfl

theorem tags_between {front back : List (Option String × Json)} (value : Json)
    (others : ∀ member ∈ front ++ back, isTag member = false) :
    tags (front ++ (some "annotation", value) :: back) = [value] := by
  rw [List.forall_mem_append] at others
  rw [tags, List.filter_append, List.map_append, ← tags, ← tags, tags_eq_nil others.1, tags_tag,
    tags_eq_nil others.2, List.nil_append]

theorem decoder_other {tag : String} (noFeature : tag ≠ "feature") (noMapping : tag ≠ "mapping")
    {levels : Nat} {front back : List (Option String × Json)}
    (rest : ∀ member ∈ front ++ back,
      (∃ name, member.1 = some name ∧ name ≠ "annotation") ∧ member.2.Modest levels)
    (source : ValueSource) :
    decoder source (levels + 1) (.object (front ++ (some "annotation", .text tag) :: back)) =
      .ok other := by
  have besides : ∀ member ∈ front ++ back, isTag member = false ∧ canHold levels member = true := by
    rintro ⟨_, value⟩ inside
    obtain ⟨⟨name, rfl, different⟩, modest⟩ := rest _ inside
    exact ⟨isTag_other different value, (canHold_other different value).trans modest.holdable⟩
  have held : (front ++ (some "annotation", .text tag) :: back).all (canHold levels) = true := by
    rw [List.all_eq_true]
    intro member inside
    rcases List.mem_append.mp inside with before | after
    · exact (besides member (List.mem_append_left _ before)).2
    · rcases List.mem_cons.mp after with rfl | after
      · exact canHold_tag _
      · exact (besides member (List.mem_append_right _ after)).2
  have tagged : tag? (front ++ (some "annotation", .text tag) :: back) = some tag := by
    rw [tag?, tags_between _ fun member inside => (besides member inside).1]
    rfl
  have decoded := toOption_decoder_object source levels
    (front ++ (some "annotation", .text tag) :: back)
  rw [if_pos held, tagged, Option.bind_some, ofHeldMembers_other noFeature noMapping] at decoded
  exact ok_of_toOption decoded

end Annotation

/-! Outlines and documents. -/

namespace Outline

theorem format_orderless {children : Decoder (List Outline)}
    (orderless : children.Orderless .outlines) : (format children).Orderless .outline where
  commuting := by
    simp only [format, List.pairwise_cons, List.forall_mem_cons, List.not_mem_nil, false_imp_iff,
      implies_true, List.Pairwise.nil, and_true]
    and_intros <;> exact Store.commute_put fun _ _ _ => rfl
  fields := by
    have location : Location.format.decoder.Orderless .location :=
      Location.orderless.decoder rfl (fun _ => rfl) fun _ _ => id
    have annotations : (Decoder.list Annotation.decoder).Orderless .annotations :=
      .list fun _ => Annotation.orderless
    simp only [format, List.forall_mem_cons]
    exact ⟨Store.orderless_put (orderless_variant _), Store.orderless_put (orderless_text _),
      Store.orderless_put (orderless_text _).optional, Store.orderless_put location.optional,
      Store.orderless_put annotations, Store.orderless_put orderless, List.forall_mem_nil _⟩

theorem format_decoder_orderless {children : Decoder (List Outline)}
    (orderless : children.Orderless .outlines) : (format children).decoder.Orderless .outline :=
  (format_orderless orderless).decoder rfl (fun _ => rfl) fun _ _ => id

theorem decoder_orderless_at (levels : Nat) : ∀ source value other,
    Rearranged .outline value other →
      (decoder source levels value).toOption = (decoder source levels other).toOption := by
  have none : Decoder.Orderless (fun _ _ _ => .error .malformed : Decoder (List Outline))
      .outlines := fun _ _ _ _ _ => rfl
  induction levels using Nat.twoStepInduction with
  | zero => exact fun source value other => format_decoder_orderless none source 0 value other
  | one => exact fun source value other => format_decoder_orderless none source 1 value other
  | more levels ih _ =>
      intro source value other rearranged
      rw [decoder, decoder]
      have each (index : Nat) (value other : Json)
          (rearranged : Rearranged (Role.outlines.item index) value other) :
          (decoder source levels value).toOption = (decoder source levels other).toOption :=
        ih source value other rearranged
      refine format_decoder_orderless (fun _ _ value other rearranged => ?_) source _ value other
        rearranged
      cases rearranged with
      | same => rfl
      | array items => exact toOption_mapM each items
      | object => rfl

theorem decoder_orderless : decoder.Orderless .outline :=
  fun source levels => decoder_orderless_at levels source

end Outline

namespace SourceDocument

theorem orderless : format.Orderless .document where
  commuting := List.pairwise_singleton _ _
  fields := by
    have roots : (Decoder.list Outline.decoder).Orderless .outlines :=
      .list fun _ => Outline.decoder_orderless
    simp only [format, List.forall_mem_cons]
    exact ⟨Store.orderless_put roots, List.forall_mem_nil _⟩

theorem decoder_orderless : format.decoder.Orderless .document :=
  orderless.decoder rfl (fun _ => rfl) fun _ _ => id

/-- Documents that are written differently are decoded to the same, or are refused alike: in any
order of members and with further members in their records, be they values already or still texts.
An annotation whose tag is not known is an annotation of others, whatever else it holds. -/
theorem decoded_in_any_order :
    (∀ source levels value other, Rearranged .document value other →
        (format.decoder source levels value).toOption =
          (format.decoder source levels other).toOption) ∧
      (∀ text other, Rearranged .document (Json.read text).value (Json.read other).value →
        (Json.read text).trailing = (Json.read other).trailing →
          (parse text).toOption = (parse other).toOption) ∧
      ∀ source levels tag front back, tag ≠ "feature" → tag ≠ "mapping" →
        (∀ member ∈ front ++ back,
          (∃ name, member.1 = some name ∧ name ≠ "annotation") ∧ member.2.Modest levels) →
          Annotation.decoder source (levels + 1)
            (.object (front ++ (some "annotation", .text tag) :: back)) = .ok .other := by
  refine ⟨decoder_orderless, ?_, ?_⟩
  · intro text other rearranged trailing
    have values := decoder_orderless .text nestingLimit _ _ rearranged
    simp only [parse, decodeText, toOption_bind, values, trailing]
  · intro source levels tag front back noFeature noMapping rest
    exact Annotation.decoder_other noFeature noMapping rest source

def payWritten : Json := .record [("annotation", .text "feature"), ("name", .text "Pay")]

def payRearranged : Json :=
  .record [("since", .bool true), ("name", .text "Pay"), ("annotation", .text "feature")]

def tillWritten : Json :=
  .record [("roots", .array [.record
    [("kind", .text "TYPE"), ("name", .text "Till"), ("metadata", .array [payWritten])]])]

def tillRearranged : Json :=
  .record [("roots", .array [.record [("line", .null), ("metadata", .array [payRearranged]),
    ("name", .text "Till"), ("kind", .text "TYPE")]])]

def tillDocument : SourceDocument :=
  { roots := [(Outline.new .type "Till").annotated (.feature { name := "Pay" })] }

theorem pay_rearranged : Rearranged .tagged payWritten payRearranged :=
  .object (.trans (.swap _ _ []) (.insert _ ⟨by decide, by decide⟩ rfl))

theorem till_rearranged : Rearranged .document tillWritten tillRearranged := by
  have annotations : Rearranged .annotations (.array [payWritten]) (.array [payRearranged]) :=
    .array (.cons pay_rearranged (.nil .annotations 1))
  have ignored : "line" ∉ Role.outline.fields := by decide
  refine .object (.cons (some "roots") (.array (.cons (.object ?_) (.nil .outlines 1))) (.nil _ _))
  exact .trans (.of_perm (List.reverse_perm _).symm)
    (.trans (.cons (some "metadata") annotations (.refl _ _ _)) (.insert _ ignored rfl))

theorem till_read : Json.read tillWritten.compact = { value := tillWritten, trailing := false } ∧
    Json.read tillRearranged.compact = { value := tillRearranged, trailing := false } := by
  have alone {value : Json} (plain : value.Plain) : (Json.array [value]).Plain :=
    .array (by simpa using plain)
  have wrapped {members : List (String × Json)} (plain : (Json.record members).Plain) :
      (Json.record [("roots", .array [.record members])]).Plain :=
    .record (by simpa using alone plain)
  have pay : payWritten.Plain ∧ payRearranged.Plain :=
    ⟨.record (by simp), .record (by simp [Json.Plain.bool])⟩
  have written : tillWritten.Plain := wrapped (.record (by simp [alone pay.1]))
  have rearranged : tillRearranged.Plain :=
    wrapped (.record (by simp [alone pay.2, Json.Plain.null]))
  have read {value : Json} (plain : value.Plain) :
      Json.read value.compact = { value, trailing := false } := by
    have found := plain.reads_compact.read Json.margin_nil
    rwa [List.append_nil] at found
  exact ⟨read written, read rearranged⟩

theorem till_decoded_in_any_order :
    (format.decoder .whole 8 tillRearranged).toOption = some tillDocument ∧
      (parse tillRearranged.compact).toOption = some tillDocument ∧
      Annotation.decoder .text 2 (.object [(some "since", .array [.text "2.1", .natural 4]),
        (some "annotation", .text "deprecated"), (some "name", .null)]) = .ok .other := by
  have values := decoded_in_any_order.1 .whole 8 tillWritten tillRearranged till_rearranged
  have texts := decoded_in_any_order.2.1 tillWritten.compact tillRearranged.compact
    (by simpa only [till_read.1, till_read.2] using till_rearranged)
    (by rw [till_read.1, till_read.2])
  refine ⟨values.symm, texts.symm.trans ?_, ?_⟩
  · rw [parse, decodeText, till_read.1]
    rfl
  · refine decoded_in_any_order.2.2 .text 1 "deprecated"
      [(some "since", .array [.text "2.1", .natural 4])] [(some "name", .null)] (by decide)
      (by decide) ?_
    have items : (Json.array [.text "2.1", .natural 4]).Modest 1 :=
      .array (List.forall_mem_cons.mpr ⟨.text 0 "2.1",
        List.forall_mem_singleton.mpr (.integer 0 false (by decide))⟩)
    exact List.forall_mem_cons.mpr ⟨⟨⟨"since", rfl, by decide⟩, items⟩,
      List.forall_mem_singleton.mpr ⟨⟨"name", rfl, by decide⟩, .null 1⟩⟩

end SourceDocument

end FeatureAtlas
