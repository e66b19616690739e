import FeatureAtlas.Proofs.Model.Bookkeeping
import FeatureAtlas.Proofs.Model.Linking

/-!
What the declarations say, element by element: the feature of an element is its first one with a
name, the members of a node are the elements with a mapping to it, and what is reported of an
element depends on its own declarations alone. The links change nothing of this.
-/

namespace FeatureAtlas

namespace ScanPair

def feature? (pair : ScanPair) : Option DeclaredFeature :=
  match pair.declared with
  | .feature declaration =>
      if isBlank declaration.name then none
      else some { element := pair.element.toRef, declaration }
  | .mapping _ | .other => none

def problems (kept : Option DeclaredFeature) (pair : ScanPair) : List Diagnostic :=
  match pair.declared with
  | .feature declaration =>
      if isBlank declaration.name then [.emptyFeatureName pair.element.toRef]
      else
        match kept with
        | some feature =>
            [.duplicateFeature pair.element.toRef feature.declaration.name declaration.name]
        | none => []
  | .mapping declaration =>
      if isBlank declaration.targetConcept then [.emptyMappingName pair.element.toRef] else []
  | .other => []

end ScanPair

namespace Element

def feature? (element : Element) : Option DeclaredFeature :=
  element.pairs.findSome? ScanPair.feature?

end Element

/-- What is reported of declarations of one and the same element. -/
def reportsOf : Option DeclaredFeature → List ScanPair → List Diagnostic
  | _, [] => []
  | kept, pair :: rest => pair.problems kept ++ reportsOf (kept.or pair.feature?) rest

def Element.problems (element : Element) : List Diagnostic := reportsOf none element.pairs

namespace Assembly

variable {assembly : Assembly}

theorem features_resolve (key : NodeKey) :
    (assembly.resolve key).2.model.features = assembly.model.features := by
  rw [resolve]
  split <;> rfl

theorem diagnostics_resolve (key : NodeKey) :
    (assembly.resolve key).2.model.diagnostics = assembly.model.diagnostics := by
  rw [resolve]
  split <;> rfl

theorem featureFor?_declare (inStep : assembly.InStep) (pair : ScanPair) (id : ElementId) :
    (assembly.declare pair).model.featureFor? id = (assembly.model.featureFor? id).or
      (if pair.element.id = id then pair.feature? else none) := by
  obtain ⟨element, declared⟩ := pair
  cases declared with
  | other => simp [declare, ScanPair.feature?]
  | mapping declaration =>
      have features : (assembly.declareMapping element declaration).model.features =
          assembly.model.features := by
        rw [declareMapping]
        split
        · rfl
        · exact features_resolve declaration.key
      simp [declare, ScanPair.feature?, FeatureModel.featureFor?, features]
  | feature declaration =>
      simp only [declare, declareFeature, ScanPair.feature?]
      by_cases blank : isBlank declaration.name = true
      · simp only [if_pos blank, ite_self, Option.or_none]
        rfl
      · simp only [if_neg blank, inStep.declared]
        cases known : assembly.model.featureFor? element.id with
        | none => exact FeatureModel.featureFor?_addFeature _ _ id
        | some kept =>
            change assembly.model.featureFor? id = _
            by_cases here : element.id = id
            · simp [← here, known]
            · simp [here]

theorem diagnostics_declare (inStep : assembly.InStep) (pair : ScanPair) :
    (assembly.declare pair).model.diagnostics = assembly.model.diagnostics ++
      pair.problems (assembly.model.featureFor? pair.element.id) := by
  obtain ⟨element, declared⟩ := pair
  cases declared with
  | other => simp [declare, ScanPair.problems]
  | mapping declaration =>
      simp only [declare, declareMapping, ScanPair.problems]
      split
      · rfl
      · rw [List.append_nil]
        exact diagnostics_resolve declaration.key
  | feature declaration =>
      simp only [declare, declareFeature, ScanPair.problems, inStep.declared]
      split
      · rfl
      · cases assembly.model.featureFor? element.id with
        | some kept => rfl
        | none =>
            rw [List.append_nil]
            rfl

theorem featureFor?_declareAll (inStep : assembly.InStep) (pairs : List ScanPair)
    (id : ElementId) :
    (assembly.declareAll pairs).model.featureFor? id = (assembly.model.featureFor? id).or
      (pairs.findSome? fun pair => if pair.element.id = id then pair.feature? else none) := by
  induction pairs generalizing assembly with
  | nil => simp [declareAll]
  | cons pair rest ih =>
      rw [declareAll, List.foldl_cons, ← declareAll, ih (inStep.declare pair),
        featureFor?_declare inStep, Option.or_assoc, List.findSome?_cons]
      cases (if pair.element.id = id then pair.feature? else none) <;> rfl

theorem diagnostics_declareAll (inStep : assembly.InStep) {pairs : List ScanPair}
    {id : ElementId} (own : ∀ pair ∈ pairs, pair.element.id = id) :
    (assembly.declareAll pairs).model.diagnostics =
      assembly.model.diagnostics ++ reportsOf (assembly.model.featureFor? id) pairs := by
  induction pairs generalizing assembly with
  | nil => simp [declareAll, reportsOf]
  | cons pair rest ih =>
      have here := own pair (by simp)
      have later := fun other member => own other (List.mem_cons_of_mem pair member)
      rw [declareAll, List.foldl_cons, ← declareAll, ih (inStep.declare pair) later,
        diagnostics_declare inStep, featureFor?_declare inStep, reportsOf, here, if_pos rfl,
        List.append_assoc]

end Assembly

theorem Element.element_of_mem_pairs {element : Element} {pair : ScanPair}
    (member : pair ∈ element.pairs) : pair.element = element := by
  obtain ⟨declared, _, rfl⟩ := List.mem_map.mp member
  rfl

theorem Element.id_of_mem_pairs (element : Element) :
    ∀ pair ∈ element.pairs, pair.element.id = element.id :=
  fun _ member => congrArg Element.id (element_of_mem_pairs member)

theorem Element.mem_mappedKeys_iff (element : Element) (key : NodeKey) :
    key ∈ element.mappedKeys ↔ ∃ pair ∈ element.pairs, pair.declared.mappedKey? = some key := by
  have declares {declared : Annotation} (asks : declared.mappedKey? = some key) :
      declared.isDeclaration = true := by
    obtain ⟨_, rfl, _⟩ := Annotation.mappedKey?_eq_some_iff.mp asks
    rfl
  rw [mappedKeys, List.mem_eraseDups, List.mem_filterMap]
  constructor
  · rintro ⟨declared, member, asks⟩
    have kept := List.mem_filter.mpr ⟨member, declares asks⟩
    exact ⟨_, List.mem_map_of_mem kept, asks⟩
  · rintro ⟨pair, member, asks⟩
    obtain ⟨declared, kept, rfl⟩ := List.mem_map.mp member
    exact ⟨declared, (List.mem_filter.mp kept).1, asks⟩

theorem Element.findSome?_pairs (element : Element) (id : ElementId) :
    (element.pairs.findSome? fun pair => if pair.element.id = id then pair.feature? else none) =
      if element.id = id then element.feature? else none := by
  rw [feature?, pairs, List.findSome?_map, List.findSome?_map]
  by_cases here : element.id = id
  · simp [here, Function.comp_def]
  · simp [here, Function.comp_def]

namespace Assembly

variable {assembly : Assembly}

theorem declareAll_append (pairs others : List ScanPair) :
    assembly.declareAll (pairs ++ others) = (assembly.declareAll pairs).declareAll others :=
  List.foldl_append

theorem declareAll_snoc (pairs : List ScanPair) (pair : ScanPair) :
    assembly.declareAll (pairs ++ [pair]) = (assembly.declareAll pairs).declare pair :=
  declareAll_append pairs [pair]

theorem featureFor?_elements (inStep : assembly.InStep) (elements : List Element)
    (id : ElementId) :
    (assembly.declareAll (elements.flatMap Element.pairs)).model.featureFor? id =
      (assembly.model.featureFor? id).or
        (elements.findSome? fun element => if element.id = id then element.feature? else none) := by
  induction elements generalizing assembly with
  | nil => simp [declareAll]
  | cons element rest ih =>
      rw [List.flatMap_cons, declareAll_append, ih (inStep.declareAll _),
        featureFor?_declareAll inStep, element.findSome?_pairs, Option.or_assoc,
        List.findSome?_cons]
      cases (if element.id = id then element.feature? else none) <;> rfl

theorem featureFor?_pairs_of_ne (inStep : assembly.InStep) {element : Element} {id : ElementId}
    (different : element.id ≠ id) :
    (assembly.declareAll element.pairs).model.featureFor? id = assembly.model.featureFor? id := by
  rw [featureFor?_declareAll inStep, element.findSome?_pairs, if_neg different, Option.or_none]

/-- Where elements differ by their numbers, each adds to a part of the model what it would add on
its own. -/
theorem declareAll_elements {β : Type} {value : FeatureModel → List β} {added : Element → List β}
    (adds : ∀ {assembly : Assembly}, assembly.InStep → ∀ element : Element,
      assembly.model.featureFor? element.id = none →
        value (assembly.declareAll element.pairs).model = value assembly.model ++ added element)
    (inStep : assembly.InStep) {elements : List Element}
    (distinct : (elements.map Element.id).Nodup)
    (fresh : ∀ element ∈ elements, assembly.model.featureFor? element.id = none) :
    value (assembly.declareAll (elements.flatMap Element.pairs)).model =
      value assembly.model ++ elements.flatMap added := by
  induction elements generalizing assembly with
  | nil => simp [declareAll]
  | cons element rest ih =>
      obtain ⟨apart, distinctRest⟩ := List.nodup_cons.mp distinct
      have later : ∀ other ∈ rest,
          (assembly.declareAll element.pairs).model.featureFor? other.id = none := by
        intro other member
        rw [featureFor?_pairs_of_ne inStep fun same => apart (same ▸ List.mem_map_of_mem member)]
        exact fresh other (by simp [member])
      rw [List.flatMap_cons, declareAll_append, ih (inStep.declareAll _) distinctRest later,
        adds inStep element (fresh element (by simp)), List.flatMap_cons, List.append_assoc]

theorem diagnostics_elements (inStep : assembly.InStep) {elements : List Element}
    (distinct : (elements.map Element.id).Nodup)
    (fresh : ∀ element ∈ elements, assembly.model.featureFor? element.id = none) :
    (assembly.declareAll (elements.flatMap Element.pairs)).model.diagnostics =
      assembly.model.diagnostics ++ elements.flatMap Element.problems := by
  refine declareAll_elements (fun inStep element new => ?_) inStep distinct fresh
  rw [diagnostics_declareAll inStep element.id_of_mem_pairs, new]
  rfl

end Assembly

theorem findSome?_feature_eq_some_iff {elements : List Element}
    (distinct : (elements.map Element.id).Nodup) (id : ElementId) (feature : DeclaredFeature) :
    (elements.findSome? fun element => if element.id = id then element.feature? else none) =
        some feature ↔
      ∃ element ∈ elements, element.id = id ∧ element.feature? = some feature := by
  constructor
  · intro found
    obtain ⟨element, member, isFeature⟩ := List.exists_of_findSome?_eq_some found
    rw [Option.ite_none_right_eq_some] at isFeature
    exact ⟨element, member, isFeature⟩
  · rintro ⟨element, member, rfl, isFeature⟩
    obtain ⟨before, after, rfl⟩ := List.append_of_mem member
    rw [List.findSome?_eq_some_iff]
    refine ⟨before, element, after, rfl, by rw [if_pos rfl, isFeature], ?_⟩
    intro other earlier
    apply if_neg
    intro same
    rw [List.map_append, List.map_cons] at distinct
    exact (List.nodup_append.mp distinct).2.2 _ (List.mem_map_of_mem earlier) _ (by simp) same

/-! The members of a node. -/

theorem foldl_addElement {elements : List ElementRef}
    (apart : ∀ element ∈ elements, ∀ other ∈ elements, element.id = other.id → element = other) :
    elements.foldl addElement [] = elements.eraseDups := by
  induction elements using List.reverseRecOn with
  | nil => rfl
  | append_singleton elements element ih =>
      have earlier := ih fun known member other otherMember =>
        apart known (List.mem_append_left _ member) other (List.mem_append_left _ otherMember)
      have known : (elements.eraseDups.any fun known => known.id == element.id) = true ↔
          element ∈ elements := by
        rw [List.any_eq_true]
        constructor
        · rintro ⟨same, member, isId⟩
          rw [List.mem_eraseDups] at member
          rwa [← apart same (List.mem_append_left _ member) element (by simp) (beq_iff_eq.mp isId)]
        · intro member
          exact ⟨element, List.mem_eraseDups.mpr member, beq_self_eq_true _⟩
      rw [List.foldl_append, List.foldl_cons, List.foldl_nil, earlier, eraseDups_snoc, addElement]
      exact if_congr known rfl rfl

namespace FeatureModel

def membersOf (model : FeatureModel) (key : NodeKey) : List ElementRef :=
  ((model.node? key).map FeatureNode.members).getD []

variable {model : FeatureModel}

theorem membersOf_eq (model : FeatureModel) (key : NodeKey) :
    model.membersOf key = ((model.indexOf? key).map model.membersAt).getD [] := by
  rw [membersOf, node?]
  cases model.indexOf? key with
  | none => rfl
  | some index => rfl

theorem membersOf_addNode {key : NodeKey} (absent : model.indexOf? key = none) (other : NodeKey) :
    (model.addNode key).membersOf other = model.membersOf other := by
  have index : (model.addNode key).indexOf? other =
      if other = key then some model.nodes.length else model.indexOf? other :=
    Dictionary.get?_put _ _ _ _
  rw [membersOf_eq, membersOf_eq, index, show (model.addNode key).membersAt = model.membersAt from
    funext fun index => membersAt_addNode key index]
  split
  · rename_i here
    simp [here, absent, membersAt]
  · rfl

theorem Indexed.membersOf_addMember (indexed : model.Indexed) {key : NodeKey} {index : NodeIndex}
    (found : model.indexOf? key = some index) (element : ElementRef) (other : NodeKey) :
    (model.addMember index element).membersOf other =
      if other = key then addElement (model.membersOf key) element else model.membersOf other := by
  have same : (model.addMember index element).indexOf? other = model.indexOf? other := rfl
  rw [membersOf_eq, membersOf_eq, membersOf_eq, same]
  by_cases here : other = key
  · subst here
    simp [found, membersAt_addMember (indexed.lt_length found)]
  · rw [if_neg here]
    cases known : model.indexOf? other with
    | none => rfl
    | some place =>
        have apart : place ≠ index := fun also => here (indexed.indexOf?_inj found (also ▸ known))
        simp [membersAt_addMember (indexed.lt_length found), apart]

theorem membersOf_addEdge (model : FeatureModel) (parent child : NodeIndex) (key : NodeKey) :
    (model.addEdge parent child).membersOf key = model.membersOf key := by
  have same : (model.addEdge parent child).membersAt = model.membersAt :=
    funext fun index => membersAt_addEdge parent child index
  rw [membersOf_eq, membersOf_eq, same]
  rfl

end FeatureModel

namespace Assembly

variable {assembly : Assembly}

theorem membersOf_resolve (key other : NodeKey) :
    (assembly.resolve key).2.model.membersOf other = assembly.model.membersOf other := by
  rw [resolve]
  split
  · rfl
  · rename_i absent
    exact FeatureModel.membersOf_addNode absent other

theorem membersOf_declare (inStep : assembly.InStep) (pair : ScanPair) (key : NodeKey) :
    (assembly.declare pair).model.membersOf key =
      if pair.declared.mappedKey? = some key then
        addElement (assembly.model.membersOf key) pair.element.toRef
      else assembly.model.membersOf key := by
  obtain ⟨element, declared⟩ := pair
  cases declared with
  | other => simp [declare, Annotation.mappedKey?]
  | feature declaration =>
      simp only [declare, declareFeature, Annotation.mappedKey?]
      split
      · rfl
      · split <;> rfl
  | mapping declaration =>
      simp only [declare, declareMapping, Annotation.mappedKey?]
      by_cases blank : isBlank declaration.targetConcept = true
      · simp only [if_pos blank]
        rfl
      · simp only [if_neg blank, Option.some.injEq]
        rw [join, (inStep.resolve declaration.key).indexed.membersOf_addMember
          (indexOf?_resolve declaration.key), membersOf_resolve, membersOf_resolve]
        by_cases here : key = declaration.key
        · simp [here]
        · simp [here, Ne.symm here]

theorem membersOf_declareAll (pairs : List ScanPair) (key : NodeKey) :
    (({} : Assembly).declareAll pairs).model.membersOf key =
      (((mappingsOf pairs).filter fun mapping => mapping.key == key).map fun mapping =>
        mapping.element.toRef).foldl addElement [] := by
  induction pairs using List.reverseRecOn with
  | nil => rfl
  | append_singleton pairs pair ih =>
      rw [declareAll_snoc, membersOf_declare (inStep_empty.declareAll pairs), ih, mappingsOf_snoc,
        ScanPair.mapping?]
      cases asks : pair.declared.mappedKey? with
      | none => simp
      | some other =>
          by_cases here : other = key
          · simp [here]
          · simp [here]

theorem mem_membersOf_declareAll {pairs : List ScanPair}
    (apart : ∀ pair ∈ pairs, ∀ other ∈ pairs, pair.element.id = other.element.id →
      pair.element = other.element) (key : NodeKey) (member : ElementRef) :
    member ∈ (({} : Assembly).declareAll pairs).model.membersOf key ↔
      ∃ pair ∈ pairs, pair.declared.mappedKey? = some key ∧ pair.element.toRef = member := by
  have mapped (element : ElementRef) :
      element ∈ ((mappingsOf pairs).filter fun mapping => mapping.key == key).map (fun mapping =>
        mapping.element.toRef) ↔
        ∃ pair ∈ pairs, pair.declared.mappedKey? = some key ∧ pair.element.toRef = element := by
    simp [mappingsOf, ScanPair.mapping?, and_assoc]
  rw [membersOf_declareAll, foldl_addElement, List.mem_eraseDups, mapped]
  intro first firstMember second secondMember same
  obtain ⟨pair, found, _, rfl⟩ := (mapped first).mp firstMember
  obtain ⟨other, otherFound, _, rfl⟩ := (mapped second).mp secondMember
  rw [apart pair found other otherFound same]

end Assembly

/-! The links. -/

structure FeatureModel.Declared (model other : FeatureModel) : Prop where
  features : other.features = model.features
  members : ∀ key, other.membersOf key = model.membersOf key

namespace Assembly

theorem declared_link (assembly : Assembly) (attempt : LinkAttempt) :
    assembly.model.Declared (assembly.link attempt).model := by
  simp only [link]
  split
  · exact ⟨rfl, fun _ => rfl⟩
  · split
    · rw [connect]
      split
      · exact ⟨rfl, fun _ => rfl⟩
      · exact ⟨rfl, FeatureModel.membersOf_addEdge _ _ _⟩
    · exact ⟨rfl, fun _ => rfl⟩

theorem declared_linkAll (assembly : Assembly) (attempts : List LinkAttempt) :
    assembly.model.Declared (assembly.linkAll attempts).model := by
  induction attempts generalizing assembly with
  | nil => exact ⟨rfl, fun _ => rfl⟩
  | cons attempt rest ih =>
      have now := declared_link assembly attempt
      have later := ih (assembly.link attempt)
      rw [linkAll, List.foldl_cons, ← linkAll]
      exact ⟨later.features.trans now.features,
        fun key => (later.members key).trans (now.members key)⟩

end Assembly

namespace Scan

theorem build_declared (scan : Scan) :
    (({} : Assembly).declareAll scan.pairs).model.Declared scan.build := by
  rw [build, Assembly.ofScan, Assembly.reportCycles, Assembly.reportAll_model, Assembly.contain]
  have linked := Assembly.declared_linkAll (({} : Assembly).declareAll scan.pairs)
    (linkAttempts scan.tree (({} : Assembly).declareAll scan.pairs).mapped.get?
      (({} : Assembly).declareAll scan.pairs).mappedOrder)
  exact ⟨linked.features, linked.members⟩

end Scan

end FeatureAtlas
