import FeatureAtlas.Proofs.Model.Mirroring

/-!
Blank declarations and the annotations of other tools leave no trace in a model. A tree that is
cleaned of them is scanned the same way, and its model is the same but for the diagnostics of empty
names.
-/

namespace FeatureAtlas

/-! Trees of the same shape are scanned the same way. -/

structure Element.Alike (element other : Element) : Prop where
  id : other.id = element.id
  parent : other.parent = element.parent
  children : other.children = element.children

namespace SourceTree

structure Alike (tree other : SourceTree) : Prop where
  found : ∀ {id element}, tree.get? id = some element →
    ∃ image, other.get? id = some image ∧ element.Alike image
  missing : ∀ {id}, tree.get? id = none → other.get? id = none

variable {tree other : SourceTree}

theorem Alike.accept (alike : tree.Alike other) {walk otherWalk : Walk}
    (visited : otherWalk.visited = walk.visited) (path : otherWalk.path = walk.path)
    (link : Link) :
    (∃ error, tree.accept walk link = .error error ∧ other.accept otherWalk link = .error error) ∨
      ∃ element image, tree.accept walk link = .ok element ∧
        other.accept otherWalk link = .ok image ∧ element.Alike image := by
  cases link with
  | root target =>
      simp only [SourceTree.accept, visited]
      cases stored : tree.get? target with
      | none => simp [alike.missing stored]
      | some element =>
          obtain ⟨image, imageStored, same⟩ := alike.found stored
          simp only [imageStored, same.parent]
          split
          · simp
          · split
            · simp
            · simp [same]
  | child holder target =>
      simp only [SourceTree.accept, visited, path]
      cases stored : tree.get? target with
      | none => simp [alike.missing stored]
      | some element =>
          obtain ⟨image, imageStored, same⟩ := alike.found stored
          simp only [imageStored, same.parent]
          split
          · simp
          · split
            · simp
            · split
              · simp
              · simp [same]

theorem Alike.run (alike : tree.Alike other) {agenda : List Errand} {walk otherWalk : Walk}
    (visited : otherWalk.visited = walk.visited) (path : otherWalk.path = walk.path) :
    (other.run agenda otherWalk).map Walk.visited = (tree.run agenda walk).map Walk.visited := by
  induction agenda, walk using SourceTree.run.induct tree generalizing otherWalk with
  | case1 walk =>
      rw [SourceTree.run, SourceTree.run, Except.map, Except.map, visited]
  | case2 rest walk ih =>
      rw [SourceTree.run, SourceTree.run]
      exact ih visited (congrArg List.tail path)
  | case3 link rest walk error refused =>
      rcases alike.accept visited path link with ⟨same, first, second⟩ | ⟨_, _, first, _⟩
      · rw [SourceTree.run, SourceTree.run, first, second]
      · simp [refused] at first
  | case4 link rest walk element accepted ih =>
      rcases alike.accept visited path link with ⟨_, first, _⟩ | ⟨_, image, first, second, same⟩
      · simp [accepted] at first
      · obtain rfl := Except.ok.inj (accepted.symm.trans first)
        have errands : image.errands = element.errands := by
          rw [Element.errands, Element.errands, same.id, same.children]
        rw [SourceTree.run, SourceTree.run, first, second]
        simp only [errands]
        apply ih
        · simp only [Walk.enter, visited, same.id]
        · simp only [Walk.enter, path, same.id]

theorem Alike.scanRoots (alike : tree.Alike other) {roots : List ElementId} {scan : Scan}
    (accepted : tree.scanRoots roots = .ok scan) :
    ∃ otherScan, other.scanRoots roots = .ok otherScan ∧ otherScan.visited = scan.visited := by
  obtain ⟨walk, ran, rfl⟩ := scanRoots_ok accepted
  have same : (other.run (roots.map fun root => .follow (.root root)) .start).map Walk.visited =
      (tree.run (roots.map fun root => .follow (.root root)) .start).map Walk.visited :=
    alike.run rfl rfl
  rw [ran] at same
  rw [SourceTree.scanRoots]
  cases otherRan : other.run (roots.map fun root => .follow (.root root)) .start with
  | error error => simp [otherRan, Except.map] at same
  | ok otherWalk =>
      rw [otherRan] at same
      exact ⟨_, rfl, Except.ok.inj same⟩

/-- Slot by slot, the elements of the other tree are related to those of the tree and stand in the
same places of it. -/
structure Resembles (related : Element → Element → Prop) (tree other : SourceTree) : Prop where
  elements : List.Forall₂ related tree.elements other.elements
  inPlace : ∀ {element image}, related element image → element.Alike image

variable {related : Element → Element → Prop}

theorem Resembles.found (resembles : tree.Resembles related other) {id : ElementId}
    {element : Element} (stored : tree.get? id = some element) :
    ∃ image, other.get? id = some image ∧ related element image := by
  rcases forall₂_slot resembles.elements id with
    ⟨empty, _⟩ | ⟨held, image, isHeld, isImage, isRelated⟩
  · simp [get?, empty] at stored
  · simp only [get?, isHeld, Option.filter_some, Option.ite_none_right_eq_some,
      Option.some.injEq] at stored
    obtain ⟨here, rfl⟩ := stored
    exact ⟨image, by simpa [get?, isImage, (resembles.inPlace isRelated).id] using here, isRelated⟩

theorem Resembles.missing (resembles : tree.Resembles related other) {id : ElementId}
    (absent : tree.get? id = none) : other.get? id = none := by
  rcases forall₂_slot resembles.elements id with
    ⟨_, empty⟩ | ⟨held, image, isHeld, isImage, isRelated⟩
  · simp [get?, empty]
  · simpa [get?, isHeld, isImage, (resembles.inPlace isRelated).id] using absent

theorem Resembles.alike (resembles : tree.Resembles related other) : tree.Alike other := by
  refine ⟨?_, resembles.missing⟩
  intro id element stored
  obtain ⟨image, imageStored, isRelated⟩ := resembles.found stored
  exact ⟨image, imageStored, resembles.inPlace isRelated⟩

theorem Resembles.mirrors (resembles : tree.Resembles related other)
    (reflects : ∀ {element image}, related element image →
      element.Mirrors (fun id => id) image) : tree.Mirrors (fun id => id) other := by
  refine ⟨fun _ _ same => same, ?_⟩
  intro id element stored
  obtain ⟨image, imageStored, isRelated⟩ := resembles.found stored
  refine ⟨image, other.parentOf? image, imageStored, reflects isRelated, .parent image, ?_⟩
  rw [parentOf?, parentOf?, (resembles.inPlace isRelated).parent]
  cases element.parent with
  | none => exact .none
  | some parent =>
      simp only [Option.bind_some]
      cases above : tree.get? parent with
      | none =>
          rw [resembles.missing above]
          exact .none
      | some holder =>
          obtain ⟨holderImage, holderStored, holderRelated⟩ := resembles.found above
          rw [holderStored]
          exact .some (reflects holderRelated)

theorem Resembles.elementsOf (resembles : tree.Resembles related other) (ids : List ElementId) :
    List.Forall₂ related (tree.elementsOf ids) (other.elementsOf ids) := by
  induction ids with
  | nil => exact .nil
  | cons id rest ih =>
      rw [SourceTree.elementsOf, SourceTree.elementsOf, List.filterMap_cons, List.filterMap_cons]
      cases stored : tree.get? id with
      | none =>
          rw [resembles.missing stored]
          exact ih
      | some element =>
          obtain ⟨image, imageStored, isRelated⟩ := resembles.found stored
          rw [imageStored]
          exact .cons isRelated ih

end SourceTree

structure Element.Reannotated (related : List Annotation → List Annotation → Prop)
    (element image : Element) : Prop where
  annotations : related element.annotations image.annotations
  others : image = { element with annotations := image.annotations }

namespace Element.Reannotated

variable {related : List Annotation → List Annotation → Prop} {element image : Element}

theorem alike (same : element.Reannotated related image) : element.Alike image := by
  rw [same.others]
  exact ⟨rfl, rfl, rfl⟩

theorem ref (same : element.Reannotated related image) :
    image.toRef = element.toRef.renumber (fun id => id) := by
  rw [same.others]
  rfl

theorem mirrors (same : element.Reannotated related image)
    (mappedKeys : image.mappedKeys = element.mappedKeys) :
    element.Mirrors (fun id => id) image :=
  ⟨same.ref, mappedKeys⟩

end Element.Reannotated

/-! Cleaning. -/

/-- Annotations without those that are blank and without some of those of other tools. -/
inductive Annotation.Cleaned : List Annotation → List Annotation → Prop
  | none : Cleaned [] []
  | keep {declared : Annotation} {annotations cleaned : List Annotation} :
      declared.isBlank = false → Cleaned annotations cleaned →
      Cleaned (declared :: annotations) (declared :: cleaned)
  | blank {declared : Annotation} {annotations cleaned : List Annotation} :
      declared.isBlank = true → Cleaned annotations cleaned →
      Cleaned (declared :: annotations) cleaned
  | other {annotations cleaned : List Annotation} : Cleaned annotations cleaned →
      Cleaned (.other :: annotations) cleaned

structure Element.Cleaned (element cleaned : Element) : Prop where
  annotations : Annotation.Cleaned element.annotations cleaned.annotations
  others : cleaned = { element with annotations := cleaned.annotations }

structure SourceTree.Cleaned (tree cleaned : SourceTree) : Prop where
  elements : List.Forall₂ Element.Cleaned tree.elements cleaned.elements
  roots : cleaned.roots = tree.roots

theorem Annotation.Cleaned.mappedKeys {annotations cleaned : List Annotation}
    (cleans : Annotation.Cleaned annotations cleaned) :
    cleaned.filterMap Annotation.mappedKey? = annotations.filterMap Annotation.mappedKey? := by
  induction cleans with
  | none => rfl
  | keep _ _ ih => rw [List.filterMap_cons, List.filterMap_cons, ih]
  | blank isBlank _ ih => rw [List.filterMap_cons, Annotation.mappedKey?_of_isBlank isBlank, ih]
  | other _ ih => exact ih

theorem Annotation.isDeclaration_of_isBlank {declared : Annotation}
    (blank : declared.isBlank = true) : declared.isDeclaration = true := by
  cases declared with
  | other => cases blank
  | feature _ => rfl
  | mapping _ => rfl

theorem Annotation.Cleaned.pairs {element cleaned : Element}
    (ref : cleaned.toRef = element.toRef.renumber fun id => id)
    {annotations cleanedAnnotations : List Annotation}
    (cleans : Annotation.Cleaned annotations cleanedAnnotations) :
    EchoedPairs (fun id => id) true
      ((annotations.filter Annotation.isDeclaration).map fun declared => { element, declared })
      ((cleanedAnnotations.filter Annotation.isDeclaration).map fun declared =>
        { element := cleaned, declared }) := by
  induction cleans with
  | none => exact .none
  | @keep declared _ _ named _ ih =>
      cases declaration : declared.isDeclaration with
      | false => simpa [declaration] using ih
      | true =>
          simp only [List.filter_cons, declaration, if_true, List.map_cons]
          exact .same rfl ref (fun _ => named) ih
  | blank isBlank _ ih =>
      simp only [List.filter_cons, Annotation.isDeclaration_of_isBlank isBlank, if_true,
        List.map_cons]
      exact .blank rfl isBlank ih
  | other _ ih => exact ih

namespace Element

variable {element cleaned : Element}

theorem Cleaned.reannotated (cleans : element.Cleaned cleaned) :
    element.Reannotated Annotation.Cleaned cleaned :=
  ⟨cleans.annotations, cleans.others⟩

theorem Cleaned.ref (cleans : element.Cleaned cleaned) :
    cleaned.toRef = element.toRef.renumber (fun id => id) :=
  cleans.reannotated.ref

theorem Cleaned.mirrors (cleans : element.Cleaned cleaned) :
    element.Mirrors (fun id => id) cleaned :=
  cleans.reannotated.mirrors (by rw [mappedKeys, cleans.annotations.mappedKeys, mappedKeys])

end Element

namespace SourceTree

variable {tree cleaned : SourceTree}

theorem Cleaned.resembles (cleans : tree.Cleaned cleaned) :
    tree.Resembles Element.Cleaned cleaned :=
  ⟨cleans.elements, fun clean => clean.reannotated.alike⟩

theorem Cleaned.alike (cleans : tree.Cleaned cleaned) : tree.Alike cleaned :=
  cleans.resembles.alike

theorem Cleaned.mirrors (cleans : tree.Cleaned cleaned) : tree.Mirrors (fun id => id) cleaned :=
  cleans.resembles.mirrors Element.Cleaned.mirrors

theorem Cleaned.elementsOf (cleans : tree.Cleaned cleaned) (ids : List ElementId) :
    List.Forall₂ Element.Cleaned (tree.elementsOf ids) (cleaned.elementsOf ids) :=
  cleans.resembles.elementsOf ids

end SourceTree

/-! Models without renumbering. -/

theorem FeatureNode.renumber_id : FeatureNode.renumber (fun id => id) = id := by
  funext node
  simp only [renumber, show ElementRef.renumber (fun id => id) = id from rfl, List.map_id]
  rfl

theorem Diagnostic.renumber_id : Diagnostic.renumber (fun id => id) = id := by
  funext diagnostic
  simp only [renumber, show ElementRef.renumber (fun id => id) = id from rfl, List.map_id]
  rfl

namespace Scan

/-- A cleaned tree is accepted too and gives the same nodes and features. Of the diagnostics only
those of empty names are gone. -/
theorem build_cleaned {tree cleaned : SourceTree} (cleans : tree.Cleaned cleaned)
    {roots : List ElementId} {scan : Scan} (accepted : tree.scanRoots roots = .ok scan) :
    ∃ other, cleaned.scanRoots roots = .ok other ∧
      other.build.nodes = scan.build.nodes ∧ other.build.features = scan.build.features ∧
      other.build.diagnostics =
        scan.build.diagnostics.filter fun diagnostic => diagnostic.kind != .emptyName := by
  obtain ⟨other, otherAccepted, visited⟩ := cleans.alike.scanRoots accepted
  obtain ⟨isTree, _, pairs⟩ := SourceTree.scanRoots_sound accepted
  obtain ⟨isCleaned, _, otherPairs⟩ := SourceTree.scanRoots_sound otherAccepted
  have echoed : EchoedPairs (fun id => id) true scan.pairs other.pairs := by
    rw [pairs, otherPairs, visited]
    apply EchoedPairs.flatMap
    exact (cleans.elementsOf scan.visited).imp fun _ _ clean => clean.annotations.pairs clean.ref
  have mirrors : scan.tree.Mirrors (fun id => id) other.tree := by
    rw [isTree, isCleaned]
    exact cleans.mirrors
  have echoes := build_echoes accepted otherAccepted mirrors echoed
  refine ⟨other, otherAccepted, ?_, ?_, ?_⟩
  · rw [echoes.nodes, FeatureNode.renumber_id, List.map_id]
  · rw [echoes.features]
    exact List.map_id _
  · rw [echoes.diagnostics, Diagnostic.renumber_id, List.map_id]
    rfl

def noisyShop : SourceTree :=
  .ofOutlines [{
    name := "Shop"
    annotations := [.other, .mapping {}, .mapping { targetConcept := "Sales" }, .other]
    children := [{
      kind := .method
      name := "pay"
      annotations := [.feature {}, .mapping { targetConcept := "Payments" }] }] }]

def quietShop : SourceTree :=
  .ofOutlines [{
    name := "Shop"
    annotations := [.mapping { targetConcept := "Sales" }, .other]
    children := [{
      kind := .method
      name := "pay"
      annotations := [.mapping { targetConcept := "Payments" }] }] }]

def noisyScan : Scan :=
  { tree := noisyShop, visited := [0, 1], pairs := noisyShop.elements.flatMap Element.pairs }

theorem noisyShop_cleaned :
    noisyShop.Cleaned quietShop ∧ noisyShop.scan = .ok noisyScan ∧
      ∃ other, quietShop.scan = .ok other ∧
        other.build.nodes = noisyScan.build.nodes ∧
        other.build.features = noisyScan.build.features ∧
        other.build.diagnostics =
          noisyScan.build.diagnostics.filter fun diagnostic => diagnostic.kind != .emptyName := by
  have cleans : noisyShop.Cleaned quietShop := by
    refine ⟨.cons ⟨?_, rfl⟩ (.cons ⟨?_, rfl⟩ .nil), rfl⟩
    · exact .other (.blank rfl (.keep (by decide) (.keep rfl .none)))
    · exact .blank rfl (.keep (by decide) .none)
  have accepted : noisyShop.scanRoots noisyShop.roots = .ok noisyScan :=
    SourceTree.scanRoots_of_runWithin noisyScan 5 rfl
  exact ⟨cleans, accepted, build_cleaned cleans accepted⟩

end Scan

end FeatureAtlas
