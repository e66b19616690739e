import FeatureAtlas.Proofs.Model.Placement

/-!
What following up the link attempts leaves behind. The children of a node are those of its admitted
attempts, each once, in the order of the first attempt at them.
-/

namespace FeatureAtlas

namespace FeatureModel

def keyIn (keys : List NodeKey) (index : NodeIndex) : NodeKey := keys[index]?.getD default

theorem keyAt_eq (model : FeatureModel) (index : NodeIndex) :
    model.keyAt index = keyIn model.keys index := by
  rw [keyAt, keyIn, keys, List.getElem?_map]

theorem childIndices_eq {model : FeatureModel} {index : NodeIndex} {node : FeatureNode}
    (found : model.nodes[index]? = some node) : model.childIndices index = node.children := by
  rw [childIndices, found, Option.map_some, Option.getD_some]

theorem exists_of_mem_childIndices {model : FeatureModel} {index child : NodeIndex}
    (member : child ∈ model.childIndices index) :
    ∃ node, model.nodes[index]? = some node ∧ child ∈ node.children := by
  cases found : model.nodes[index]? with
  | none => simp [childIndices, found] at member
  | some node => exact ⟨node, rfl, childIndices_eq found ▸ member⟩

theorem childIndices_addEdge {model : FeatureModel} {parent : NodeIndex}
    (bound : parent < model.nodes.length) (child other : NodeIndex) :
    (model.addEdge parent child).childIndices other =
      if other = parent then model.childIndices parent ++ [child]
      else model.childIndices other := by
  simp only [childIndices, addEdge, List.getElem?_modify]
  by_cases here : other = parent
  · subst here
    by_cases self : child = other
    · simp [self, bound]
    · simp [self, bound]
  · have elsewhere : ¬parent = other := Ne.symm here
    cases model.nodes[other]? with
    | none => simp [here]
    | some node =>
        by_cases self : child = other
        · simp [here, elsewhere, self]
        · simp [here, elsewhere, self]

end FeatureModel

namespace LinkAttempt

def admitted (keys : List NodeKey) (attempt : LinkAttempt) : Bool :=
  decide (attempt.parent ≠ attempt.child) &&
    (FeatureModel.keyIn keys attempt.parent).granularity.canContain
      (FeatureModel.keyIn keys attempt.child).granularity

def origin (attempt : LinkAttempt) : EdgeOrigin :=
  { parent := attempt.parent, child := attempt.child, ancestor := attempt.ancestor.toRef,
    element := attempt.element.toRef }

end LinkAttempt

def childrenOfAttempts (keys : List NodeKey) (attempts : List LinkAttempt) (parent : NodeIndex) :
    List NodeIndex :=
  ((attempts.filter fun attempt => attempt.admitted keys && attempt.parent == parent).map
    LinkAttempt.child).eraseDups

theorem childrenOfAttempts_snoc (keys : List NodeKey) (attempts : List LinkAttempt)
    (attempt : LinkAttempt) (parent : NodeIndex) :
    childrenOfAttempts keys (attempts ++ [attempt]) parent =
      if attempt.admitted keys = true ∧ attempt.parent = parent ∧
          attempt.child ∉ childrenOfAttempts keys attempts parent then
        childrenOfAttempts keys attempts parent ++ [attempt.child]
      else childrenOfAttempts keys attempts parent := by
  simp only [childrenOfAttempts, List.filter_append, List.map_append, List.filter_cons,
    List.filter_nil, List.mem_eraseDups]
  by_cases admitted : attempt.admitted keys = true
  · by_cases here : attempt.parent = parent
    · simp only [admitted, here, beq_self_eq_true, Bool.and_self, if_true, List.map_singleton,
        eraseDups_snoc, true_and]
      split <;> simp_all
    · simp [here]
  · simp [admitted]

theorem mem_childrenOfAttempts {keys : List NodeKey} {attempts : List LinkAttempt}
    {parent child : NodeIndex} :
    child ∈ childrenOfAttempts keys attempts parent ↔
      ∃ attempt ∈ attempts, attempt.admitted keys = true ∧ attempt.parent = parent ∧
        attempt.child = child := by
  simp only [childrenOfAttempts, List.mem_eraseDups, List.mem_map, List.mem_filter,
    Bool.and_eq_true, beq_iff_eq]
  constructor
  · rintro ⟨attempt, ⟨member, admitted, isParent⟩, isChild⟩
    exact ⟨attempt, member, admitted, isParent, isChild⟩
  · rintro ⟨attempt, member, admitted, isParent, isChild⟩
    exact ⟨attempt, ⟨member, admitted, isParent⟩, isChild⟩

namespace Assembly

/-- The keys are those there were, and children and origins come from admitted attempts. -/
structure Links (assembly : Assembly) (keys : List NodeKey) (attempts : List LinkAttempt) :
    Prop where
  keyed : assembly.model.keys = keys
  children : ∀ parent, assembly.model.childIndices parent = childrenOfAttempts keys attempts parent
  origins : ∀ origin ∈ assembly.origins,
    ∃ attempt ∈ attempts, attempt.admitted keys = true ∧ origin = attempt.origin

theorem Links.connect {assembly : Assembly} {keys : List NodeKey} {attempts : List LinkAttempt}
    {attempt : LinkAttempt} (links : assembly.Links keys attempts)
    (bound : attempt.parent < keys.length) (admitted : attempt.admitted keys = true) :
    (assembly.connect attempt).Links keys (attempts ++ [attempt]) := by
  have nodeBound : attempt.parent < assembly.model.nodes.length := by
    rw [← links.keyed] at bound
    simpa [FeatureModel.keys] using bound
  have kept : ∀ origin ∈ assembly.origins,
      ∃ known ∈ attempts ++ [attempt], known.admitted keys = true ∧ origin = known.origin := by
    intro origin member
    obtain ⟨known, knownMember, facts⟩ := links.origins origin member
    exact ⟨known, List.mem_append_left _ knownMember, facts⟩
  have present : assembly.model.hasEdge attempt.parent attempt.child = true ↔
      attempt.child ∈ childrenOfAttempts keys attempts attempt.parent := by
    rw [FeatureModel.hasEdge, links.children, List.contains_iff_mem]
  rw [Assembly.connect]
  by_cases known : attempt.child ∈ childrenOfAttempts keys attempts attempt.parent
  · rw [if_pos (present.mpr known)]
    refine ⟨links.keyed, ?_, kept⟩
    intro parent
    rw [links.children, childrenOfAttempts_snoc, if_neg]
    rintro ⟨_, here, fresh⟩
    exact fresh (here ▸ known)
  · rw [if_neg (known ∘ present.mp)]
    refine ⟨(FeatureModel.keys_addEdge _ _ _).trans links.keyed, ?_, ?_⟩
    · intro parent
      refine (FeatureModel.childIndices_addEdge nodeBound attempt.child parent).trans ?_
      rw [childrenOfAttempts_snoc, links.children, links.children]
      by_cases here : parent = attempt.parent
      · subst here
        simp [admitted, known]
      · simp [here, Ne.symm here]
    · intro origin member
      rcases List.mem_append.mp member with old | new
      · exact kept origin old
      · exact ⟨attempt, by simp, admitted, List.mem_singleton.mp new⟩

theorem Links.pass {assembly changed : Assembly} {keys : List NodeKey}
    {attempts : List LinkAttempt} {attempt : LinkAttempt} (links : assembly.Links keys attempts)
    (nodes : changed.model.nodes = assembly.model.nodes)
    (origins : changed.origins = assembly.origins) (refused : attempt.admitted keys = false) :
    changed.Links keys (attempts ++ [attempt]) := by
  have sameKeys : changed.model.keys = assembly.model.keys := by
    rw [FeatureModel.keys, nodes, FeatureModel.keys]
  refine ⟨sameKeys.trans links.keyed, ?_, ?_⟩
  · intro parent
    rw [childrenOfAttempts_snoc, ← links.children, FeatureModel.childIndices, nodes,
      FeatureModel.childIndices]
    simp [refused]
  · intro origin member
    rw [origins] at member
    obtain ⟨known, knownMember, facts⟩ := links.origins origin member
    exact ⟨known, List.mem_append_left _ knownMember, facts⟩

theorem Links.link {assembly : Assembly} {keys : List NodeKey} {attempts : List LinkAttempt}
    {attempt : LinkAttempt} (links : assembly.Links keys attempts)
    (bound : attempt.parent < keys.length) :
    (assembly.link attempt).Links keys (attempts ++ [attempt]) := by
  simp only [Assembly.link, FeatureModel.keyAt_eq, links.keyed]
  by_cases self : attempt.parent = attempt.child
  · rw [if_pos self]
    exact links.pass rfl rfl (by simp [LinkAttempt.admitted, self])
  · rw [if_neg self]
    split
    · rename_i contains
      exact links.connect bound (by simp [LinkAttempt.admitted, self, contains])
    · rename_i excluded
      exact links.pass rfl rfl (by simp [LinkAttempt.admitted, excluded])

theorem Links.linkAll {assembly : Assembly} {keys : List NodeKey} (links : assembly.Links keys [])
    {attempts : List LinkAttempt} (bound : ∀ attempt ∈ attempts, attempt.parent < keys.length) :
    (assembly.linkAll attempts).Links keys attempts := by
  induction attempts using List.reverseRecOn with
  | nil => exact links
  | append_singleton attempts attempt ih =>
      rw [Assembly.linkAll, List.foldl_append]
      refine (ih ?_).link (bound attempt (by simp))
      exact fun other member => bound other (by simp [member])

theorem reportAll_model (assembly : Assembly) (diagnostics : List Diagnostic) :
    (assembly.reportAll diagnostics).model =
      { assembly.model with diagnostics := assembly.model.diagnostics ++ diagnostics } := by
  induction diagnostics using List.reverseRecOn with
  | nil => simp [reportAll]
  | append_singleton diagnostics diagnostic ih =>
      rw [reportAll] at ih
      rw [reportAll, List.foldl_append, List.foldl_cons, List.foldl_nil, report, note,
        FeatureModel.addDiagnostic, ih, List.append_assoc]

theorem reportAll_origins (assembly : Assembly) (diagnostics : List Diagnostic) :
    (assembly.reportAll diagnostics).origins = assembly.origins := by
  induction diagnostics using List.reverseRecOn with
  | nil => rfl
  | append_singleton diagnostics diagnostic ih =>
      rw [reportAll, List.foldl_append]
      exact ih

theorem Links.reportAll {assembly : Assembly} {keys : List NodeKey} {attempts : List LinkAttempt}
    (links : assembly.Links keys attempts) (diagnostics : List Diagnostic) :
    (assembly.reportAll diagnostics).Links keys attempts := by
  refine ⟨?_, ?_, ?_⟩
  · rw [reportAll_model]
    exact links.keyed
  · rw [reportAll_model]
    exact links.children
  · rw [reportAll_origins]
    exact links.origins

theorem Declares.links {assembly : Assembly} {mappings : List Mapping}
    (declares : assembly.Declares mappings) : assembly.Links (nodeKeys mappings) [] := by
  refine ⟨declares.keys, ?_, ?_⟩
  · intro parent
    rw [FeatureModel.childIndices]
    cases found : assembly.model.nodes[parent]? with
    | none => rfl
    | some node => exact (declares.unlinked node (List.mem_of_getElem? found)).1
  · simp [declares.unoriginated]

end Assembly

/-! The attempts of a scan. -/

theorem nodesOf?_bound {mappings : List Mapping} {id : ElementId} {nodes : List NodeIndex}
    (placed : nodesOf? mappings id = some nodes) :
    ∀ node ∈ nodes, node < (nodeKeys mappings).length := by
  rw [nodesOf?, Option.ite_none_right_eq_some, Option.some.injEq] at placed
  obtain ⟨_, rfl⟩ := placed
  intro node member
  obtain ⟨key, keyMember, rfl⟩ := List.mem_map.mp member
  exact List.idxOf_lt_length_of_mem (mem_nodeKeys_of_mem_keysOf keyMember)

theorem mem_attemptsFor {tree : SourceTree} {nodesOf? : ElementId → Option (List NodeIndex)}
    {id : ElementId} {attempt : LinkAttempt} (member : attempt ∈ attemptsFor tree nodesOf? id) :
    (∃ nodes, nodesOf? id = some nodes ∧ attempt.child ∈ nodes) ∧
      ∃ above nodes, nodesOf? above = some nodes ∧ attempt.parent ∈ nodes := by
  rw [attemptsFor] at member
  split at member
  · rename_i element nodes ancestor above found placed nearest
    obtain ⟨child, childMember, attempted⟩ := List.mem_flatMap.mp member
    obtain ⟨parent, parentMember, rfl⟩ := List.mem_map.mp attempted
    refine ⟨⟨nodes, placed, childMember⟩, ancestor.id, above, ?_, parentMember⟩
    rw [nearestPlaced?] at nearest
    obtain ⟨other, _, mapped⟩ := List.exists_of_findSome?_eq_some nearest
    obtain ⟨_, abovePlaced, same⟩ := Option.map_eq_some_iff.mp mapped
    rw [Prod.mk.injEq] at same
    rw [← same.1, ← same.2, abovePlaced]
  · simp at member

namespace Scan

def mappings (scan : Scan) : List Mapping := mappingsOf scan.pairs

def attempts (scan : Scan) : List LinkAttempt :=
  linkAttempts scan.tree (nodesOf? scan.mappings) (mappedIds scan.mappings)

theorem attempts_bound {scan : Scan} {attempt : LinkAttempt} (member : attempt ∈ scan.attempts) :
    attempt.parent < (nodeKeys scan.mappings).length ∧
      attempt.child < (nodeKeys scan.mappings).length := by
  obtain ⟨_, _, own⟩ := List.mem_flatMap.mp member
  obtain ⟨⟨_, placed, isChild⟩, _, _, abovePlaced, isParent⟩ := mem_attemptsFor own
  exact ⟨nodesOf?_bound abovePlaced _ isParent, nodesOf?_bound placed _ isChild⟩

theorem declared_attempts (scan : Scan) :
    linkAttempts scan.tree (({} : Assembly).declareAll scan.pairs).mapped.get?
      (({} : Assembly).declareAll scan.pairs).mappedOrder = scan.attempts := by
  have declares := Assembly.declareAll_declares scan.pairs
  rw [declares.mapped, declares.order]
  rfl

theorem contain_links (scan : Scan) :
    ((({} : Assembly).declareAll scan.pairs).contain scan.tree).Links (nodeKeys scan.mappings)
      scan.attempts := by
  have declares := Assembly.declareAll_declares scan.pairs
  rw [Assembly.contain, declared_attempts]
  exact declares.links.linkAll fun attempt member => (attempts_bound member).1

theorem ofScan_links (scan : Scan) :
    (Assembly.ofScan scan).Links (nodeKeys scan.mappings) scan.attempts :=
  scan.contain_links.reportAll _

theorem build_keys (scan : Scan) : scan.build.keys = nodeKeys scan.mappings :=
  scan.ofScan_links.keyed

theorem build_children (scan : Scan) (parent : NodeIndex) :
    scan.build.childIndices parent =
      childrenOfAttempts (nodeKeys scan.mappings) scan.attempts parent :=
  scan.ofScan_links.children parent

end Scan

end FeatureAtlas
