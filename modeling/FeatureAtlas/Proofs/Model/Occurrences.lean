import FeatureAtlas.Proofs.Model.Expansion

/-!
What the nested view shows. Every node has one occurrence without a mark, which has an occurrence
for every edge from the node; marked occurrences are leaves, and the mark says whether the node is
around the occurrence or came before it.
-/

namespace FeatureAtlas

namespace Occurrence

def flagged (occurrence : Occurrence) : Bool := occurrence.cycle || occurrence.repeated

def shown (occurrence : Occurrence) : NodeKey × Nat × List NodeKey :=
  (occurrence.key, occurrence.memberCount, occurrence.children.map Occurrence.key)

end Occurrence

/-- An occurrence in a view, with the keys of those around it, innermost first. -/
structure Site where
  above : List NodeKey
  occurrence : Occurrence

namespace Occurrence

mutual

def sites (above : List NodeKey) : Occurrence → List Site
  | { key, memberCount, children, cycle, repeated } =>
      { above, occurrence := { key, memberCount, children, cycle, repeated } } ::
        sitesAll (key :: above) children

def sitesAll (above : List NodeKey) : List Occurrence → List Site
  | [] => []
  | occurrence :: rest => occurrence.sites above ++ sitesAll above rest

end

theorem sites_eq (above : List NodeKey) (occurrence : Occurrence) :
    occurrence.sites above =
      { above, occurrence } :: sitesAll (occurrence.key :: above) occurrence.children := by
  cases occurrence
  rw [sites]

@[simp] theorem sitesAll_nil (above : List NodeKey) : sitesAll above [] = [] := by
  rw [sitesAll]

theorem sitesAll_cons (above : List NodeKey) (occurrence : Occurrence) (rest : List Occurrence) :
    sitesAll above (occurrence :: rest) = { above, occurrence } ::
      (sitesAll (occurrence.key :: above) occurrence.children ++ sitesAll above rest) := by
  rw [sitesAll, sites_eq, List.cons_append]

mutual

theorem preorder_eq (above : List NodeKey) : (occurrence : Occurrence) →
    occurrence.preorder above.length =
      (occurrence.sites above).map fun site => (site.above.length, site.occurrence)
  | { key, memberCount, children, cycle, repeated } => by
      rw [preorder, sites, List.map_cons, ← preorderAll_eq (key :: above) children]
      rfl

theorem preorderAll_eq (above : List NodeKey) : (view : List Occurrence) →
    preorderAll above.length view =
      (sitesAll above view).map fun site => (site.above.length, site.occurrence)
  | [] => by rw [preorderAll, sitesAll, List.map_nil]
  | occurrence :: rest => by
      rw [preorderAll, sitesAll, List.map_append, ← preorder_eq above occurrence,
        ← preorderAll_eq above rest]

end

def childCount (sites : List Site) : Nat :=
  (sites.map fun site => site.occurrence.children.length).sum

@[simp] theorem childCount_append (first second : List Site) :
    childCount (first ++ second) = childCount first + childCount second := by
  simp [childCount]

mutual

theorem length_sites (above : List NodeKey) : (occurrence : Occurrence) →
    (occurrence.sites above).length = childCount (occurrence.sites above) + 1
  | { key, memberCount, children, cycle, repeated } => by
      have inside := length_sitesAll (key :: above) children
      simp only [sites, List.length_cons, childCount, List.map_cons, List.sum_cons] at inside ⊢
      omega

theorem length_sitesAll (above : List NodeKey) : (view : List Occurrence) →
    (sitesAll above view).length = view.length + childCount (sitesAll above view)
  | [] => by simp [childCount]
  | occurrence :: rest => by
      have here := length_sites above occurrence
      have later := length_sitesAll above rest
      simp only [sitesAll, List.length_append, List.length_cons, childCount_append]
      omega

end

end Occurrence

/-! What the marks say. -/

/-- A site in its surroundings: marked ones are leaves, and a cycle is where the node is around. -/
structure Site.Fits (model : FeatureModel) (site : Site) : Prop where
  known : site.occurrence.key ∈ model.keys
  leaf : site.occurrence.flagged = true → site.occurrence.children = [] ∧
    ¬(site.occurrence.cycle = true ∧ site.occurrence.repeated = true)
  cycle : site.occurrence.cycle = true ↔ site.occurrence.key ∈ site.above

def unmarked (sites : List Site) : List Site :=
  sites.filter fun site => !site.occurrence.flagged

def openedKeys (sites : List Site) : List NodeKey :=
  (unmarked sites).map fun site => site.occurrence.key

@[simp] theorem unmarked_append (first second : List Site) :
    unmarked (first ++ second) = unmarked first ++ unmarked second := by
  simp [unmarked]

@[simp] theorem openedKeys_append (first second : List Site) :
    openedKeys (first ++ second) = openedKeys first ++ openedKeys second := by
  simp [openedKeys]

theorem unmarked_cons_of_flagged {site : Site} (flagged : site.occurrence.flagged = true)
    (rest : List Site) : unmarked (site :: rest) = unmarked rest := by
  simp [unmarked, flagged]

theorem unmarked_cons_of_not {site : Site} (plain : site.occurrence.flagged = false)
    (rest : List Site) : unmarked (site :: rest) = site :: unmarked rest := by
  simp [unmarked, plain]

/-- Along the sites, a node is repeated where it is not around but has been opened. -/
def RepeatsOpened (opened : List NodeKey) : List Site → Prop
  | [] => True
  | site :: rest =>
      (site.occurrence.repeated = true ↔
        site.occurrence.key ∉ site.above ∧ site.occurrence.key ∈ opened) ∧
        RepeatsOpened ((openedKeys [site]).reverse ++ opened) rest

theorem repeatsOpened_append (opened : List NodeKey) (first second : List Site) :
    RepeatsOpened opened (first ++ second) ↔
      RepeatsOpened opened first ∧ RepeatsOpened ((openedKeys first).reverse ++ opened) second := by
  induction first generalizing opened with
  | nil => simp [RepeatsOpened, openedKeys, unmarked]
  | cons site rest ih =>
      have keys : openedKeys (site :: rest) = openedKeys [site] ++ openedKeys rest :=
        openedKeys_append [site] rest
      rw [List.cons_append, RepeatsOpened, ih, RepeatsOpened, keys, List.reverse_append,
        List.append_assoc, and_assoc]

namespace FeatureModel

variable {model : FeatureModel}

theorem Woven.keyAt_inj (woven : model.Woven) {first second : NodeIndex}
    (firstBound : first < model.nodes.length) (secondBound : second < model.nodes.length) :
    model.keyAt first = model.keyAt second ↔ first = second := by
  constructor
  · intro same
    have stored (index : NodeIndex) (bound : index < model.nodes.length) :
        model.keys[index]? = some (model.keyAt index) := by
      rw [keys, List.getElem?_map, keyAt, List.getElem?_eq_getElem bound]
      rfl
    refine (List.getElem?_inj (by simpa [keys] using firstBound) woven.distinct).mp ?_
    rw [stored first firstBound, stored second secondBound, same]
  · exact fun same => same ▸ rfl

theorem Woven.mem_map_keyAt (woven : model.Woven) {indices : List NodeIndex}
    (bound : ∀ index ∈ indices, index < model.nodes.length) {index : NodeIndex}
    (here : index < model.nodes.length) :
    model.keyAt index ∈ indices.map model.keyAt ↔ index ∈ indices := by
  constructor
  · intro member
    obtain ⟨other, otherMember, same⟩ := List.mem_map.mp member
    rwa [← (woven.keyAt_inj (bound other otherMember) here).mp same]
  · exact fun member => List.mem_map_of_mem member

def entryAt (model : FeatureModel) (index : NodeIndex) : NodeKey × Nat × List NodeKey :=
  (model.keyAt index, ((model.nodes[index]?).map fun node => node.members.length).getD 0,
    (model.childIndices index).map model.keyAt)

theorem Unfolds.map_key {path expanded pending final : List NodeIndex} {view : List Occurrence}
    (unfolds : model.Unfolds path expanded pending view final) :
    view.map Occurrence.key = pending.map model.keyAt := by
  induction unfolds with
  | done => rfl
  | closing _ _ ih => exact congrArg (model.keyAt _ :: ·) ih
  | again _ _ _ ih => exact congrArg (model.keyAt _ :: ·) ih
  | fresh _ _ _ _ _ ih => exact congrArg (model.keyAt _ :: ·) ih

theorem Unfolds.opened {path expanded pending final : List NodeIndex} {view : List Occurrence}
    (unfolds : model.Unfolds path expanded pending view final) (above : List NodeKey) :
    ∃ opened : List NodeIndex, final = opened.reverse ++ expanded ∧
      (unmarked (Occurrence.sitesAll above view)).map (fun site => site.occurrence.shown) =
        opened.map model.entryAt := by
  induction unfolds generalizing above with
  | done => exact ⟨[], rfl, by simp [unmarked]⟩
  | closing _ _ ih =>
      obtain ⟨opened, grown, entries⟩ := ih above
      refine ⟨opened, grown, ?_⟩
      rw [← entries, Occurrence.sitesAll_cons, unmarked_cons_of_flagged rfl, leafAt,
        Occurrence.sitesAll_nil, List.nil_append]
  | again _ _ _ ih =>
      obtain ⟨opened, grown, entries⟩ := ih above
      refine ⟨opened, grown, ?_⟩
      rw [← entries, Occurrence.sitesAll_cons, unmarked_cons_of_flagged rfl, leafAt,
        Occurrence.sitesAll_nil, List.nil_append]
  | @fresh _ _ index _ _ _ _ _ _ _ below _ ihBelow ih =>
      obtain ⟨inside, grownInside, entriesInside⟩ := ihBelow (model.keyAt index :: above)
      obtain ⟨later, grown, entries⟩ := ih above
      refine ⟨index :: inside ++ later, ?_, ?_⟩
      · rw [grown, grownInside]
        simp
      · rw [Occurrence.sitesAll_cons, unmarked_cons_of_not rfl, unmarked_append, List.map_cons,
          List.map_append, entries, List.cons_append, List.map_cons, List.map_append,
          ← entriesInside]
        exact congrArg (· :: _) (congrArg (fun keys => (_, _, keys)) below.map_key)

theorem Unfolds.openedKeys {path expanded pending final : List NodeIndex}
    {view : List Occurrence} (unfolds : model.Unfolds path expanded pending view final)
    (above : List NodeKey) :
    final.map model.keyAt = (openedKeys (Occurrence.sitesAll above view)).reverse ++
      expanded.map model.keyAt := by
  obtain ⟨opened, rfl, entries⟩ := unfolds.opened above
  have keys := congrArg (List.map Prod.fst) entries
  rw [List.map_map, List.map_map] at keys
  rw [List.map_append, List.map_reverse]
  exact congrArg (fun opened => List.reverse opened ++ _) keys.symm

theorem Unfolds.fits (woven : model.Woven) {path expanded pending final : List NodeIndex}
    {view : List Occurrence} (unfolds : model.Unfolds path expanded pending view final)
    (pathBound : ∀ index ∈ path, index < model.nodes.length)
    (pendingBound : ∀ index ∈ pending, index < model.nodes.length) :
    ∀ site ∈ Occurrence.sitesAll (path.map model.keyAt) view, site.Fits model := by
  induction unfolds with
  | done => simp
  | @closing path _ index _ view _ onPath _ ih =>
      have later := ih pathBound fun other member => pendingBound other (by simp [member])
      have here := (woven.mem_map_keyAt pathBound (pendingBound index (by simp))).mpr onPath
      rw [Occurrence.sitesAll_cons, leafAt, Occurrence.sitesAll_nil, List.nil_append]
      refine List.forall_mem_cons.mpr
        ⟨⟨mem_keys_of_lt (pendingBound index (by simp)), ?_, ?_⟩, later⟩
      · simp
      · exact iff_of_true rfl here
  | @again path _ index _ view _ offPath _ _ ih =>
      have later := ih pathBound fun other member => pendingBound other (by simp [member])
      have here := offPath ∘ (woven.mem_map_keyAt pathBound (pendingBound index (by simp))).mp
      rw [Occurrence.sitesAll_cons, leafAt, Occurrence.sitesAll_nil, List.nil_append]
      refine List.forall_mem_cons.mpr
        ⟨⟨mem_keys_of_lt (pendingBound index (by simp)), ?_, ?_⟩, later⟩
      · simp
      · exact iff_of_false (by simp) here
  | @fresh path _ index _ _ _ view _ offPath _ _ _ ihBelow ih =>
      have later := ih pathBound fun other member => pendingBound other (by simp [member])
      have here := offPath ∘ (woven.mem_map_keyAt pathBound (pendingBound index (by simp))).mp
      have inside := ihBelow
        (List.forall_mem_cons.mpr ⟨pendingBound index (by simp), pathBound⟩)
        fun _ member => (woven.inRange member).2
      rw [Occurrence.sitesAll_cons]
      refine List.forall_mem_cons.mpr
        ⟨⟨mem_keys_of_lt (pendingBound index (by simp)), ?_, iff_of_false (by simp [leafAt]) here⟩,
          List.forall_mem_append.mpr ⟨inside, later⟩⟩
      simp [Occurrence.flagged, leafAt]

theorem Unfolds.repeats (woven : model.Woven) {path expanded pending final : List NodeIndex}
    {view : List Occurrence} (unfolds : model.Unfolds path expanded pending view final)
    (pathBound : ∀ index ∈ path, index < model.nodes.length)
    (expandedBound : ∀ index ∈ expanded, index < model.nodes.length)
    (pendingBound : ∀ index ∈ pending, index < model.nodes.length) :
    RepeatsOpened (expanded.map model.keyAt)
      (Occurrence.sitesAll (path.map model.keyAt) view) := by
  induction unfolds with
  | done => simp [RepeatsOpened]
  | @closing path expanded index _ view _ onPath _ ih =>
      have later := ih pathBound expandedBound
        fun other member => pendingBound other (by simp [member])
      have here := (woven.mem_map_keyAt pathBound (pendingBound index (by simp))).mpr onPath
      rw [Occurrence.sitesAll_cons, leafAt, Occurrence.sitesAll_nil, List.nil_append]
      refine ⟨iff_of_false (by simp) fun marked => marked.1 here, ?_⟩
      exact later
  | @again path expanded index _ view _ offPath known _ ih =>
      have later := ih pathBound expandedBound
        fun other member => pendingBound other (by simp [member])
      have here := offPath ∘ (woven.mem_map_keyAt pathBound (pendingBound index (by simp))).mp
      rw [Occurrence.sitesAll_cons, leafAt, Occurrence.sitesAll_nil, List.nil_append]
      exact ⟨iff_of_true rfl ⟨here, List.mem_map_of_mem known⟩, later⟩
  | @fresh path expanded index _ below inner view _ offPath unknown unfoldsBelow _ ihBelow ih =>
      have indexBound := pendingBound index (by simp)
      have childBound : ∀ child ∈ model.childIndices index, child < model.nodes.length :=
        fun _ member => (woven.inRange member).2
      have grownBound : ∀ other ∈ index :: expanded, other < model.nodes.length :=
        List.forall_mem_cons.mpr ⟨indexBound, expandedBound⟩
      have inside := ihBelow (List.forall_mem_cons.mpr ⟨indexBound, pathBound⟩) grownBound
        childBound
      have innerBound := unfoldsBelow.bound (fun _ _ member => (woven.inRange member).2) childBound
        grownBound
      have later :=
        ih pathBound innerBound fun other member => pendingBound other (by simp [member])
      have new := unknown ∘ (woven.mem_map_keyAt expandedBound indexBound).mp
      rw [unfoldsBelow.openedKeys (model.keyAt index :: path.map model.keyAt)] at later
      rw [Occurrence.sitesAll_cons]
      refine ⟨iff_of_false (by simp [leafAt]) fun marked => new marked.2, ?_⟩
      exact (repeatsOpened_append _ _ _).mpr ⟨inside, later⟩

/-! The whole view. -/

structure Displays (model : FeatureModel) (view : List Occurrence) : Prop where
  known : ∀ site ∈ Occurrence.sitesAll [] view, site.occurrence.key ∈ model.keys
  once : ∀ node ∈ model.nodes, ∃ site,
    (unmarked (Occurrence.sitesAll [] view)).filter
      (fun other => other.occurrence.key == node.key) = [site] ∧
    site.occurrence.shown = (node.key, node.members.length, node.children.map model.keyAt)
  leaves : ∀ site ∈ Occurrence.sitesAll [] view, site.occurrence.flagged = true →
    site.occurrence.children = [] ∧
      ¬(site.occurrence.cycle = true ∧ site.occurrence.repeated = true)
  cycles : ∀ site ∈ Occurrence.sitesAll [] view,
    (site.occurrence.cycle = true ↔ site.occurrence.key ∈ site.above)
  repeats : ∀ before site after, Occurrence.sitesAll [] view = before ++ site :: after →
    (site.occurrence.repeated = true ↔
      site.occurrence.key ∉ site.above ∧ site.occurrence.key ∈ openedKeys before)
  tops : ∃ further : List NodeIndex, further.Sublist (List.range model.nodes.length) ∧
    view.map Occurrence.key = model.roots.map FeatureNode.key ++ further.map model.keyAt ∧
    (model.rootIndices ++ further).Pairwise fun first second =>
      ¬Relation.ReflTransGen model.Edge first second
  total : (Occurrence.preorderAll 0 view).length = view.length + model.edgeCount

theorem map_range_nodes {β : Type} (value : Option FeatureNode → β) (model : FeatureModel) :
    (List.range model.nodes.length).map (fun index => value model.nodes[index]?) =
      model.nodes.map fun node => value (some node) := by
  refine List.ext_getElem (by simp) fun index here there => ?_
  have bound : index < model.nodes.length := by simpa using here
  simp [bound]

theorem map_key_roots (model : FeatureModel) :
    model.roots.map FeatureNode.key = model.rootIndices.map model.keyAt := by
  have found := map_range_nodes id model
  have kept : (List.range model.nodes.length).map (fun index => model.nodes[index]?) =
      model.nodes.map some := found
  calc model.roots.map FeatureNode.key
      = ((model.nodes.map some).filter fun node =>
          (node.map fun node => node.parents.isEmpty).getD false).map
            fun node => (node.map FeatureNode.key).getD default := by
        rw [List.filter_map, List.map_map]
        rfl
    _ = model.rootIndices.map model.keyAt := by
        rw [← kept, List.filter_map, List.map_map, rootIndices]
        refine congrArg (List.map _) (List.filter_congr fun index member => ?_)
        have bound := List.mem_range.mp member
        simp [isNested, bound]

theorem sum_childIndices_length (model : FeatureModel) :
    ((List.range model.nodes.length).map fun index => (model.childIndices index).length).sum =
      model.edgeCount := by
  rw [edgeCount_eq, childTotal]
  exact congrArg List.sum
    (map_range_nodes (fun node => ((node.map FeatureNode.children).getD []).length) model)

theorem childCount_eq_unmarked {sites : List Site}
    (leaves : ∀ site ∈ sites, site.occurrence.flagged = true → site.occurrence.children = []) :
    Occurrence.childCount sites = Occurrence.childCount (unmarked sites) := by
  induction sites with
  | nil => rfl
  | cons site rest ih =>
      have later := ih fun other member => leaves other (List.mem_cons_of_mem _ member)
      cases flagged : site.occurrence.flagged with
      | true =>
          have leaf := leaves site (by simp) flagged
          rw [unmarked_cons_of_flagged flagged, ← later]
          simp [Occurrence.childCount, leaf]
      | false =>
          rw [unmarked_cons_of_not flagged]
          simp only [Occurrence.childCount, List.map_cons, List.sum_cons] at later ⊢
          rw [later]

theorem Woven.eq_of_reaches_root (woven : model.Woven) {root : NodeIndex}
    (isRoot : root ∈ model.rootIndices) {first : NodeIndex}
    (reaches : Relation.ReflTransGen model.Edge first root) : first = root := by
  obtain ⟨bound, free⟩ := List.mem_filter.mp isRoot
  rcases reaches.cases_tail with same | ⟨parent, _, edge⟩
  · exact same.symm
  · have above := (woven.mirrored parent root).mp edge
    have bound := List.mem_range.mp bound
    simp [isNested, bound] at free
    simp [parentIndices, bound, free] at above

theorem Unfolds.entries {tops final : List NodeIndex} {view : List Occurrence}
    (unfolds : model.Unfolds [] [] tops view final)
    (all : final.Perm (List.range model.nodes.length)) :
    ∃ opened : List NodeIndex, opened.Perm (List.range model.nodes.length) ∧
      (unmarked (Occurrence.sitesAll [] view)).map (fun site => site.occurrence.shown) =
        opened.map model.entryAt := by
  obtain ⟨opened, grown, entries⟩ := unfolds.opened []
  refine ⟨opened, ?_, entries⟩
  rw [grown, List.append_nil] at all
  exact (List.reverse_perm opened).symm.trans all

theorem Unfolds.once (woven : model.Woven) {tops final : List NodeIndex} {view : List Occurrence}
    (unfolds : model.Unfolds [] [] tops view final)
    (all : final.Perm (List.range model.nodes.length)) {index : NodeIndex}
    (here : index < model.nodes.length) :
    ∃ site, (unmarked (Occurrence.sitesAll [] view)).filter
        (fun other => other.occurrence.key == model.keyAt index) = [site] ∧
      site.occurrence.shown = model.entryAt index := by
  obtain ⟨opened, perm, entries⟩ := unfolds.entries all
  have member := perm.mem_iff.mpr (List.mem_range.mpr here)
  have bound : ∀ other ∈ opened, other < model.nodes.length :=
    fun other isOpened => List.mem_range.mp (perm.mem_iff.mp isOpened)
  obtain ⟨before, after, rfl⟩ := List.append_of_mem member
  have distinct := List.nodup_middle.mp (perm.nodup_iff.mpr List.nodup_range)
  rw [List.map_append, List.map_cons] at entries
  obtain ⟨first, rest, split, firstEntries, restEntries⟩ := List.map_eq_append_iff.mp entries
  obtain ⟨site, second, rfl, entry, secondEntries⟩ := List.map_eq_cons_iff.mp restEntries
  have others {sites : List Site} {indices : List NodeIndex}
      (same : sites.map (fun site => site.occurrence.shown) = indices.map model.entryAt)
      (part : indices ⊆ before ++ after) :
      sites.filter (fun other => other.occurrence.key == model.keyAt index) = [] := by
    refine List.filter_eq_nil_iff.mpr fun other isOther equal => ?_
    obtain ⟨position, isPosition, shown⟩ := List.mem_map.mp
      (same ▸ List.mem_map_of_mem isOther :
        other.occurrence.shown ∈ indices.map model.entryAt)
    have key : model.keyAt position = other.occurrence.key := congrArg Prod.fst shown
    have within := part isPosition
    have known : position < model.nodes.length := bound position <| by
      rcases List.mem_append.mp within with early | late
      · exact List.mem_append_left _ early
      · exact List.mem_append_right _ (List.mem_cons_of_mem _ late)
    have equal := (woven.keyAt_inj known here).mp (key.trans (beq_iff_eq.mp equal))
    exact (List.nodup_cons.mp distinct).1 (equal ▸ within)
  refine ⟨site, ?_, entry⟩
  have key : site.occurrence.key = model.keyAt index := congrArg Prod.fst entry
  rw [split, List.filter_append, others firstEntries (List.subset_append_left _ _),
    List.filter_cons, if_pos (beq_iff_eq.mpr key),
    others secondEntries (List.subset_append_right _ _), List.nil_append]

theorem Unfolds.total {tops final : List NodeIndex} {view : List Occurrence}
    (unfolds : model.Unfolds [] [] tops view final)
    (all : final.Perm (List.range model.nodes.length))
    (leaves : ∀ site ∈ Occurrence.sitesAll [] view, site.occurrence.flagged = true →
      site.occurrence.children = []) :
    (Occurrence.preorderAll 0 view).length = view.length + model.edgeCount := by
  obtain ⟨opened, perm, entries⟩ := unfolds.entries all
  have counts := congrArg (List.map fun shown : NodeKey × Nat × List NodeKey => shown.2.2.length)
    entries
  rw [List.map_map, List.map_map] at counts
  have counted : Occurrence.childCount (Occurrence.sitesAll [] view) = model.edgeCount := by
    rw [childCount_eq_unmarked leaves, ← sum_childIndices_length, ← (perm.map _).sum_nat]
    refine congrArg List.sum (Eq.trans ?_ (counts.trans ?_))
    · exact List.map_congr_left fun site _ => by simp [Occurrence.shown]
    · exact List.map_congr_left fun index _ => by simp [entryAt]
  have sites := Occurrence.preorderAll_eq [] view
  rw [List.length_nil] at sites
  rw [sites, List.length_map, Occurrence.length_sitesAll, counted]

theorem Woven.displays_nestedView (woven : model.Woven) : model.Displays model.nestedView := by
  obtain ⟨further, final, unfolds, chosen, rootsApart, furtherApart, all⟩ :=
    nestedView_unfolds fun _ _ member => (woven.inRange member).2
  have topBound : ∀ top ∈ model.rootIndices ++ further, top < model.nodes.length := by
    intro top member
    rcases List.mem_append.mp member with root | late
    · exact List.mem_range.mp (List.mem_filter.mp root).1
    · exact List.mem_range.mp (chosen.subset late)
  have fits := unfolds.fits woven (by simp) topBound
  have repeats : RepeatsOpened [] (Occurrence.sitesAll [] model.nestedView) :=
    unfolds.repeats woven (by simp) (by simp) topBound
  have leaves := fun site member flagged => ((fits site member).leaf flagged).1
  constructor
  · exact fun site member => (fits site member).known
  · intro node member
    obtain ⟨index, here, rfl⟩ := List.getElem_of_mem member
    obtain ⟨site, only, entry⟩ := unfolds.once woven all here
    have key : model.keyAt index = model.nodes[index].key := by simp [keyAt, here]
    refine ⟨site, key ▸ only, entry.trans ?_⟩
    simp [entryAt, keyAt, childIndices, here]
  · exact fun site member => (fits site member).leaf
  · exact fun site member => (fits site member).cycle
  · intro before site after split
    rw [split] at repeats
    have here := ((repeatsOpened_append _ _ _).mp repeats).2
    rw [List.append_nil] at here
    simpa using here.1
  · refine ⟨further, chosen, ?_, ?_⟩
    · rw [unfolds.map_key, List.map_append, map_key_roots]
    · refine List.pairwise_append.mpr ⟨?_, furtherApart, rootsApart⟩
      have increasing : model.rootIndices.Nodup := List.nodup_range.filter _
      refine increasing.imp_of_mem fun {first second} _ isRoot different reaches => ?_
      exact different (woven.eq_of_reaches_root isRoot reaches)
  · exact unfolds.total all leaves

/-- The nested view of a built model shows every node and every edge once. The rules of the view
have no bound on the depth, so the traversal ends on every graph whose edges lead to nodes. -/
theorem nestedView_shows_once :
    (∀ scan : Scan, scan.build.Displays scan.build.nestedView) ∧
      ∀ model : FeatureModel,
        (∀ parent child, child ∈ model.childIndices parent → child < model.nodes.length) →
        ∃ tops final, model.Unfolds [] [] tops model.nestedView final := by
  constructor
  · exact fun scan => scan.build_coherent.toWoven.displays_nestedView
  · intro model inRange
    obtain ⟨further, final, unfolds, _⟩ := nestedView_unfolds inRange
    exact ⟨_, final, unfolds⟩

theorem pair_nestedView :
    (∀ parent child, child ∈ pair.childIndices parent → child < pair.nodes.length) ∧
      ∃ tops final, pair.Unfolds [] [] tops pair.nestedView final := by
  have inRange : ∀ parent child, child ∈ pair.childIndices parent → child < pair.nodes.length := by
    intro parent child member
    rcases parent with _ | _ | parent
    · simp_all [pair, childIndices]
    · simp_all [pair, childIndices]
    · simp [pair, childIndices] at member
  exact ⟨inRange, nestedView_shows_once.2 pair inRange⟩

end FeatureModel

end FeatureAtlas
