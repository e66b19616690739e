import FeatureAtlas.Proofs.Json.Records
import FeatureAtlas.Proofs.Store.DocumentRows
import FeatureAtlas.Store.Load

/-!
Reading a document back from its rows. Each table gives the records of the document in their order,
and members and edges find their nodes again by position.
-/

namespace FeatureAtlas

theorem mapM_ok {ε α β : Type} {items : List α} {f : α → Except ε β} {g : α → β}
    (reads : ∀ item ∈ items, f item = .ok (g item)) :
    items.mapM f = .ok (items.map g) := by
  induction items with
  | nil => rfl
  | cons item items ih =>
      rw [List.mapM_cons, reads item (by simp),
        ih fun other member => reads other (by simp [member])]
      rfl

theorem map_fst_zipIdx {α β : Type} (items : List α) (value : α → β) :
    (items.zipIdx.map fun place => value place.1) = items.map value := by
  have split := List.map_map (f := Prod.fst) (g := value) (l := items.zipIdx)
  rw [List.zipIdx_map_fst] at split
  exact split.symm

/-! Lists whose entries are changed by position. -/

theorem modify_append_cons {α : Type} (before : List α) (item : α) (after : List α)
    (change : α → α) :
    (before ++ item :: after).modify before.length change = before ++ change item :: after := by
  induction before with
  | nil => rfl
  | cons first before ih => simpa using ih

theorem map_modify_kept {α β : Type} {value : α → β} {change : α → α}
    (kept : ∀ item, value (change item) = value item) (items : List α) (index : Nat) :
    (items.modify index change).map value = items.map value := by
  refine List.ext_getElem? fun position => ?_
  rw [List.getElem?_map, List.getElem?_map, List.getElem?_modify]
  split
  · cases items[position]? <;> simp [kept]
  · simp

theorem foldl_modify_here {α β : Type} (put : β → α → α) (parts : List β) (before : List α)
    (item : α) (after : List α) :
    parts.foldl (fun items part => items.modify before.length (put part))
        (before ++ item :: after) =
      before ++ parts.foldl (fun item part => put part item) item :: after := by
  induction parts generalizing item with
  | nil => rfl
  | cons part parts ih => rw [List.foldl_cons, modify_append_cons, ih, List.foldl_cons]

theorem foldl_placed {α β γ : Type} (put : β → α → α) (parts : γ → List β) (base : γ → α)
    (records : List γ) (before : List α) :
    ((records.zipIdx before.length).flatMap fun place =>
        (parts place.1).zipIdx.map fun part => (place.2, part.2, part.1)).foldl
        (fun items place => items.modify place.1 (put place.2.2)) (before ++ records.map base) =
      before ++ records.map fun record =>
        (parts record).foldl (fun item part => put part item) (base record) := by
  induction records generalizing before with
  | nil => rfl
  | cons record records ih =>
      have here : ((parts record).zipIdx.map fun part => (before.length, part.2, part.1)).foldl
          (fun items place => items.modify place.1 (put place.2.2))
          (before ++ base record :: records.map base) =
          before ++ (parts record).foldl (fun item part => put part item) (base record) ::
            records.map base := by
        rw [List.foldl_map, ← foldl_modify_here, ← List.zipIdx_map_fst 0 (parts record),
          List.foldl_map, List.zipIdx_map_fst]
      have later := ih
        (before ++ [(parts record).foldl (fun item part => put part item) (base record)])
      rw [List.length_append, List.length_singleton, List.append_assoc, List.append_assoc] at later
      rw [List.zipIdx_cons, List.flatMap_cons, List.foldl_append, List.map_cons, here]
      exact later

theorem foldl_append_field {α β : Type} (field : α → List β) (put : α → List β → α)
    (field_put : ∀ item parts, field (put item parts) = parts)
    (put_put : ∀ item parts others, put (put item parts) others = put item others)
    (put_field : ∀ item, put item (field item) = item) (item : α) (parts : List β) :
    parts.foldl (fun item part => put item (field item ++ [part])) item =
      put item (field item ++ parts) := by
  induction parts generalizing item with
  | nil => rw [List.append_nil, put_field, List.foldl_nil]
  | cons part parts ih =>
      rw [List.foldl_cons, ih, field_put, put_put, List.append_assoc, List.singleton_append]

structure Ledger.Keeps (ledger : Ledger) (document : ModelDocument) (snapshot : Snapshot) :
    Prop where
  owned : ∀ table ∈ Schema.parts, ∀ entry ∈ ledger table.1,
    ∃ owner, entry.2.cell "snapshot_id" = .text owner
  mine : ∀ table ∈ Schema.parts,
    (ledger.of snapshot.id table.1).map Prod.snd = tableRows table.1 (document.rows snapshot)

theorem Database.partRows_holding {α β : Type} {ledger : Ledger} {document : ModelDocument}
    {snapshot : Snapshot} (keeps : ledger.Keeps document snapshot) {name : String} {schema : Table}
    (member : (name, schema) ∈ Schema.parts) {items : List α} {row : α → Row}
    (rows : tableRows name (document.rows snapshot) = items.map row)
    (order columns : List String) (read : Row → Except DatabaseError β) (value : α → β)
    (before : (items.map row).Pairwise (Row.Before order))
    (numeric : ∀ column ∈ order, Column.requiredNumber column ∈ schema.columns)
    (known : ∀ column ∈ columns, column ∈ schema.columns.map Column.name)
    (reads : ∀ number, ∀ item ∈ items,
      read (schema.numbered number (row item)) = .ok (value item)) :
    (holding ledger).partRows snapshot.id name order columns read = .ok (items.map value) := by
  have regular := Schema.regular_of_mem (Schema.mem_migrated member)
  have column := Schema.ownerColumn_part member
  have table := table_holding ledger (Schema.mem_migrated member)
  have required := Table.requireColumns_holding schema (ledger name) columns
    fun column isColumn => .inr (known column isColumn)
  have mine := (keeps.mine _ member).trans rows
  have sorted : (ledger.of snapshot.id name).Pairwise fun earlier later =>
      Row.precedes order (schema.numbered earlier.1 earlier.2)
        (schema.numbered later.1 later.2) = true := by
    have before := List.pairwise_map.mp (mine ▸ before)
    exact before.imp fun both => Table.precedes_of_before regular numeric both _ _
  have selected := select_of (Schema.stored_of_part member)
    (column.symm ▸ keeps.owned _ member) snapshot.id
    (fun column isColumn => List.mem_map.mpr ⟨_, numeric column isColumn, rfl⟩) sorted
  rw [column] at selected
  rw [partRows, bind_ok table, bind_ok required, bind_ok selected, mapM_entries mine reads]
  rfl

theorem readNamed_granularity (granularity : Granularity) :
    readNamed Granularity.ofName? granularity.name = .ok granularity := by
  cases granularity <;> rfl

theorem readNamed_featureType (featureType : FeatureType) :
    readNamed FeatureType.ofName? featureType.name = .ok featureType := by
  cases featureType <;> rfl

theorem readNamed_kind (kind : DiagnosticKind) :
    readNamed DiagnosticKind.ofName? kind.name = .ok kind := by
  cases kind <;> rfl

theorem readNamed_severity (severity : Severity) :
    readNamed Severity.ofName? severity.name = .ok severity := by
  cases severity <;> rfl

namespace Database

variable {ledger : Ledger} {document : ModelDocument} {snapshot : Snapshot}

theorem readNodes_holding (keeps : ledger.Keeps document snapshot) :
    (holding ledger).readNodes snapshot.id = .ok (document.nodes.map fun record =>
      { name := record.name, granularity := record.granularity }) := by
  have member : ("nodes", Schema.nodes) ∈ Schema.parts := by simp [Schema.parts]
  have rows := partRows_holding keeps member (document.nodes_rows snapshot)
    ["position"] ["name", "granularity"]
    (fun row => do return (← (row.cell "name").readText, ← (row.cell "granularity").readText))
    (fun place => (place.1.name, place.1.granularity.name))
    (pairwise_before_zipIdx "position" _ _ fun _ => rfl) (by decide) (by decide) (fun _ _ _ => rfl)
  rw [map_fst_zipIdx document.nodes fun record => (record.name, record.granularity.name)] at rows
  rw [readNodes, rows]
  refine (List.mapM_map ..).trans (mapM_ok fun record _ => ?_)
  simp only [Function.comp_apply, readNamed_granularity]
  rfl

theorem readMembers_holding (keeps : ledger.Keeps document snapshot) :
    (holding ledger).readMembers snapshot.id (document.nodes.map fun record =>
        { name := record.name, granularity := record.granularity }) =
      .ok (document.nodes.map fun record =>
        { name := record.name, granularity := record.granularity
          memberElements := record.memberElements }) := by
  have member : ("node_members", Schema.members) ∈ Schema.parts := by simp [Schema.parts]
  have rows := partRows_holding keeps member (document.members_rows snapshot)
    ["node_position", "position"] ["node_position", "qualified_name"]
    (fun row => do
      return (← (row.cell "node_position").readNatural, ← (row.cell "qualified_name").readText))
    (fun place => (place.1, place.2.2))
    (ModelDocument.pairwise_before_placed "node_position" "position" _ _ _ (fun _ => rfl)
      fun _ => rfl)
    (by decide) (by decide) (fun _ _ _ => rfl)
  have added := foldl_placed (fun member (record : NodeRecord) =>
      { record with memberElements := record.memberElements ++ [member] })
    NodeRecord.memberElements (fun record : NodeRecord =>
      ({ name := record.name, granularity := record.granularity } : NodeRecord)) document.nodes []
  rw [readMembers, rows]
  refine congrArg Except.ok ?_
  rw [addMembers, List.foldl_map]
  exact added.trans (List.map_congr_left fun record _ => foldl_append_field
    NodeRecord.memberElements (fun record members => { record with memberElements := members })
    (fun _ _ => rfl) (fun _ _ _ => rfl) (fun _ => rfl) _ record.memberElements)

theorem foldlM_addChild {places : List (Nat × Nat × NodeKey)} {positions : NodeKey → Nat}
    (nodes : List NodeRecord)
    (found : ∀ place ∈ places,
      (nodes.map NodeRecord.key)[positions place.2.2]? = some place.2.2) :
    (places.map fun place => (place.1, positions place.2.2)).foldlM
        (fun nodes (edge : Nat × Nat) => addChild nodes edge.1 edge.2) nodes =
      .ok (places.foldl (fun nodes place => nodes.modify place.1 fun record =>
        { record with children := record.children ++ [place.2.2] }) nodes) := by
  induction places generalizing nodes with
  | nil => rfl
  | cons place places ih =>
      have here := found place (by simp)
      rw [List.getElem?_map] at here
      obtain ⟨target, isTarget, key⟩ := Option.map_eq_some_iff.mp here
      have added : addChild nodes place.1 (positions place.2.2) =
          .ok (nodes.modify place.1 fun record =>
            { record with children := record.children ++ [place.2.2] }) := by
        rw [addChild, isTarget, ← key]
      have kept := map_modify_kept (fun record : NodeRecord =>
        (rfl : { record with children := record.children ++ [place.2.2] }.key = record.key))
        nodes place.1
      have later := ih _ fun other member => by
        rw [kept]
        exact found other (by simp [member])
      rw [List.map_cons, List.foldlM_cons, added]
      exact later

theorem readEdges_holding (sound : document.Sound) (keeps : ledger.Keeps document snapshot) :
    (holding ledger).readEdges snapshot.id (document.nodes.map fun record =>
        { name := record.name, granularity := record.granularity
          memberElements := record.memberElements }) = .ok document.nodes := by
  have member : ("edges", Schema.edges) ∈ Schema.parts := by simp [Schema.parts]
  have rows := partRows_holding keeps member (document.edges_rows snapshot)
    ["parent_position", "position"] ["parent_position", "child_position"]
    (fun row => do
      return (← (row.cell "parent_position").readNatural,
        ← (row.cell "child_position").readNatural))
    (fun place => (place.1, document.positionOf place.2.2))
    (ModelDocument.pairwise_before_placed "parent_position" "position" _ _ _ (fun _ => rfl)
      fun _ => rfl)
    (by decide) (by decide) (fun _ _ _ => rfl)
  have added := foldl_placed (fun child (record : NodeRecord) =>
      { record with children := record.children ++ [child] })
    NodeRecord.children (fun record : NodeRecord =>
      ({ name := record.name, granularity := record.granularity
         memberElements := record.memberElements } : NodeRecord)) document.nodes []
  rw [readEdges, rows]
  refine (foldlM_addChild _ ?_).trans (congrArg Except.ok (added.trans ?_))
  · intro place isPlace
    obtain ⟨node, isNode, isPart⟩ := List.mem_flatMap.mp isPlace
    obtain ⟨part, isChild, rfl⟩ := List.mem_map.mp isPart
    rw [List.map_map]
    exact (sound.key_positionOf (List.fst_mem_of_mem_zipIdx isNode)
      (List.fst_mem_of_mem_zipIdx isChild)).2
  · exact (List.map_congr_left fun record _ => foldl_append_field NodeRecord.children
      (fun record children => { record with children }) (fun _ _ => rfl) (fun _ _ _ => rfl)
      (fun _ => rfl) _ record.children).trans (List.map_id document.nodes)

theorem readFeatures_holding (keeps : ledger.Keeps document snapshot) :
    (holding ledger).readFeatures snapshot.id = .ok document.features := by
  have member : ("features", Schema.features) ∈ Schema.parts := by simp [Schema.parts]
  have rows := partRows_holding keeps member (document.features_rows snapshot)
    ["position"] ["element", "name", "description", "feature_type"]
    (fun row => do
      return ({ element := ← (row.cell "element").readText
                name := ← (row.cell "name").readText
                description := ← (row.cell "description").readText
                featureType := ← (row.cell "feature_type").readText } : FeatureTexts))
    (fun place =>
      { element := place.1.element, name := place.1.name, description := place.1.description
        featureType := place.1.featureType.name })
    (pairwise_before_zipIdx "position" _ _ fun _ => rfl) (by decide) (by decide) (fun _ _ _ => rfl)
  rw [readFeatures, rows]
  refine (List.mapM_map ..).trans ((mapM_ok (g := Prod.fst) fun place _ => ?_).trans ?_)
  · simp only [Function.comp_apply, readNamed_featureType]
    rfl
  · rw [List.zipIdx_map_fst]

theorem trimPadding_bracketed (characters : List Char) :
    trimPadding ('[' :: characters ++ [']']) = '[' :: characters ++ [']'] := by
  have front : isNumberPadding '[' = false := by decide
  have back : isNumberPadding ']' = false := by decide
  simp [trimPadding, front, back]

/-- A list of texts is not taken for a number, so the column for numbers keeps it as it is. -/
theorem adapt_elementsText (record : DiagnosticRecord) :
    Affinity.number.adapt (.text record.elementsText) = .text record.elementsText := by
  have noNumber : WrittenNumber.ofText? record.elementsText = none := by
    rw [DiagnosticRecord.elementsText, Json.compact, Json.compactChars, WrittenNumber.ofText?,
      String.toList_ofList, trimPadding_bracketed]
    rfl
  rw [Affinity.adapt, noNumber]
  rfl

theorem readDiagnostics_holding (keeps : ledger.Keeps document snapshot) :
    (holding ledger).readDiagnostics snapshot.id = .ok document.diagnostics := by
  have member : ("diagnostics", Schema.diagnostics) ∈ Schema.parts := by simp [Schema.parts]
  have rows := partRows_holding keeps member (document.diagnostics_rows snapshot)
    ["position"] ["kind", "severity", "message", "elements"]
    (fun row => do
      return ({ kind := ← (row.cell "kind").readText
                severity := ← (row.cell "severity").readText
                message := ← (row.cell "message").readText
                elements := ← (row.cell "elements").readText } : DiagnosticTexts))
    (fun place =>
      { kind := place.1.kind.name, severity := place.1.severity.name, message := place.1.message
        elements := place.1.elementsText })
    (pairwise_before_zipIdx "position" _ _ fun _ => rfl) (by decide) (by decide)
    (fun number place _ => by
      have regular := Schema.regular_of_mem (Schema.mem_migrated member)
      have elements := regular.cell_numbered
        (by decide : Column.requiredNumber "elements" ∈ Schema.diagnostics.columns) number
        (ModelDocument.diagnosticRow snapshot.id place)
      have given : (ModelDocument.diagnosticRow snapshot.id place).cell "elements" =
        .text place.1.elementsText := rfl
      simp only [Column.requiredNumber, given, adapt_elementsText] at elements
      simp only [elements]
      rfl)
  rw [readDiagnostics, rows]
  refine (List.mapM_map ..).trans ((mapM_ok (g := Prod.fst) fun place _ => ?_).trans ?_)
  · have elements := decodeText_compact_texts place.1.elements
    rw [← DiagnosticRecord.elementsText] at elements
    simp only [Function.comp_apply, readNamed_kind, readNamed_severity, elements]
    rfl
  · rw [List.zipIdx_map_fst]

theorem readDocument_holding (sound : document.Sound) (keeps : ledger.Keeps document snapshot) :
    (holding ledger).readDocument snapshot.id = .ok document := by
  have nodes := readNodes_holding keeps
  have members := readMembers_holding keeps
  have edges := readEdges_holding sound keeps
  have features := readFeatures_holding keeps
  have diagnostics := readDiagnostics_holding keeps
  rw [readDocument, bind_ok nodes, bind_ok members, bind_ok edges, bind_ok features,
    bind_ok diagnostics]
  rfl

end Database

end FeatureAtlas
