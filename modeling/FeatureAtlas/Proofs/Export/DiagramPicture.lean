import Mathlib.Data.List.Count
import FeatureAtlas.Proofs.Export.DiagramText
import FeatureAtlas.Proofs.Distinct

/-!
What can be read off a diagram. The first letters of a line tell what the line is, so the lines of
each kind can be told from all others; and from the lines of a kind one part of every node can be
read, but for the difference between two kinds of quotes in its name.
-/

namespace FeatureAtlas

theorem eq_of_append_cons {α : Type} {stop : α} {front other rest otherRest : List α}
    (free : stop ∉ front) (otherFree : stop ∉ other)
    (same : front ++ stop :: rest = other ++ stop :: otherRest) :
    front = other ∧ rest = otherRest := by
  induction front generalizing other with
  | nil =>
      cases other with
      | nil => exact ⟨rfl, (List.cons.inj same).2⟩
      | cons first behind =>
          have isStop : stop = first := (List.cons.inj same).1
          exact absurd (isStop ▸ List.mem_cons_self) otherFree
  | cons first behind ih =>
      cases other with
      | nil =>
          have isStop : first = stop := (List.cons.inj same).1
          exact absurd (isStop ▸ List.mem_cons_self) free
      | cons otherFirst otherBehind =>
          obtain ⟨firsts, rests⟩ := List.cons.inj same
          obtain ⟨fronts, ends⟩ := ih (List.not_mem_of_not_mem_cons free)
            (List.not_mem_of_not_mem_cons otherFree) rests
          exact ⟨by rw [firsts, fronts], ends⟩

theorem flatMap_ite {α β : Type} (items : List α) (condition : Prop) [Decidable condition]
    (parts : α → List β) :
    items.flatMap (fun item => if condition then parts item else []) =
      if condition then items.flatMap parts else [] := by
  by_cases holds : condition
  · simp only [if_pos holds]
  · simp only [if_neg holds]
    exact List.flatMap_eq_nil_iff.mpr fun _ _ => rfl

namespace Diagram

inductive LineKind where
  | frame
  | comment
  | opening
  | closing
  | arrow
  | note
deriving DecidableEq

def kindOf (line : String) : LineKind :=
  match line.toList with
  | '@' :: _ => .frame
  | '\'' :: _ => .comment
  | '\x7d' :: _ => .closing
  | 'N' :: _ => .arrow
  | 'n' :: _ | ' ' :: _ | 'e' :: 'n' :: 'd' :: _ => .note
  | _ => .opening

theorem kindOf_comment (diagnostic : Diagnostic) : kindOf (comment diagnostic) = .comment := by
  simp [kindOf, comment]

theorem kindOf_opening (index : NodeIndex) (key : NodeKey) :
    kindOf (opening index key) = .opening := by
  obtain ⟨name, level⟩ := key
  cases level <;> simp [kindOf, opening, shape]

theorem kindOf_arrow (parent child : NodeIndex) : kindOf (arrow parent child) = .arrow := by
  simp [kindOf, arrow, nodeName]

theorem kindOf_noteOpening (index : NodeIndex) : kindOf (noteOpening index) = .note := by
  simp [kindOf, noteOpening]

theorem kindOf_indented (name : String) : kindOf ("  " ++ name) = .note := by
  simp [kindOf]

/-! What a line tells. -/

theorem shape_injective : Function.Injective shape := by
  intro level other same
  cases level <;> cases other <;> first | rfl | exact absurd same (by decide)

theorem nodeName_injective : Function.Injective nodeName := by
  intro index other same
  have digits := congrArg String.toList ((String.append_right_inj "N").mp same)
  rw [show toString index = index.repr from rfl, show toString other = other.repr from rfl,
    Nat.toList_repr, Nat.toList_repr] at digits
  rw [← Nat.ofDigitChars_ten_toDigits (n := index), digits, Nat.ofDigitChars_ten_toDigits]

theorem nodeName_notMem {character : Char} (noDigit : character.isDigit = false)
    (other : character ≠ 'N') (index : NodeIndex) : character ∉ (nodeName index).toList := by
  rw [nodeName, String.toList_append, show toString index = index.repr from rfl, Nat.toList_repr,
    List.mem_append, not_or]
  refine ⟨by simpa using other, fun digit => ?_⟩
  rw [Nat.isDigit_of_mem_toDigits (by decide) (by decide) digit] at noDigit
  cases noDigit

theorem unquoted_notMem (name : String) : '"' ∉ (unquoted name).toList := by
  rw [unquoted, String.toList_ofList, List.mem_map]
  rintro ⟨character, _, same⟩
  split at same
  · cases same
  · contradiction

theorem arrow_inj {parent child otherParent otherChild : NodeIndex}
    (same : arrow parent child = arrow otherParent otherChild) :
    parent = otherParent ∧ child = otherChild := by
  have letters := congrArg String.toList same
  have sign : " *-- ".toList = ' ' :: "*-- ".toList := rfl
  simp only [arrow, String.toList_append, List.append_assoc, sign, List.cons_append] at letters
  obtain ⟨parents, rests⟩ := eq_of_append_cons (nodeName_notMem rfl (by decide) _)
    (nodeName_notMem rfl (by decide) _) letters
  exact ⟨nodeName_injective (String.toList_inj.mp parents),
    nodeName_injective (String.toList_inj.mp (List.append_cancel_left rests))⟩

theorem opening_letters (index : NodeIndex) (key : NodeKey) : ∃ rest,
    (opening index key).toList =
      (shape key.granularity ++ " ").toList ++ '"' :: ((unquoted key.name).toList ++ '"' ::
        (" as ".toList ++ ((nodeName index).toList ++ ' ' :: rest))) := by
  have name : (label key.name).toList = '"' :: ((unquoted key.name).toList ++ ['"']) := by
    simp [label, unquoted]
  refine ⟨("<<" ++ key.granularity.name ++ ">>" ++
    if hasBody key.granularity then " \x7b" else "").toList, ?_⟩
  simp [opening, name]

theorem opening_inj {index other : NodeIndex} {key otherKey : NodeKey}
    (same : opening index key = opening other otherKey) :
    index = other ∧ key.granularity = otherKey.granularity ∧
      unquoted key.name = unquoted otherKey.name := by
  obtain ⟨_, letters⟩ := opening_letters index key
  obtain ⟨_, otherLetters⟩ := opening_letters other otherKey
  rw [same, otherLetters] at letters
  have noQuote (level : Granularity) : '"' ∉ (shape level ++ " ").toList := by
    cases level <;> decide
  obtain ⟨shapes, behind⟩ := eq_of_append_cons (noQuote _) (noQuote _) letters
  obtain ⟨names, behind⟩ := eq_of_append_cons (unquoted_notMem _) (unquoted_notMem _) behind
  obtain ⟨nodes, _⟩ := eq_of_append_cons (nodeName_notMem rfl (by decide) _)
    (nodeName_notMem rfl (by decide) _) (List.append_cancel_left behind)
  have levels := shape_injective ((String.append_left_inj " ").mp (String.toList_inj.mp shapes))
  exact ⟨(nodeName_injective (String.toList_inj.mp nodes)).symm, levels.symm,
    (String.toList_inj.mp names).symm⟩

theorem noteLines_flatMap_injective {notes others : List (NodeIndex × List String)}
    (same : notes.flatMap noteLines = others.flatMap noteLines) : notes = others := by
  have noEnd (names : List String) : "end note" ∉ names.map fun name => "  " ++ name := by
    intro member
    obtain ⟨name, _, isEnd⟩ := List.mem_map.mp member
    have letters := congrArg (fun line => line.toList.head?) isEnd
    simp at letters
  induction notes generalizing others with
  | nil =>
      cases others with
      | nil => rfl
      | cons other rest =>
          rw [List.flatMap_cons, noteLines] at same
          cases same
  | cons note rest ih =>
      cases others with
      | nil =>
          rw [List.flatMap_cons, noteLines] at same
          cases same
      | cons other otherRest =>
          simp only [List.flatMap_cons, noteLines, List.cons_append, List.append_assoc,
            List.nil_append, List.cons.injEq] at same
          obtain ⟨openings, behind⟩ := same
          obtain ⟨names, rests⟩ := eq_of_append_cons (noEnd _) (noEnd _) behind
          have indices := nodeName_injective ((String.append_right_inj _).mp openings)
          have indent : Function.Injective fun name : String => "  " ++ name :=
            fun _ _ => (String.append_right_inj "  ").mp
          rw [ih rests, Prod.ext indices (List.map_injective_iff.mpr indent names)]

/-! The lines of one kind. -/

def linesOf (kind : LineKind) (lines : List String) : List String :=
  lines.filter fun line => decide (kindOf line = kind)

theorem linesOf_of_kind (kind : LineKind) {lines : List String}
    (all : ∀ line ∈ lines, kindOf line = kind) (wanted : LineKind) :
    linesOf wanted lines = if wanted = kind then lines else [] := by
  by_cases same : wanted = kind
  · rw [if_pos same, linesOf, List.filter_eq_self]
    exact fun line member => decide_eq_true ((all line member).trans same.symm)
  · rw [if_neg same, linesOf, List.filter_eq_nil_iff]
    intro line member isWanted
    exact same ((of_decide_eq_true isWanted).symm.trans (all line member))

theorem linesOf_frame {line : String} (frame : kindOf line = .frame) {wanted : LineKind}
    (other : wanted ≠ .frame) : linesOf wanted [line] = [] := by
  rw [linesOf_of_kind .frame (by simpa using frame), if_neg other]

theorem linesOf_comments (diagnostics : List Diagnostic) (wanted : LineKind) :
    linesOf wanted (diagnostics.map comment) =
      if wanted = .comment then diagnostics.map comment else [] := by
  apply linesOf_of_kind .comment
  intro line member
  obtain ⟨diagnostic, _, rfl⟩ := List.mem_map.mp member
  exact kindOf_comment diagnostic

theorem linesOf_declaration (index : NodeIndex) (key : NodeKey) {wanted : LineKind}
    (notClosing : wanted ≠ .closing) :
    linesOf wanted (declaration index key) =
      if wanted = .opening then [opening index key] else [] := by
  have isOpening : ∀ line ∈ [opening index key], kindOf line = .opening := by
    simp [kindOf_opening]
  have first := linesOf_of_kind .opening isOpening wanted
  have last : linesOf wanted (if hasBody key.granularity then ["\x7d"] else []) = [] := by
    rw [linesOf_of_kind .closing, if_neg notClosing]
    split <;> simp [kindOf]
  rw [declaration, ← List.singleton_append, linesOf, List.filter_append, ← linesOf, ← linesOf,
    first, last, List.append_nil]

theorem linesOf_arrows (index : NodeIndex) (node : FeatureNode) (wanted : LineKind) :
    linesOf wanted (arrows index node) =
      if wanted = .arrow then node.children.map (arrow index) else [] := by
  apply linesOf_of_kind .arrow
  intro line member
  obtain ⟨child, _, rfl⟩ := List.mem_map.mp member
  exact kindOf_arrow index child

theorem linesOf_noteLines (note : NodeIndex × List String) (wanted : LineKind) :
    linesOf wanted (noteLines note) = if wanted = .note then noteLines note else [] := by
  apply linesOf_of_kind .note
  intro line member
  rcases List.mem_cons.mp member with rfl | member
  · exact kindOf_noteOpening note.1
  · rcases List.mem_append.mp member with inside | ending
    · obtain ⟨name, _, rfl⟩ := List.mem_map.mp inside
      exact kindOf_indented name
    · rw [List.mem_singleton.mp ending]
      decide

end Diagram

namespace FeatureModel

open Diagram

/-! What stands at the nodes, read from lists of the parts of all of them. -/

theorem map_fst_numberedNodes (model : FeatureModel) :
    model.numberedNodes.map Prod.fst = List.range model.nodes.length :=
  List.map_fst_zip (by simp)

theorem mem_numberedNodes_iff {model : FeatureModel} {index : NodeIndex} {node : FeatureNode} :
    (index, node) ∈ model.numberedNodes ↔ model.nodes[index]? = some node := by
  rw [numberedNodes, List.mem_iff_getElem?]
  simp only [List.getElem?_zip_eq_some]
  constructor
  · rintro ⟨position, isIndex, isNode⟩
    have bound := (List.getElem?_eq_some_iff.mp isNode).1
    rw [List.getElem?_range bound, Option.some.injEq] at isIndex
    exact isIndex ▸ isNode
  · intro isNode
    exact ⟨index, List.getElem?_range (List.getElem?_eq_some_iff.mp isNode).1, isNode⟩

theorem nodup_numberedNodes (model : FeatureModel) : (model.numberedNodes.map Prod.fst).Nodup := by
  rw [map_fst_numberedNodes]
  exact List.nodup_range

theorem getElem_numberedNodes (model : FeatureModel) {index : NodeIndex}
    (bound : index < model.nodes.length) (inside : index < model.numberedNodes.length) :
    model.numberedNodes[index] = (index, model.nodes[index]) := by
  simp [numberedNodes]

def spread {β : Type} (model : FeatureModel) (parts : FeatureNode → List β) :
    List (NodeIndex × β) :=
  model.numberedNodes.flatMap fun numbered => (parts numbered.2).map (Prod.mk numbered.1)

section

variable {β : Type} {model other : FeatureModel}

theorem filter_spread (parts : FeatureNode → List β) (index : NodeIndex) :
    ((model.spread parts).filter fun part => part.1 == index).map Prod.snd =
      (model.nodes[index]?.map parts).getD [] := by
  have one (numbered : NodeIndex × FeatureNode) :
      (((parts numbered.2).map (Prod.mk numbered.1)).filter fun part => part.1 == index) =
        if numbered.1 = index then (parts numbered.2).map (Prod.mk numbered.1) else [] := by
    by_cases here : numbered.1 = index <;> simp [here, List.filter_map, Function.comp_def]
  rw [spread, List.filter_flatMap, List.map_flatMap]
  simp only [one]
  cases found : model.nodes[index]? with
  | none =>
      rw [Option.map_none, Option.getD_none, List.flatMap_eq_nil_iff]
      rintro ⟨position, node⟩ member
      have elsewhere : position ≠ index := by
        rintro rfl
        rw [mem_numberedNodes_iff, found] at member
        cases member
      rw [if_neg elsewhere, List.map_nil]
  | some node =>
      have member : (index, node) ∈ model.numberedNodes := mem_numberedNodes_iff.mpr found
      rw [flatMap_eq_of_nodup model.nodup_numberedNodes.of_map member]
      · simp [Function.comp_def]
      · rintro ⟨position, another⟩ isNode different
        have elsewhere : position ≠ index := by
          rintro rfl
          rw [mem_numberedNodes_iff, found, Option.some.injEq] at isNode
          exact different (by rw [isNode])
        rw [if_neg elsewhere, List.map_nil]

theorem map_eq_of_spread {parts : FeatureNode → List β}
    (length : model.nodes.length = other.nodes.length)
    (same : model.spread parts = other.spread parts) :
    model.nodes.map parts = other.nodes.map parts := by
  refine List.ext_getElem (by simpa using length) fun index bound otherBound => ?_
  rw [List.length_map] at bound otherBound
  have here := model.filter_spread parts index
  rw [same, filter_spread, List.getElem?_eq_getElem bound, List.getElem?_eq_getElem otherBound]
    at here
  simpa using here.symm

theorem count_pair [BEq β] [LawfulBEq β] (pairs : List (NodeIndex × β)) (index : NodeIndex)
    (value : β) : pairs.count (index, value) =
      ((pairs.filter fun part => part.1 == index).map Prod.snd).count value := by
  induction pairs with
  | nil => rfl
  | cons part rest ih =>
      obtain ⟨position, first⟩ := part
      have apart : ((position, first) == (index, value)) = (position == index && first == value) :=
        rfl
      rw [List.count_cons, ih, List.filter_cons, apart]
      by_cases here : position = index
      · rw [here, beq_self_eq_true, Bool.true_and, if_pos rfl, List.map_cons, List.count_cons]
      · rw [beq_false_of_ne here, Bool.false_and]
        rfl

end

/-! The lines of each kind in a diagram. -/

def notes (model : FeatureModel) : List (NodeIndex × List String) :=
  (model.numberedNodes.map fun numbered =>
    (numbered.1, ElementRef.names numbered.2.members)).filter fun note => !note.2.isEmpty

theorem flatMap_notes {β : Type} (model : FeatureModel)
    {parts : NodeIndex × List String → List β} (whole : NodeIndex → FeatureNode → List β)
    (inhabited : ∀ index node, node.members ≠ [] →
      whole index node = parts (index, ElementRef.names node.members))
    (bare : ∀ index node, node.members = [] → whole index node = []) :
    model.numberedNodes.flatMap (fun numbered => whole numbered.1 numbered.2) =
      model.notes.flatMap parts := by
  rw [notes]
  induction model.numberedNodes with
  | nil => rfl
  | cons numbered rest ih =>
      rw [List.flatMap_cons, ih, List.map_cons, List.filter_cons]
      by_cases empty : numbered.2.members = []
      · simp [bare _ _ empty, empty, ElementRef.names]
      · simp [inhabited _ _ empty, empty, ElementRef.names]

theorem membersNotes_eq (model : FeatureModel) :
    model.numberedNodes.flatMap (fun numbered => membersNote numbered.1 numbered.2) =
      model.notes.flatMap noteLines := by
  refine model.flatMap_notes membersNote ?_ ?_
  · intro index node inhabited
    simp [membersNote, noteLines, noteOpening, ElementRef.names, inhabited]
  · intro index node bare
    simp [membersNote, bare]

theorem spread_members (model : FeatureModel) :
    model.spread (fun node => ElementRef.names node.members) =
      model.notes.flatMap fun note => note.2.map (Prod.mk note.1) := by
  refine model.flatMap_notes
    (fun index node => (ElementRef.names node.members).map (Prod.mk index)) ?_ ?_
  · exact fun _ _ _ => rfl
  · intro index node bare
    simp [ElementRef.names, bare]

/-- The lines of a kind, but for those that frame others. -/
def linesFor (model : FeatureModel) : LineKind → List String
  | .comment => model.diagnostics.map comment
  | .opening => model.numberedNodes.map fun numbered => opening numbered.1 numbered.2.key
  | .arrow => (model.spread FeatureNode.children).map fun edge => arrow edge.1 edge.2
  | .note => model.notes.flatMap noteLines
  | .frame | .closing => []

theorem linesOf_diagramLines (model : FeatureModel) {wanted : LineKind}
    (notFrame : wanted ≠ .frame) (notClosing : wanted ≠ .closing) :
    linesOf wanted model.diagramLines = model.linesFor wanted := by
  have parts : linesOf wanted model.diagramLines =
      linesOf wanted ["@startuml"] ++ linesOf wanted (model.diagnostics.map comment) ++
        model.numberedNodes.flatMap (fun numbered =>
          linesOf wanted (declaration numbered.1 numbered.2.key)) ++
        model.numberedNodes.flatMap (fun numbered =>
          linesOf wanted (arrows numbered.1 numbered.2)) ++
        model.notes.flatMap (fun note => linesOf wanted (noteLines note)) ++
        linesOf wanted ["@enduml"] := by
    simp only [diagramLines, membersNotes_eq, linesOf, List.filter_append, List.filter_flatMap]
  have start : linesOf wanted ["@startuml"] = [] := linesOf_frame (by decide) notFrame
  have stop : linesOf wanted ["@enduml"] = [] := linesOf_frame (by decide) notFrame
  rw [parts, start, stop, linesOf_comments]
  simp only [linesOf_declaration _ _ notClosing, linesOf_arrows, linesOf_noteLines, flatMap_ite]
  cases wanted with
  | frame => contradiction
  | closing => contradiction
  | comment => simp [linesFor]
  | opening => simp [linesFor, List.map_eq_flatMap]
  | arrow => simp [linesFor, spread, List.map_flatMap, Function.comp_def]
  | note => simp [linesFor]

end FeatureModel

/-! What a diagram shows of a model. -/

/-- What a diagram shows of a node. -/
structure NodePicture where
  granularity : Granularity
  name : String
  children : List NodeIndex
  members : List String
deriving DecidableEq, Repr

def FeatureNode.picture (node : FeatureNode) : NodePicture :=
  { granularity := node.key.granularity, name := Diagram.unquoted node.key.name
    children := node.children, members := ElementRef.names node.members }

namespace FeatureModel

open Diagram

/-- No text of others that a diagram shows has a line feed. -/
structure SingleLined (model : FeatureModel) : Prop where
  messages : ∀ diagnostic ∈ model.diagnostics, '\n' ∉ diagnostic.message.toList
  names : ∀ node ∈ model.nodes, '\n' ∉ node.key.name.toList
  members : ∀ node ∈ model.nodes, ∀ member ∈ node.members, '\n' ∉ member.qualifiedName.toList

variable {model other : FeatureModel}

theorem SingleLined.innerFeeds (singleLined : model.SingleLined) :
    innerFeeds model.shownTexts = 0 := by
  rw [innerFeeds_eq_zero_iff]
  intro text shown
  rcases List.mem_append.mp shown with front | inside
  · rcases List.mem_append.mp front with reported | named
    · obtain ⟨diagnostic, member, rfl⟩ := List.mem_map.mp reported
      have plain := List.count_eq_zero.mpr (singleLined.messages diagnostic member)
      rw [Diagnostic.display, lineFeeds_append, lineFeeds_append, lineFeeds_append,
        lineFeeds_append, lineFeeds.eq_def diagnostic.message, plain]
      cases diagnostic.severity <;> cases diagnostic.kind <;> decide
    · obtain ⟨node, member, rfl⟩ := List.mem_map.mp named
      exact List.count_eq_zero.mpr (singleLined.names node member)
  · obtain ⟨node, isNode, named⟩ := List.mem_flatMap.mp inside
    obtain ⟨member, isMember, rfl⟩ := List.mem_map.mp named
    exact List.count_eq_zero.mpr (singleLined.members node isNode member isMember)

theorem SingleLined.textLines_diagram (singleLined : model.SingleLined) :
    textLines model.diagram = model.diagramLines :=
  textLines_of_plain (model.innerFeeds_diagramLines.trans singleLined.innerFeeds)

theorem flatMap_eq_of_picture (lines : NodeIndex → FeatureNode → List String)
    (told : ∀ index node another, node.picture = another.picture →
      lines index node = lines index another)
    (pictures : model.nodes.map FeatureNode.picture = other.nodes.map FeatureNode.picture) :
    model.numberedNodes.flatMap (fun numbered => lines numbered.1 numbered.2) =
      other.numberedNodes.flatMap fun numbered => lines numbered.1 numbered.2 := by
  have length : model.nodes.length = other.nodes.length := by
    simpa using congrArg List.length pictures
  rw [List.flatMap_def, List.flatMap_def]
  congr 1
  refine List.ext_getElem (by simpa [numberedNodes] using length) fun index bound otherBound => ?_
  have inside : index < model.nodes.length := by simpa [numberedNodes] using bound
  have here := congrArg (fun pictures => pictures[index]?) pictures
  simp only [List.getElem?_map, List.getElem?_eq_getElem inside,
    List.getElem?_eq_getElem (length ▸ inside), Option.map_some, Option.some.injEq] at here
  simp only [List.getElem_map, getElem_numberedNodes _ inside,
    getElem_numberedNodes _ (length ▸ inside)]
  exact told index _ _ here

theorem linesFor_eq (same : model.diagramLines = other.diagramLines) (wanted : LineKind)
    (notFrame : wanted ≠ .frame) (notClosing : wanted ≠ .closing) :
    model.linesFor wanted = other.linesFor wanted := by
  rw [← linesOf_diagramLines _ notFrame notClosing, same,
    linesOf_diagramLines _ notFrame notClosing]

theorem map_display_eq (same : model.diagramLines = other.diagramLines) :
    model.diagnostics.map Diagnostic.display = other.diagnostics.map Diagnostic.display := by
  have comments := linesFor_eq same .comment (by decide) (by decide)
  have apart : Function.Injective fun display : String => "' " ++ display :=
    fun _ _ => (String.append_right_inj "' ").mp
  apply List.map_injective_iff.mpr apart
  rw [List.map_map, List.map_map]
  exact comments

theorem map_picture_eq (same : model.diagramLines = other.diagramLines) :
    model.nodes.map FeatureNode.picture = other.nodes.map FeatureNode.picture := by
  have openings := linesFor_eq same .opening (by decide) (by decide)
  have length : model.nodes.length = other.nodes.length := by
    have lengths := congrArg List.length openings
    simpa [linesFor, numberedNodes] using lengths
  have arrows := linesFor_eq same .arrow (by decide) (by decide)
  have isInjective : Function.Injective fun edge : NodeIndex × NodeIndex => arrow edge.1 edge.2 :=
    fun _ _ same => Prod.ext (arrow_inj same).1 (arrow_inj same).2
  have children := map_eq_of_spread length (List.map_injective_iff.mpr isInjective arrows)
  have notes := noteLines_flatMap_injective
    (linesFor_eq same .note (by decide) (by decide))
  have members : model.nodes.map (fun node => ElementRef.names node.members) =
      other.nodes.map (fun node => ElementRef.names node.members) :=
    map_eq_of_spread length (by rw [spread_members, spread_members, notes])
  refine List.ext_getElem (by simpa using length) fun index bound otherBound => ?_
  rw [List.length_map] at bound otherBound
  have openingHere :
      opening index model.nodes[index].key = opening index other.nodes[index].key := by
    have here := congrArg (fun lines => lines[index]?) openings
    simpa [linesFor, numberedNodes, bound, otherBound] using here
  have childrenHere : model.nodes[index].children = other.nodes[index].children := by
    have here := congrArg (fun children => children[index]?) children
    simpa [bound, otherBound] using here
  have membersHere : ElementRef.names model.nodes[index].members =
      ElementRef.names other.nodes[index].members := by
    have here := congrArg (fun members => members[index]?) members
    simpa [bound, otherBound] using here
  obtain ⟨_, levels, names⟩ := opening_inj openingHere
  simp only [List.getElem_map, FeatureNode.picture, levels, names, childrenHere, membersHere]

theorem diagramLines_eq_iff : model.diagramLines = other.diagramLines ↔
    model.diagnostics.map Diagnostic.display = other.diagnostics.map Diagnostic.display ∧
      model.nodes.map FeatureNode.picture = other.nodes.map FeatureNode.picture := by
  refine ⟨fun same => ⟨map_display_eq same, map_picture_eq same⟩, ?_⟩
  rintro ⟨displays, pictures⟩
  have comments : model.diagnostics.map comment = other.diagnostics.map comment := by
    have behind := congrArg (List.map fun display => "' " ++ display) displays
    rw [List.map_map, List.map_map] at behind
    exact behind
  have declarations := flatMap_eq_of_picture
    (fun index node => declaration index node.key) (fun index node another same => by
      obtain ⟨levels, names, _, _⟩ := NodePicture.mk.inj same
      have labels : label node.key.name = label another.key.name :=
        congrArg (fun name => "\"" ++ name ++ "\"") names
      rw [declaration, declaration, opening, opening, levels, labels]) pictures
  have links := flatMap_eq_of_picture Diagram.arrows (fun index node another same => by
    rw [Diagram.arrows, Diagram.arrows, (NodePicture.mk.inj same).2.2.1]) pictures
  have notes := flatMap_eq_of_picture membersNote (fun index node another same => by
    have names := (NodePicture.mk.inj same).2.2.2
    have empty : node.members.isEmpty = another.members.isEmpty := by
      simpa [ElementRef.names] using congrArg List.isEmpty names
    rw [ElementRef.names, ElementRef.names] at names
    rw [membersNote, membersNote, empty, names]) pictures
  simp only [diagramLines, comments, declarations, links, notes]

/-! Where the nodes are declared, and where they are used. -/

end FeatureModel

namespace Diagram

def DeclaredAt (lines : List String) (index : NodeIndex) (position : Nat) : Prop :=
  ∃ key, lines[position]? = some (opening index key)

def UsedAt (lines : List String) (index : NodeIndex) (position : Nat) : Prop :=
  lines[position]? = some (noteOpening index) ∨ ∃ other,
    lines[position]? = some (arrow index other) ∨ lines[position]? = some (arrow other index)

theorem mem_linesOf {kind : LineKind} {lines : List String} {line : String} :
    line ∈ linesOf kind lines ↔ line ∈ lines ∧ kindOf line = kind := by
  rw [linesOf, List.mem_filter, decide_eq_true_iff]

theorem noteOpening_mem_noteLines {index : NodeIndex} {note : NodeIndex × List String} :
    noteOpening index ∈ noteLines note ↔ index = note.1 := by
  have byLetter {line : String} (other : line.toList.head? ≠ some 'n') :
      noteOpening index ≠ line := by
    rintro rfl
    exact other (by simp [noteOpening])
  constructor
  · intro member
    rcases List.mem_cons.mp member with same | behind
    · exact nodeName_injective ((String.append_right_inj _).mp same)
    · rcases List.mem_append.mp behind with inside | ending
      · obtain ⟨name, _, same⟩ := List.mem_map.mp inside
        exact absurd same.symm (byLetter (by simp))
      · exact absurd (List.mem_singleton.mp ending) (byLetter (by decide))
  · rintro rfl
    exact List.mem_cons_self

theorem UsedAt.exists_kind {lines : List String} {index : NodeIndex} {position : Nat}
    (used : UsedAt lines index position) :
    ∃ line, lines[position]? = some line ∧ (kindOf line = .arrow ∨ kindOf line = .note) := by
  rcases used with noted | ⟨other, start | stop⟩
  · exact ⟨_, noted, .inr (kindOf_noteOpening index)⟩
  · exact ⟨_, start, .inl (kindOf_arrow index other)⟩
  · exact ⟨_, stop, .inl (kindOf_arrow other index)⟩

end Diagram

namespace FeatureModel

open Diagram

variable {model : FeatureModel}

theorem mem_spread {β : Type} {parts : FeatureNode → List β} {index : NodeIndex} {value : β} :
    (index, value) ∈ model.spread parts ↔
      value ∈ (model.nodes[index]?.map parts).getD [] := by
  rw [← filter_spread, List.mem_map]
  constructor
  · exact fun member => ⟨(index, value), List.mem_filter.mpr ⟨member, beq_self_eq_true index⟩, rfl⟩
  · rintro ⟨part, member, rfl⟩
    obtain ⟨inside, here⟩ := List.mem_filter.mp member
    rwa [← eq_of_beq here]

theorem Woven.lt_of_used (woven : model.Woven) {index : NodeIndex} {position : Nat}
    (used : UsedAt model.diagramLines index position) : index < model.nodes.length := by
  have inArrows {parent child : NodeIndex} (member : arrow parent child ∈ model.diagramLines) :
      child ∈ model.childIndices parent := by
    have isArrow := mem_linesOf.mpr ⟨member, kindOf_arrow parent child⟩
    rw [linesOf_diagramLines _ (by decide) (by decide), linesFor, List.mem_map] at isArrow
    obtain ⟨⟨start, stop⟩, edge, same⟩ := isArrow
    obtain ⟨rfl, rfl⟩ := arrow_inj same
    exact mem_spread.mp edge
  rcases used with noted | ⟨other, start | stop⟩
  · have isNote := mem_linesOf.mpr ⟨List.mem_of_getElem? noted, kindOf_noteOpening index⟩
    rw [linesOf_diagramLines _ (by decide) (by decide), linesFor, List.mem_flatMap] at isNote
    obtain ⟨note, member, isOpening⟩ := isNote
    rw [noteOpening_mem_noteLines.mp isOpening]
    obtain ⟨numbered, inside, rfl⟩ := List.mem_map.mp (List.mem_filter.mp member).1
    exact (List.getElem?_eq_some_iff.mp (mem_numberedNodes_iff.mp inside)).1
  · exact (woven.inRange (inArrows (List.mem_of_getElem? start))).1
  · exact (woven.inRange (inArrows (List.mem_of_getElem? stop))).2

def diagramHead (model : FeatureModel) : List String :=
  ["@startuml"] ++ model.diagnostics.map comment ++
    model.numberedNodes.flatMap fun numbered => declaration numbered.1 numbered.2.key

theorem diagramHead_prefix (model : FeatureModel) : model.diagramHead <+: model.diagramLines := by
  rw [diagramLines, List.append_assoc, List.append_assoc]
  exact List.prefix_append _ _

theorem kindOf_diagramHead {line : String} (member : line ∈ model.diagramHead) :
    kindOf line ≠ .arrow ∧ kindOf line ≠ .note := by
  simp only [diagramHead, List.mem_append, List.mem_singleton, List.mem_map,
    List.mem_flatMap] at member
  rcases member with (rfl | ⟨diagnostic, _, rfl⟩) | ⟨numbered, _, declared⟩
  · decide
  · simp [kindOf_comment]
  · rw [declaration] at declared
    rcases List.mem_cons.mp declared with rfl | closing
    · simp [kindOf_opening]
    · have isClosing : line = "\x7d" := by
        split at closing
        · exact List.mem_singleton.mp closing
        · cases closing
      rw [isClosing]
      decide

theorem exists_declaredAt {index : NodeIndex} (bound : index < model.nodes.length) :
    ∃ declared < model.diagramHead.length, DeclaredAt model.diagramLines index declared := by
  have inside : opening index model.nodes[index].key ∈ model.diagramHead := by
    refine List.mem_append_right _ (List.mem_flatMap.mpr ⟨(index, model.nodes[index]), ?_, ?_⟩)
    · exact mem_numberedNodes_iff.mpr (List.getElem?_eq_getElem bound)
    · rw [declaration]
      exact List.mem_cons_self
  obtain ⟨declared, isDeclared⟩ := List.mem_iff_getElem?.mp inside
  have early := (List.getElem?_eq_some_iff.mp isDeclared).1
  obtain ⟨rest, whole⟩ := model.diagramHead_prefix
  refine ⟨declared, early, model.nodes[index].key, ?_⟩
  rw [← whole, List.getElem?_append_left early, isDeclared]

theorem declaredAt_once {index : NodeIndex} {first second : Nat}
    (declared : DeclaredAt model.diagramLines index first)
    (again : DeclaredAt model.diagramLines index second) : first = second := by
  have apart : model.diagramLines.Pairwise fun line other =>
      kindOf line = .opening → kindOf other = .opening →
        ∀ index key otherKey, ¬(line = opening index key ∧ other = opening index otherKey) := by
    have openings : (model.linesFor .opening).Pairwise fun line other =>
        ∀ index key otherKey, ¬(line = opening index key ∧ other = opening index otherKey) := by
      rw [linesFor, List.pairwise_map]
      refine (List.pairwise_map.mp model.nodup_numberedNodes).imp ?_
      rintro numbered other different index key otherKey ⟨here, there⟩
      exact different ((opening_inj here).1.trans (opening_inj there).1.symm)
    rw [← linesOf_diagramLines _ (by decide) (by decide), linesOf, List.pairwise_filter] at openings
    simpa only [decide_eq_true_iff] using openings
  obtain ⟨key, isFirst⟩ := declared
  obtain ⟨otherKey, isSecond⟩ := again
  obtain ⟨firstBound, atFirst⟩ := List.getElem?_eq_some_iff.mp isFirst
  obtain ⟨secondBound, atSecond⟩ := List.getElem?_eq_some_iff.mp isSecond
  have ordered := List.pairwise_iff_getElem.mp apart
  rcases Nat.lt_trichotomy first second with before | same | after
  · exact absurd ⟨atFirst, atSecond⟩ (ordered first second firstBound secondBound before
      (atFirst ▸ kindOf_opening index key) (atSecond ▸ kindOf_opening index otherKey) _ _ _)
  · exact same
  · exact absurd ⟨atSecond, atFirst⟩ (ordered second first secondBound firstBound after
      (atSecond ▸ kindOf_opening index otherKey) (atFirst ▸ kindOf_opening index key) _ _ _)

theorem Woven.declared_before_used (woven : model.Woven) {index : NodeIndex} {position : Nat}
    (used : UsedAt model.diagramLines index position) :
    ∃ declared < position, ∀ place,
      DeclaredAt model.diagramLines index place ↔ place = declared := by
  obtain ⟨declared, early, isDeclared⟩ := exists_declaredAt (woven.lt_of_used used)
  refine ⟨declared, Nat.lt_of_lt_of_le early ?_, fun place => ⟨fun again => ?_, ?_⟩⟩
  · by_contra within
    obtain ⟨line, isLine, isUse⟩ := used.exists_kind
    obtain ⟨rest, whole⟩ := model.diagramHead_prefix
    rw [← whole, List.getElem?_append_left (Nat.lt_of_not_le within)] at isLine
    obtain ⟨noArrow, noNote⟩ := kindOf_diagramHead (List.mem_of_getElem? isLine)
    exact isUse.elim noArrow noNote
  · exact declaredAt_once again isDeclared
  · rintro rfl
    exact isDeclared

theorem Woven.count_arrow (woven : model.Woven) (parent child : NodeIndex) :
    model.diagramLines.count (arrow parent child) =
      if model.hasEdge parent child then 1 else 0 := by
  have isInjective : Function.Injective fun edge : NodeIndex × NodeIndex => arrow edge.1 edge.2 :=
    fun _ _ same => Prod.ext (arrow_inj same).1 (arrow_inj same).2
  have kept : model.diagramLines.count (arrow parent child) =
      (linesOf .arrow model.diagramLines).count (arrow parent child) :=
    (List.count_filter (p := fun line => decide (kindOf line = .arrow))
      (decide_eq_true (kindOf_arrow parent child))).symm
  rw [kept, linesOf_diagramLines _ (by decide) (by decide), linesFor,
    List.count_map_of_injective _ _ isInjective (parent, child), count_pair, filter_spread,
    ← childIndices, (woven.once parent).1.count, hasEdge]
  simp only [List.contains_iff_mem]

end FeatureModel

namespace Scan

open Diagram

/-- Where no text has a line feed, the diagrams of two models are the same text exactly when they
report the same diagnostics and show the same of all nodes. Every node that an arrow or a note
names is declared in one line, which stands before that line, and every edge has one arrow. -/
theorem build_pictured_by_diagram (scan other : Scan) (plain : scan.build.SingleLined)
    (otherPlain : other.build.SingleLined) :
    (scan.build.diagram = other.build.diagram ↔
        scan.build.diagnostics.map Diagnostic.display =
            other.build.diagnostics.map Diagnostic.display ∧
          scan.build.nodes.map FeatureNode.picture = other.build.nodes.map FeatureNode.picture) ∧
      (∀ index position, UsedAt (textLines scan.build.diagram) index position →
        ∃ declared < position, ∀ place,
          DeclaredAt (textLines scan.build.diagram) index place ↔ place = declared) ∧
      ∀ parent child, (textLines scan.build.diagram).count (arrow parent child) =
        if scan.build.hasEdge parent child then 1 else 0 := by
  have woven : scan.build.Woven := scan.build_coherent.toWoven
  have sameText : scan.build.diagram = other.build.diagram ↔
      scan.build.diagramLines = other.build.diagramLines := by
    constructor
    · intro same
      rw [← plain.textLines_diagram, same, otherPlain.textLines_diagram]
    · intro same
      rw [FeatureModel.diagram, same, FeatureModel.diagram]
  rw [plain.textLines_diagram]
  exact ⟨sameText.trans FeatureModel.diagramLines_eq_iff,
    fun _ _ used => woven.declared_before_used used, woven.count_arrow⟩

def labelledTill (quote : String) : SourceTree :=
  .ofOutlines [{
    name := "Till"
    annotations := [.mapping {
      targetConcept := "Till " ++ quote ++ "A" ++ quote, granularity := .module }]
    children := [{
      kind := .field
      name := "sum"
      annotations := [.mapping { targetConcept := "Sum", granularity := .data }] }] }]

def labelledTillScan (quote : String) : Scan :=
  { tree := labelledTill quote, visited := [0, 1]
    pairs := (labelledTill quote).elements.flatMap Element.pairs }

theorem labelledTill_nodes {quote : String} (known : quote = "\"" ∨ quote = "'") :
    (labelledTillScan quote).build.nodes = [
      { key := { name := "Till " ++ quote ++ "A" ++ quote, granularity := .module }
        members := [{ qualifiedName := "Till" }], children := [1], parents := [] },
      { key := { name := "Sum", granularity := .data }
        members := [{ id := 1, kind := .field, qualifiedName := "Till.sum" }]
        children := [], parents := [0] }] := by
  rw [build_nodes]
  rcases known with rfl | rfl
  · rfl
  · rfl

theorem labelledTill_silent {quote : String} (known : quote = "\"" ∨ quote = "'") :
    (labelledTillScan quote).build.diagnostics = [] := by
  have accepted : (labelledTill quote).scanRoots (labelledTill quote).roots =
      .ok (labelledTillScan quote) := by
    rcases known with rfl | rfl
    · exact SourceTree.scanRoots_of_runWithin (labelledTillScan "\"") 4 rfl
    · exact SourceTree.scanRoots_of_runWithin (labelledTillScan "'") 4 rfl
  have paths : (labelledTillScan quote).build.cyclePaths = [] := by
    let pair : FeatureModel :=
      { nodes := [[1], []].map fun children =>
          { key := {}, members := [], children, parents := [] } }
    have none : pair.cyclePaths = [] := by cbv
    rw [← none]
    exact FeatureModel.cyclePaths_congr (by rw [labelledTill_nodes known]; rfl)
  rw [build_diagnostics_eq accepted, FeatureModel.detectCycles, paths]
  rcases known with rfl | rfl
  · rfl
  · rfl

theorem labelledTill_singleLined {quote : String} (known : quote = "\"" ∨ quote = "'") :
    (labelledTillScan quote).build.SingleLined := by
  refine ⟨?_, ?_, ?_⟩
  · simp [labelledTill_silent known]
  · rw [labelledTill_nodes known]
    rcases known with rfl | rfl
    · decide
    · decide
  · rw [labelledTill_nodes known]
    rcases known with rfl | rfl
    · decide
    · decide

theorem labelledTill_pictured :
    (labelledTillScan "\"").build.keys ≠ (labelledTillScan "'").build.keys ∧
      (labelledTillScan "\"").build.diagram = (labelledTillScan "'").build.diagram ∧
      (textLines (labelledTillScan "\"").build.diagram).count (arrow 0 1) = 1 ∧
      (textLines (labelledTillScan "\"").build.diagram).count (arrow 1 0) = 0 := by
  have known : "\"" = "\"" ∨ "\"" = "'" := .inl rfl
  have otherKnown : "'" = "\"" ∨ "'" = "'" := .inr rfl
  obtain ⟨same, _, count⟩ := build_pictured_by_diagram _ _ (labelledTill_singleLined known)
    (labelledTill_singleLined otherKnown)
  refine ⟨?_, same.mpr ⟨?_, ?_⟩, ?_, ?_⟩
  · rw [FeatureModel.keys, FeatureModel.keys, labelledTill_nodes known,
      labelledTill_nodes otherKnown]
    decide
  · rw [labelledTill_silent known, labelledTill_silent otherKnown]
  · rw [labelledTill_nodes known, labelledTill_nodes otherKnown]
    decide
  · rw [count, FeatureModel.hasEdge, FeatureModel.childIndices, labelledTill_nodes known]
    rfl
  · rw [count, FeatureModel.hasEdge, FeatureModel.childIndices, labelledTill_nodes known]
    rfl

end Scan

end FeatureAtlas
