import Mathlib.Data.List.Forall2
import FeatureAtlas.Export.Drawing
import FeatureAtlas.Proofs.Text.Lines

/-!
What can be read off a drawing. Every occurrence has a line of its own, which tells how deep the
occurrence is nested, its key and its mark; and from the depths the nesting itself can be told. Only
the numbers of members are lost.
-/

namespace FeatureAtlas

namespace Occurrence

mutual

def withoutCounts : Occurrence → Occurrence
  | { key, children, cycle, repeated, .. } =>
      { key, children := withoutCountsAll children, cycle, repeated }

def withoutCountsAll : List Occurrence → List Occurrence
  | [] => []
  | occurrence :: rest => occurrence.withoutCounts :: withoutCountsAll rest

end

/-- What the line of an occurrence tells of it, its depth first. -/
def told (entry : Nat × Occurrence) : Nat × NodeKey × Bool × Bool :=
  (entry.1, entry.2.key, entry.2.cycle, entry.2.repeated)

/-! The depths tell the nesting. -/

theorem preorderAll_cons (depth : Nat) (occurrence : Occurrence) (rest : List Occurrence) :
    preorderAll depth (occurrence :: rest) = (depth, occurrence) ::
      (preorderAll (depth + 1) occurrence.children ++ preorderAll depth rest) := by
  cases occurrence
  rw [preorderAll, preorder, List.cons_append]

mutual

theorem depth_of_mem_preorder {depth : Nat} {entry : Nat × Occurrence} :
    (occurrence : Occurrence) → entry ∈ occurrence.preorder depth → depth ≤ entry.1
  | { key, memberCount, children, cycle, repeated } => by
      intro member
      rw [preorder] at member
      rcases List.mem_cons.mp member with rfl | inside
      · exact Nat.le_refl _
      · exact Nat.le_of_succ_le (depth_of_mem_preorderAll children inside)

theorem depth_of_mem_preorderAll {depth : Nat} {entry : Nat × Occurrence} :
    (view : List Occurrence) → entry ∈ preorderAll depth view → depth ≤ entry.1
  | [] => by
      intro member
      rw [preorderAll] at member
      cases member
  | occurrence :: rest => by
      intro member
      rw [preorderAll] at member
      rcases List.mem_append.mp member with here | later
      · exact depth_of_mem_preorder occurrence here
      · exact depth_of_mem_preorderAll rest later

end

theorem takeWhile_told (depth : Nat) (children rest : List Occurrence) :
    (((preorderAll (depth + 1) children ++ preorderAll depth rest).map told).takeWhile
        fun entry => depth < entry.1) = (preorderAll (depth + 1) children).map told := by
  have inside : ∀ entry ∈ (preorderAll (depth + 1) children).map told,
      decide (depth < entry.1) = true := by
    intro entry member
    obtain ⟨nested, isNested, rfl⟩ := List.mem_map.mp member
    exact decide_eq_true (depth_of_mem_preorderAll children isNested)
  have behind : (((preorderAll depth rest).map told).takeWhile fun entry => depth < entry.1) =
      [] := by
    cases rest with
    | nil => rw [preorderAll, List.map_nil, List.takeWhile_nil]
    | cons occurrence rest =>
        rw [preorderAll_cons, List.map_cons, List.takeWhile_cons_of_neg (by simp [told])]
  rw [List.map_append, List.takeWhile_append_of_pos inside, behind, List.append_nil]

mutual

theorem withoutCounts_of_told {depth : Nat} : (occurrence other : Occurrence) →
    told (depth, occurrence) = told (depth, other) →
    (preorderAll (depth + 1) occurrence.children).map told =
      (preorderAll (depth + 1) other.children).map told →
    occurrence.withoutCounts = other.withoutCounts
  | { key, memberCount, children, cycle, repeated }, other => by
      intro same nested
      obtain ⟨otherKey, _, otherChildren, otherCycle, otherRepeated⟩ := other
      simp only [told, Prod.mk.injEq, true_and] at same
      obtain ⟨rfl, rfl, rfl⟩ := same
      rw [withoutCounts, withoutCounts, withoutCountsAll_of_told children otherChildren nested]

theorem withoutCountsAll_of_told {depth : Nat} : (view other : List Occurrence) →
    (preorderAll depth view).map told = (preorderAll depth other).map told →
    withoutCountsAll view = withoutCountsAll other
  | [], other => by
      intro same
      cases other with
      | nil => rfl
      | cons occurrence rest =>
          rw [preorderAll, preorderAll_cons] at same
          cases same
  | occurrence :: rest, other => by
      intro same
      cases other with
      | nil =>
          rw [preorderAll_cons, preorderAll] at same
          cases same
      | cons otherOccurrence otherRest =>
          rw [preorderAll_cons, preorderAll_cons, List.map_cons, List.map_cons,
            List.cons.injEq] at same
          obtain ⟨here, behind⟩ := same
          have nested := congrArg (List.takeWhile fun entry => decide (depth < entry.1)) behind
          rw [takeWhile_told, takeWhile_told] at nested
          rw [List.map_append, List.map_append, nested, List.append_cancel_left_eq] at behind
          rw [withoutCountsAll, withoutCountsAll,
            withoutCounts_of_told occurrence otherOccurrence here nested,
            withoutCountsAll_of_told rest otherRest behind]

end

end Occurrence

/-! The line of an occurrence. -/

namespace Drawing

def reserved : List Char := ['\n', '├', '└', '↺', '↑']

theorem forall_reserved {property : Char → Prop} :
    (∀ character ∈ reserved, property character) ↔
      property '\n' ∧ property '├' ∧ property '└' ∧ property '↺' ∧ property '↑' := by
  simp [reserved]

/-- An occurrence that can be read off a drawing: its name holds no sign of the drawing, and it has
one mark at most. -/
structure Readable (occurrence : Occurrence) : Prop where
  plain : ∀ character ∈ reserved, character ∉ occurrence.key.name.toList
  marked : (occurrence.cycle && occurrence.repeated) = false

/-- What stands in front of the branch of an occurrence with so many ancestors below the top. -/
structure Margin (depth : Nat) (margin : String) : Prop where
  length : margin.toList.length = 4 * depth
  plain : ∀ character ∈ margin.toList, character = ' ' ∨ character = '│'

def Heads : Nat × Occurrence → String → Prop
  | (0, occurrence), text => text = occurrence.key.display
  | (depth + 1, occurrence), text => ∃ margin isLast, Margin depth margin ∧
      text = margin ++ branch isLast ++ sign occurrence.key.granularity ++ " " ++
        occurrence.key.name

def Shows (entry : Nat × Occurrence) (line : String) : Prop :=
  ∃ text, Heads entry text ∧ line = text ++ mark entry.2

theorem margin_empty : Margin 0 "" := ⟨rfl, by simp⟩

theorem Margin.continued {depth : Nat} {margin : String} (isMargin : Margin depth margin)
    (isLast : Bool) : Margin (depth + 1) (margin ++ continuation isLast) := by
  refine ⟨?_, ?_⟩
  · have four : (continuation isLast).toList.length = 4 := by cases isLast <;> rfl
    rw [String.toList_append, List.length_append, isMargin.length, four]
    omega
  · intro character member
    rw [String.toList_append] at member
    rcases List.mem_append.mp member with old | new
    · exact isMargin.plain character old
    · cases isLast <;> simp [continuation] at new <;> tauto

mutual

theorem shows_nestedLines {depth : Nat} {margin : String} (isMargin : Margin depth margin)
    (isLast : Bool) : (occurrence : Occurrence) →
    List.Forall₂ Shows (occurrence.preorder (depth + 1)) (nestedLines margin isLast occurrence)
  | { key, memberCount, children, cycle, repeated } => by
      rw [Occurrence.preorder, nestedLines]
      exact .cons ⟨_, ⟨margin, isLast, isMargin, rfl⟩, rfl⟩
        (shows_childLines (isMargin.continued isLast) children)

theorem shows_childLines {depth : Nat} {margin : String} (isMargin : Margin depth margin) :
    (children : List Occurrence) →
    List.Forall₂ Shows (Occurrence.preorderAll (depth + 1) children) (childLines margin children)
  | [] => by
      rw [Occurrence.preorderAll, childLines]
      exact .nil
  | child :: rest => by
      rw [Occurrence.preorderAll, childLines]
      exact List.rel_append (shows_nestedLines isMargin _ child) (shows_childLines isMargin rest)

end

theorem shows_drawingLines (view : List Occurrence) :
    List.Forall₂ Shows (Occurrence.preorderAll 0 view) (drawingLines view) := by
  induction view with
  | nil => exact .nil
  | cons occurrence rest ih =>
      rw [Occurrence.preorderAll_cons, drawingLines, List.flatMap_cons, topLines, List.cons_append]
      exact .cons ⟨_, rfl, rfl⟩
        (List.rel_append (shows_childLines margin_empty occurrence.children) ih)

/-! What a line tells. -/

theorem sign_injective : Function.Injective sign := by
  intro level other same
  cases level <;> cases other <;> first | rfl | exact absurd same (by decide)

theorem length_sign (level : Granularity) : (sign level).toList.length = 1 := by
  cases level <;> rfl

theorem display_injective : Function.Injective NodeKey.display := by
  rintro ⟨name, level⟩ ⟨otherName, otherLevel⟩ same
  -- read from the end, where the levels differ
  have letters := congrArg (fun text => text.toList.reverse) same
  cases level <;> cases otherLevel <;>
    simp [NodeKey.display, Granularity.name] at letters ⊢ <;>
      exact String.toList_inj.mp letters

def branchSign (isLast : Bool) : Char := if isLast then '└' else '├'

theorem branch_toList (isLast : Bool) :
    (branch isLast).toList = branchSign isLast :: ['─', '─', ' '] := by
  cases isLast <;> rfl

theorem branchSign_reserved (isLast : Bool) : branchSign isLast ∈ reserved := by
  cases isLast <;> decide

theorem Margin.notMem {depth : Nat} {margin : String} (isMargin : Margin depth margin)
    {character : Char} (member : character ∈ reserved) : character ∉ margin.toList := by
  intro inside
  rcases isMargin.plain character inside with rfl | rfl <;> simp [reserved] at member

theorem sign_notMem (level : Granularity) :
    ∀ character ∈ reserved, character ∉ (sign level).toList :=
  forall_reserved.mpr (by cases level <;> decide)

theorem stroke_notMem : ∀ character ∈ reserved, character ∉ ['─', '─', ' '] :=
  forall_reserved.mpr (by decide)

theorem blank_notMem : ∀ character ∈ reserved, character ∉ " ".toList :=
  forall_reserved.mpr (by decide)

theorem Readable.display {occurrence : Occurrence} (readable : Readable occurrence) :
    ∀ character ∈ reserved, character ∉ occurrence.key.display.toList := by
  have level : ∀ character ∈ reserved,
      character ∉ (" [" ++ occurrence.key.granularity.name ++ "]").toList :=
    forall_reserved.mpr (by cases occurrence.key.granularity <;> decide)
  intro character member
  rw [NodeKey.display, String.append_assoc, String.append_assoc, String.toList_append,
    ← String.append_assoc, List.mem_append]
  exact not_or.mpr ⟨readable.plain character member, level character member⟩

theorem Heads.notMem {entry : Nat × Occurrence} {text : String} (heads : Heads entry text)
    (readable : Readable entry.2) {character : Char} (member : character ∈ reserved)
    (other : ∀ isLast, character ≠ branchSign isLast) : character ∉ text.toList := by
  obtain ⟨_ | depth, occurrence⟩ := entry
  · rw [show text = _ from heads]
    exact readable.display character member
  · obtain ⟨margin, isLast, isMargin, rfl⟩ := heads
    simp only [String.toList_append, branch_toList, List.mem_append, not_or]
    rw [List.mem_cons, not_or]
    exact ⟨⟨⟨⟨isMargin.notMem member, other isLast, stroke_notMem character member⟩,
      sign_notMem _ character member⟩, blank_notMem character member⟩,
      readable.plain character member⟩

theorem Readable.display_ne {occurrence : Occurrence} (readable : Readable occurrence)
    (margin rest : String) (isLast : Bool) :
    occurrence.key.display ≠ margin ++ branch isLast ++ rest := by
  intro same
  refine readable.display _ (branchSign_reserved isLast) ?_
  rw [same, String.toList_append, String.toList_append, branch_toList]
  simp

theorem nested_unique {depth otherDepth : Nat} {margin otherMargin : String}
    (isMargin : Margin depth margin) (isOtherMargin : Margin otherDepth otherMargin)
    {isLast otherLast : Bool} {key otherKey : NodeKey}
    (plain : ∀ character ∈ reserved, character ∉ key.name.toList)
    (same : margin ++ branch isLast ++ sign key.granularity ++ " " ++ key.name =
      otherMargin ++ branch otherLast ++ sign otherKey.granularity ++ " " ++ otherKey.name) :
    depth = otherDepth ∧ key = otherKey := by
  -- no margin and no name holds a branch, so the branches of the two stand at the same place
  have isBranch := branchSign_reserved otherLast
  have behind : branchSign otherLast ∉
      ['─', '─', ' '] ++ ((sign key.granularity).toList ++ (" ".toList ++ key.name.toList)) := by
    simp only [List.mem_append, not_or]
    exact ⟨stroke_notMem _ isBranch, sign_notMem _ _ isBranch, blank_notMem _ isBranch,
      plain _ isBranch⟩
  have letters := congrArg String.toList same
  simp only [String.toList_append, branch_toList, List.append_assoc] at letters
  obtain ⟨margins, _, rests⟩ :=
    (List.append_cons_inj_of_notMem (isMargin.notMem isBranch) behind).mp letters
  have depths : depth = otherDepth := by
    have lengths := isMargin.length
    rw [margins, isOtherMargin.length] at lengths
    omega
  obtain ⟨signs, names⟩ := List.append_inj (List.append_cancel_left rests)
    ((length_sign _).trans (length_sign _).symm)
  have levels := sign_injective (String.toList_inj.mp signs)
  have nameLetters := List.append_cancel_left names
  exact ⟨depths, (NodeKey.mk.injEq ..).mpr ⟨String.toList_inj.mp nameLetters, levels⟩⟩

theorem Heads.unique {entry other : Nat × Occurrence} {text : String}
    (heads : Heads entry text) (also : Heads other text) (readable : Readable entry.2)
    (otherReadable : Readable other.2) : entry.1 = other.1 ∧ entry.2.key = other.2.key := by
  obtain ⟨_ | depth, occurrence⟩ := entry
  · obtain ⟨_ | otherDepth, another⟩ := other
    · exact ⟨rfl, display_injective (heads.symm.trans also)⟩
    · -- only what is nested has a branch
      obtain ⟨margin, isLast, _, isText⟩ := also
      rw [String.append_assoc, String.append_assoc] at isText
      exact absurd (heads.symm.trans isText) (readable.display_ne _ _ _)
  · obtain ⟨_ | otherDepth, another⟩ := other
    · obtain ⟨margin, isLast, _, isText⟩ := heads
      rw [String.append_assoc, String.append_assoc] at isText
      exact absurd (also.symm.trans isText) (otherReadable.display_ne _ _ _)
    · obtain ⟨margin, isLast, isMargin, isText⟩ := heads
      obtain ⟨otherMargin, otherLast, isOtherMargin, isOtherText⟩ := also
      obtain ⟨rfl, key⟩ := nested_unique isMargin isOtherMargin readable.plain
        (isText.symm.trans isOtherText)
      exact ⟨rfl, key⟩

/-! The mark. -/

def isMarkSign (character : Char) : Bool := character == '↺' || character == '↑'

theorem mark_unique {occurrence another : Occurrence} (readable : Readable occurrence)
    (otherReadable : Readable another) {text other : String}
    (plain : ∀ character ∈ text.toList, isMarkSign character = false)
    (otherPlain : ∀ character ∈ other.toList, isMarkSign character = false)
    (same : text ++ mark occurrence = other ++ mark another) :
    text = other ∧ occurrence.cycle = another.cycle ∧ occurrence.repeated = another.repeated := by
  -- of the signs of marks in a line none is in the text, which leaves the mark alone
  have noSign : text.toList.filter isMarkSign = [] :=
    List.filter_eq_nil_iff.mpr (by simpa using plain)
  have otherNoSign : other.toList.filter isMarkSign = [] :=
    List.filter_eq_nil_iff.mpr (by simpa using otherPlain)
  have marks := congrArg (fun text => text.toList.filter isMarkSign) same
  simp only [String.toList_append, List.filter_append, noSign, otherNoSign,
    List.nil_append] at marks
  have flags : occurrence.cycle = another.cycle ∧ occurrence.repeated = another.repeated := by
    have one := readable.marked
    have otherOne := otherReadable.marked
    rw [mark, mark] at marks
    cases cycle : occurrence.cycle <;> cases repeated : occurrence.repeated <;>
      cases otherCycle : another.cycle <;> cases otherRepeated : another.repeated <;>
      simp_all [isMarkSign]
  have sameMark : mark occurrence = mark another := by rw [mark, mark, flags.1, flags.2]
  rw [sameMark] at same
  exact ⟨(String.append_left_inj _).mp same, flags⟩

theorem Heads.noMarkSign {entry : Nat × Occurrence} {text : String} (heads : Heads entry text)
    (readable : Readable entry.2) : ∀ character ∈ text.toList, isMarkSign character = false := by
  intro character member
  by_contra sign
  rw [Bool.not_eq_false, isMarkSign, Bool.or_eq_true, beq_iff_eq, beq_iff_eq] at sign
  rcases sign with rfl | rfl
  · exact heads.notMem readable (by decide) (by decide) member
  · exact heads.notMem readable (by decide) (by decide) member

theorem Shows.told_eq {entry other : Nat × Occurrence} {line : String} (shows : Shows entry line)
    (also : Shows other line) (readable : Readable entry.2) (otherReadable : Readable other.2) :
    Occurrence.told entry = Occurrence.told other := by
  obtain ⟨text, heads, isLine⟩ := shows
  obtain ⟨otherText, otherHeads, isOtherLine⟩ := also
  obtain ⟨rfl, cycle, repeated⟩ := mark_unique readable otherReadable (heads.noMarkSign readable)
    (otherHeads.noMarkSign otherReadable) (isLine.symm.trans isOtherLine)
  obtain ⟨depth, key⟩ := heads.unique otherHeads readable otherReadable
  rw [Occurrence.told, Occurrence.told, depth, key, cycle, repeated]

theorem Shows.lineFeeds {entry : Nat × Occurrence} {line : String} (shows : Shows entry line)
    (readable : Readable entry.2) : lineFeeds line = 0 := by
  obtain ⟨text, heads, rfl⟩ := shows
  have marked : '\n' ∉ (mark entry.2).toList := by
    rw [mark]
    split
    · decide
    · split <;> decide
  rw [FeatureAtlas.lineFeeds, List.count_eq_zero, String.toList_append, List.mem_append]
  exact not_or.mpr ⟨heads.notMem readable (by decide) (by decide), marked⟩

theorem map_told_eq {entries others : List (Nat × Occurrence)} {lines : List String}
    (shows : List.Forall₂ Shows entries lines) (also : List.Forall₂ Shows others lines)
    (readable : ∀ entry ∈ entries, Readable entry.2) (otherReadable : ∀ other ∈ others,
      Readable other.2) : entries.map Occurrence.told = others.map Occurrence.told := by
  induction shows generalizing others with
  | nil =>
      cases also
      rfl
  | cons first _ ih =>
      cases also with
      | cons otherFirst otherRest =>
          rw [List.map_cons, List.map_cons, first.told_eq otherFirst (readable _ (by simp))
            (otherReadable _ (by simp)), ih otherRest
              (fun entry member => readable entry (List.mem_cons_of_mem _ member))
              fun other member => otherReadable other (List.mem_cons_of_mem _ member)]

/-! The lines do not depend on the numbers of members. -/

mutual

theorem nestedLines_withoutCounts (margin : String) (isLast : Bool) : (occurrence : Occurrence) →
    nestedLines margin isLast occurrence.withoutCounts = nestedLines margin isLast occurrence
  | { key, memberCount, children, cycle, repeated } => by
      rw [Occurrence.withoutCounts, nestedLines, nestedLines, childLines_withoutCounts]
      rfl

theorem childLines_withoutCounts (margin : String) : (children : List Occurrence) →
    childLines margin (Occurrence.withoutCountsAll children) = childLines margin children
  | [] => by rw [Occurrence.withoutCountsAll]
  | child :: rest => by
      have last : (Occurrence.withoutCountsAll rest).isEmpty = rest.isEmpty := by
        cases rest <;> rfl
      rw [Occurrence.withoutCountsAll, childLines, childLines, last,
        nestedLines_withoutCounts margin _ child, childLines_withoutCounts margin rest]

end

theorem drawingLines_withoutCounts (view : List Occurrence) :
    drawingLines (Occurrence.withoutCountsAll view) = drawingLines view := by
  induction view with
  | nil => rfl
  | cons occurrence rest ih =>
      obtain ⟨key, memberCount, children, cycle, repeated⟩ := occurrence
      rw [drawingLines, drawingLines] at ih
      rw [Occurrence.withoutCountsAll, drawingLines, drawingLines, List.flatMap_cons,
        List.flatMap_cons, ih, Occurrence.withoutCounts, topLines, topLines,
        childLines_withoutCounts]
      rfl

theorem textLines_drawing {view : List Occurrence}
    (readable : ∀ entry ∈ Occurrence.preorderAll 0 view, Readable entry.2) :
    textLines (drawing view) = drawingLines view := by
  apply textLines_of_plain
  rw [innerFeeds_eq_zero_iff]
  have shows := shows_drawingLines view
  generalize Occurrence.preorderAll 0 view = entries at readable shows
  generalize drawingLines view = lines at shows
  induction shows with
  | nil => simp
  | cons first _ ih =>
      intro line member
      rcases List.mem_cons.mp member with rfl | later
      · exact first.lineFeeds (readable _ (by simp))
      · exact ih (fun entry inside => readable entry (List.mem_cons_of_mem _ inside)) line later

end Drawing

/-- Views that can be read off their drawings have the same drawing where they are the same but for
the numbers of members, and nowhere else. A drawing has a line for each occurrence. -/
theorem drawing_eq_iff {view other : List Occurrence}
    (readable : ∀ entry ∈ Occurrence.preorderAll 0 view, Drawing.Readable entry.2)
    (otherReadable : ∀ entry ∈ Occurrence.preorderAll 0 other, Drawing.Readable entry.2) :
    (drawing view = drawing other ↔
        Occurrence.withoutCountsAll view = Occurrence.withoutCountsAll other) ∧
      (textLines (drawing view)).length = (Occurrence.preorderAll 0 view).length := by
  have shows := Drawing.shows_drawingLines view
  refine ⟨⟨?_, ?_⟩, ?_⟩
  · intro same
    have lines := congrArg textLines same
    rw [Drawing.textLines_drawing readable, Drawing.textLines_drawing otherReadable] at lines
    have otherShows := Drawing.shows_drawingLines other
    rw [← lines] at otherShows
    exact Occurrence.withoutCountsAll_of_told view other
      (Drawing.map_told_eq shows otherShows readable otherReadable)
  · intro same
    rw [drawing, drawing, ← Drawing.drawingLines_withoutCounts view, same,
      Drawing.drawingLines_withoutCounts]
  · rw [Drawing.textLines_drawing readable, shows.length_eq]

def tillView (memberCount : Nat) : List Occurrence :=
  [{ key := { name := "Till [DATA]", granularity := .module }
     memberCount
     children := [
      { key := { name := "│   ● Pay", granularity := .component }
        children := [{ key := { name := "Card", granularity := .data }, repeated := true }] },
      { key := { name := "Refund ", granularity := .component }, cycle := true }] }]

def flatTillView : List Occurrence :=
  [{ key := { name := "Till [DATA]", granularity := .module }
     children := [
      { key := { name := "│   ● Pay", granularity := .component } },
      { key := { name := "Card", granularity := .data }, repeated := true },
      { key := { name := "Refund ", granularity := .component }, cycle := true }] }]

theorem tillView_drawn :
    (∀ entry ∈ Occurrence.preorderAll 0 (tillView 2), Drawing.Readable entry.2) ∧
      (∀ entry ∈ Occurrence.preorderAll 0 (tillView 5), Drawing.Readable entry.2) ∧
      (∀ entry ∈ Occurrence.preorderAll 0 flatTillView, Drawing.Readable entry.2) ∧
      drawing (tillView 2) = drawing (tillView 5) ∧
      drawing (tillView 2) ≠ drawing flatTillView ∧
      (textLines (drawing (tillView 2))).length = 4 := by
  have plain : ∀ character ∈ Drawing.reserved, character ∉ "Till [DATA]".toList :=
    Drawing.forall_reserved.mpr (by decide)
  have payPlain : ∀ character ∈ Drawing.reserved, character ∉ "│   ● Pay".toList :=
    Drawing.forall_reserved.mpr (by decide)
  have cardPlain : ∀ character ∈ Drawing.reserved, character ∉ "Card".toList :=
    Drawing.forall_reserved.mpr (by decide)
  have refundPlain : ∀ character ∈ Drawing.reserved, character ∉ "Refund ".toList :=
    Drawing.forall_reserved.mpr (by decide)
  have readable (count : Nat) :
      ∀ entry ∈ Occurrence.preorderAll 0 (tillView count), Drawing.Readable entry.2 := by
    simp only [tillView, Occurrence.preorderAll, Occurrence.preorder, List.append_nil,
      List.cons_append, List.nil_append, List.forall_mem_cons, List.not_mem_nil, false_imp_iff,
      implies_true, and_true]
    exact ⟨⟨plain, rfl⟩, ⟨payPlain, rfl⟩, ⟨cardPlain, rfl⟩, ⟨refundPlain, rfl⟩⟩
  have flatReadable : ∀ entry ∈ Occurrence.preorderAll 0 flatTillView,
      Drawing.Readable entry.2 := by
    simp only [flatTillView, Occurrence.preorderAll, Occurrence.preorder, List.append_nil,
      List.cons_append, List.nil_append, List.forall_mem_cons, List.not_mem_nil, false_imp_iff,
      implies_true, and_true]
    exact ⟨⟨plain, rfl⟩, ⟨payPlain, rfl⟩, ⟨cardPlain, rfl⟩, ⟨refundPlain, rfl⟩⟩
  obtain ⟨recounted, lines⟩ := drawing_eq_iff (readable 2) (readable 5)
  have flat := (drawing_eq_iff (readable 2) flatReadable).1
  refine ⟨readable 2, readable 5, flatReadable, recounted.mpr rfl, ?_, lines⟩
  rw [Ne, flat]
  intro same
  simp [tillView, flatTillView, Occurrence.withoutCountsAll, Occurrence.withoutCounts] at same

end FeatureAtlas
