import Mathlib.Algebra.GroupWithZero.Nat
import Mathlib.Data.List.Basic
import FeatureAtlas.Basic

/-!
The lines that a reader finds in a text. Joined lines are found again, except that each of them is
broken at the line feeds of its own.
-/

namespace FeatureAtlas

def lineFeeds (text : String) : Nat := text.toList.count '\n'

def pieces (text : String) : List String := (text.toList.splitOn '\n').map String.ofList

/-- The lines of a text. What follows the last line feed is a line unless it is empty. -/
def textLines (text : String) : List String :=
  if (pieces text).getLast? = some "" then (pieces text).dropLast else pieces text

theorem pieces_append (line text : String) :
    pieces (line ++ "\n" ++ text) = pieces line ++ pieces text := by
  have feed : "\n".toList = ['\n'] := rfl
  rw [pieces, String.toList_append, String.toList_append, feed, List.append_assoc,
    List.singleton_append, List.splitOn_append_cons_self, List.map_append, pieces, pieces]

theorem pieces_joinLines (lines : List String) :
    pieces (joinLines lines) = lines.flatMap pieces ++ [""] := by
  induction lines with
  | nil => rfl
  | cons line rest ih =>
      have joined : joinLines (line :: rest) = line ++ "\n" ++ joinLines rest := by
        apply String.toList_inj.mp
        simp [joinLines, String.toList_join]
      rw [joined, pieces_append, ih, List.flatMap_cons, List.append_assoc]

theorem textLines_joinLines (lines : List String) :
    textLines (joinLines lines) = lines.flatMap pieces := by
  rw [textLines, pieces_joinLines, List.getLast?_concat, if_pos rfl, List.dropLast_concat]

theorem pieces_of_plain {text : String} (plain : lineFeeds text = 0) : pieces text = [text] := by
  rw [lineFeeds, List.count_eq_zero] at plain
  rw [pieces, List.splitOn_eq_singleton plain, List.map_singleton, String.ofList_toList]

theorem length_pieces (text : String) : (pieces text).length = lineFeeds text + 1 := by
  rw [pieces, List.length_map, lineFeeds]
  induction text.toList with
  | nil => rfl
  | cons character rest ih =>
      rw [List.splitOn_cons_eq_if_modifyHead]
      by_cases feed : character = '\n'
      · simp [feed, ih]
      · simp [feed, ih]

/-! The number of lines. -/

theorem lineFeeds_append (text other : String) :
    lineFeeds (text ++ other) = lineFeeds text + lineFeeds other := by
  rw [lineFeeds, String.toList_append, List.count_append, lineFeeds, lineFeeds]

def innerFeeds (texts : List String) : Nat := (texts.map lineFeeds).sum

theorem innerFeeds_cons (text : String) (rest : List String) :
    innerFeeds (text :: rest) = lineFeeds text + innerFeeds rest := by
  rw [innerFeeds, List.map_cons, List.sum_cons, innerFeeds]

theorem innerFeeds_append (first second : List String) :
    innerFeeds (first ++ second) = innerFeeds first + innerFeeds second := by
  rw [innerFeeds, List.map_append, List.sum_append, innerFeeds, innerFeeds]

theorem innerFeeds_map {α : Type} (items : List α) (text : α → String) :
    innerFeeds (items.map text) = (items.map fun item => lineFeeds (text item)).sum := by
  rw [innerFeeds, List.map_map]
  rfl

theorem innerFeeds_flatMap {α : Type} (items : List α) (texts : α → List String) :
    innerFeeds (items.flatMap texts) = (items.map fun item => innerFeeds (texts item)).sum := by
  induction items with
  | nil => rfl
  | cons item rest ih =>
      rw [List.flatMap_cons, innerFeeds_append, ih, List.map_cons, List.sum_cons]

theorem innerFeeds_eq_zero_iff {texts : List String} :
    innerFeeds texts = 0 ↔ ∀ text ∈ texts, lineFeeds text = 0 := by
  rw [innerFeeds, List.sum_eq_zero_iff_forall_eq_nat]
  simp

theorem length_textLines_joinLines (lines : List String) :
    (textLines (joinLines lines)).length = lines.length + innerFeeds lines := by
  rw [textLines_joinLines]
  induction lines with
  | nil => rfl
  | cons line rest ih =>
      rw [List.flatMap_cons, List.length_append, length_pieces, ih, List.length_cons,
        innerFeeds_cons]
      omega

theorem textLines_of_plain {lines : List String} (plain : innerFeeds lines = 0) :
    textLines (joinLines lines) = lines := by
  rw [textLines_joinLines, List.flatMap_congr fun line member =>
    pieces_of_plain (innerFeeds_eq_zero_iff.mp plain line member)]
  exact List.flatMap_singleton' lines

end FeatureAtlas
