import Mathlib.Data.List.Induction
import Mathlib.Data.List.Basic

/-!
Lists without their repetitions. Each value keeps the place of its first occurrence.
-/

namespace FeatureAtlas

theorem flatMap_eq_of_nodup {α β : Type} {values : List α} (distinct : values.Nodup) {value : α}
    (member : value ∈ values) {parts : α → List β}
    (others : ∀ other ∈ values, other ≠ value → parts other = []) :
    values.flatMap parts = parts value := by
  induction values with
  | nil => simp at member
  | cons first rest ih =>
      obtain ⟨apart, distinctRest⟩ := List.nodup_cons.mp distinct
      rw [List.flatMap_cons]
      by_cases here : first = value
      · subst here
        have none : rest.flatMap parts = [] := by
          rw [List.flatMap_eq_nil_iff]
          intro other later
          apply others other (List.mem_cons_of_mem _ later)
          rintro rfl
          exact apart later
        rw [none, List.append_nil]
      · have later := (List.mem_cons.mp member).resolve_left (Ne.symm here)
        rw [others first (by simp) here, List.nil_append]
        exact ih distinctRest later fun other inside => others other (by simp [inside])

section

variable {α β : Type} [BEq β] [LawfulBEq β]

theorem eraseDups_snoc (values : List β) (value : β) :
    (values ++ [value]).eraseDups =
      if value ∈ values then values.eraseDups else values.eraseDups ++ [value] := by
  rw [List.eraseDups_append]
  by_cases member : value ∈ values
  · simp [List.removeAll, member]
  · simp [List.removeAll, member, List.eraseDups_cons]

theorem eraseDups_prefix {values others : List β} (first : values <+: others) :
    values.eraseDups <+: others.eraseDups := by
  obtain ⟨rest, rfl⟩ := first
  rw [List.eraseDups_append]
  exact List.prefix_append _ _

theorem eraseDups_map [BEq α] [LawfulBEq α] {value : α → β} {items : List α}
    (apart : ∀ first ∈ items, ∀ second ∈ items, value first = value second → first = second) :
    (items.map value).eraseDups = items.eraseDups.map value := by
  induction items using List.reverseRecOn with
  | nil => rfl
  | append_singleton items item ih =>
      have earlier := ih fun first member second other =>
        apart first (List.mem_append_left _ member) second (List.mem_append_left _ other)
      have known : value item ∈ items.map value ↔ item ∈ items := by
        constructor
        · intro member
          obtain ⟨other, otherMember, same⟩ := List.mem_map.mp member
          rwa [← apart other (List.mem_append_left _ otherMember) item (by simp) same]
        · exact List.mem_map_of_mem
      rw [List.map_append, List.map_singleton, eraseDups_snoc, eraseDups_snoc, earlier]
      by_cases member : item ∈ items
      · rw [if_pos member, if_pos (known.mpr member)]
      · rw [if_neg member, if_neg (member ∘ known.mp), List.map_append, List.map_singleton]

theorem nodup_eraseDups (values : List β) : values.eraseDups.Nodup := by
  induction values using List.reverseRecOn with
  | nil => simp
  | append_singleton values value ih =>
      rw [eraseDups_snoc]
      split
      · exact ih
      · rename_i fresh
        refine List.nodup_append.mpr ⟨ih, by simp, ?_⟩
        intro other member last single same
        rw [List.mem_singleton] at single
        exact fresh (single ▸ same ▸ List.mem_eraseDups.mp member)

theorem pairwise_idxOf {values : List β} (distinct : values.Nodup) :
    values.Pairwise fun first second => values.idxOf first < values.idxOf second := by
  rw [List.pairwise_iff_getElem]
  intro first second firstBound secondBound before
  rwa [distinct.idxOf_getElem first firstBound, distinct.idxOf_getElem second secondBound]

theorem eraseDups_map_pairwise {before : α → α → Prop} (value : α → β)
    {items : List α} (ordered : items.Pairwise before) :
    (items.map value).eraseDups.Pairwise fun first second =>
      ∃ item ∈ items, value item = first ∧
        ∀ other ∈ items, value other = second → before item other := by
  induction items using List.reverseRecOn with
  | nil => simp
  | append_singleton items last ih =>
      obtain ⟨orderedInit, _, beforeLast⟩ := List.pairwise_append.mp ordered
      have earlier : (items.map value).eraseDups.Pairwise fun first second =>
          ∃ item ∈ items ++ [last], value item = first ∧
            ∀ other ∈ items ++ [last], value other = second → before item other := by
        refine (ih orderedInit).imp ?_
        rintro first second ⟨item, member, isFirst, ahead⟩
        refine ⟨item, List.mem_append_left _ member, isFirst, ?_⟩
        intro other otherMember isSecond
        rcases List.mem_append.mp otherMember with old | new
        · exact ahead other old isSecond
        · exact beforeLast item member other new
      rw [List.map_append, List.map_singleton, eraseDups_snoc]
      split
      · exact earlier
      · rename_i fresh
        refine List.pairwise_append.mpr ⟨earlier, by simp, ?_⟩
        intro first member second single
        rw [List.mem_singleton] at single
        subst single
        obtain ⟨item, itemMember, isFirst⟩ := List.mem_map.mp (List.mem_eraseDups.mp member)
        refine ⟨item, List.mem_append_left _ itemMember, isFirst, ?_⟩
        intro other otherMember isLast
        rcases List.mem_append.mp otherMember with old | new
        · exact absurd (List.mem_map.mpr ⟨other, old, isLast⟩) fresh
        · exact beforeLast item itemMember other new

end

end FeatureAtlas
