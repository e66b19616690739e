import Mathlib.Algebra.Order.BigOperators.Group.List
import Mathlib.Algebra.Order.Group.Nat
import Mathlib.Data.List.DropRight
import FeatureAtlas.Proofs.Files.Writing

/-!
Directories that are made on the way to a file. All the names before the last one have to lead
through directories or through nothing, and where the file is to be there may be no directory, not
even one that has just been made.
-/

namespace FeatureAtlas

namespace Path

/-! The directory that a path leads into. -/

theorem throughLastName_eq (segments : List String) :
    throughLastName segments = segments.rdropWhile fun segment => !isName segment :=
  rfl

theorem throughLastName_prefix (segments : List String) : throughLastName segments <+: segments :=
  List.rdropWhile_prefix _ segments

theorem filter_throughLastName (segments : List String) :
    (throughLastName segments).filter isName = segments.filter isName := by
  rw [throughLastName_eq]
  induction segments using List.reverseRecOn with
  | nil => rfl
  | append_singleton front segment ih =>
      rw [List.rdropWhile_concat]
      cases named : isName segment with
      | true => simp
      | false => simpa [named] using ih

theorem exists_throughLastName {segments : List String} (named : segments.filter isName ≠ []) :
    ∃ front name, throughLastName segments = front ++ [name] ∧ isName name = true := by
  have some : throughLastName segments ≠ [] := by
    intro none
    rw [← filter_throughLastName, none] at named
    exact named rfl
  have last : ¬(!isName ((throughLastName segments).getLast some)) = true :=
    List.rdropWhile_last_not _ segments some
  refine ⟨_, _, (List.dropLast_append_getLast some).symm, ?_⟩
  simpa using last

theorem parent?_of_unnamed {path : Path} (unnamed : path.names = []) : path.parent? = none := by
  have none : throughLastName path.segments = [] := by
    rw [throughLastName_eq, List.rdropWhile_eq_nil_iff]
    intro segment member
    simpa using List.filter_eq_nil_iff.mp unnamed segment member
  rw [parent?, none]

theorem exists_parent {path : Path} (named : path.names ≠ []) :
    ∃ parent, path.parent? = some parent ∧ parent.segments <+: path.segments ∧
      parent.names = path.names.dropLast := by
  obtain ⟨front, name, split, isName⟩ := exists_throughLastName named
  refine ⟨{ segments := throughLastName front }, ?_, ?_, ?_⟩
  · rw [parent?, split]
    simp
  · have inside : front <+: throughLastName path.segments := split ▸ List.prefix_append front [name]
    have inner := throughLastName_prefix front
    have outer := throughLastName_prefix path.segments
    exact (inner.trans inside).trans outer
  · have all : path.names = front.filter Path.isName ++ [name] := by
      rw [names, ← filter_throughLastName, split]
      simp [isName]
    rw [all, List.dropLast_concat]
    exact filter_throughLastName front

theorem length_mono {path whole : Path} (inside : path.segments <+: whole.segments) :
    path.length ≤ whole.length := by
  obtain ⟨rest, split⟩ := inside
  have sum (sizes : List Nat) : sizes.foldl (· + ·) 0 = sizes.sum := List.sum_eq_foldl.symm
  rw [length, length, sum, sum, ← split, List.map_append, List.sum_append, List.length_append]
  omega

theorem isEmpty_of_named {path : Path} (named : path.names ≠ []) : path.isEmpty = false := by
  obtain ⟨name, member⟩ := List.exists_mem_of_ne_nil _ named
  obtain ⟨inside, isName⟩ := List.mem_filter.mp member
  have positive : name.utf8ByteSize ≠ 0 := by
    rw [ne_eq, String.utf8ByteSize_eq_zero_iff]
    rintro rfl
    exact absurd isName (by decide)
  have counted : name.utf8ByteSize ≤ (path.segments.map String.utf8ByteSize).sum :=
    List.le_sum_of_mem (List.mem_map_of_mem inside)
  rw [isEmpty, length, ← List.sum_eq_foldl, beq_eq_false_iff_ne]
  omega

theorem fromTop_of_prefix {path whole : Path} (inside : path.segments <+: whole.segments)
    (named : path.names ≠ []) : path.fromTop = whole.fromTop := by
  obtain ⟨segments⟩ := path
  obtain ⟨wholeSegments⟩ := whole
  obtain ⟨rest, rfl⟩ := inside
  match segments with
  | [] => exact absurd rfl named
  | [first] =>
      have filled : first ≠ "" := by
        rintro rfl
        exact named (by decide)
      simp [fromTop, filled]
  | first :: second :: more =>
      by_cases empty : first = ""
      · rw [empty]
        rfl
      · simp [fromTop, empty]

theorem dropLast_append_getLast_names (path : Path) :
    path.names.dropLast ++ path.names.getLast?.toList = path.names := by
  rcases List.eq_nil_or_concat path.names with none | ⟨front, last, split⟩
  · rw [none]
    rfl
  · simp [split]

end Path

/-! The names on the way. -/

namespace Place

/-- The places that names lead into one after the other. Two dots lead back to the place before. -/
def passed (here : Place) : List String → List Place
  | [] => []
  | ".." :: rest => passed here.dropLast rest
  | name :: rest => (here ++ [name]) :: passed (here ++ [name]) rest

def reached (here : Place) : List String → Place
  | [] => here
  | ".." :: rest => reached here.dropLast rest
  | name :: rest => reached (here ++ [name]) rest

variable {here : Place} {name : String} {rest : List String}

theorem passed_down (down : name ≠ "..") :
    passed here (name :: rest) = (here ++ [name]) :: passed (here ++ [name]) rest := by
  rw [passed]
  exact down

theorem reached_down (down : name ≠ "..") :
    reached here (name :: rest) = reached (here ++ [name]) rest := by
  rw [reached]
  exact down

theorem reached_append (here : Place) (front back : List String) :
    reached here (front ++ back) = reached (reached here front) back := by
  fun_induction reached here front with
  | case1 here => rfl
  | case2 here rest ih => exact ih
  | case3 here name rest down ih =>
      rw [List.cons_append, reached_down down]
      exact ih

end Place

namespace Disk

variable {disk : Disk} {path : Path} {here place : Place} {name : String} {rest names : List String}

/-- Directories can be made along names: none of them is too long and no file stands on the way. -/
structure Passable (disk : Disk) (here : Place) (names : List String) : Prop where
  short : ∀ name ∈ names, isTooLong name = false
  clear : ∀ place ∈ Place.passed here names, ∀ content, disk.entry? place ≠ some (.file content)

theorem isTooLong_up : isTooLong ".." = false := by decide +kernel

theorem passable_nil (disk : Disk) (here : Place) : disk.Passable here [] :=
  ⟨by simp, by simp [Place.passed]⟩

theorem passable_up : disk.Passable here (".." :: rest) ↔ disk.Passable here.dropLast rest := by
  constructor
  · exact fun passable => ⟨(List.forall_mem_cons.mp passable.short).2, passable.clear⟩
  · exact fun passable => ⟨List.forall_mem_cons.mpr ⟨isTooLong_up, passable.short⟩, passable.clear⟩

theorem passable_down (down : name ≠ "..") : disk.Passable here (name :: rest) ↔
    isTooLong name = false ∧ (∀ content, disk.entry? (here ++ [name]) ≠ some (.file content)) ∧
      disk.Passable (here ++ [name]) rest := by
  constructor
  · rintro ⟨short, clear⟩
    rw [Place.passed_down down] at clear
    obtain ⟨first, later⟩ := List.forall_mem_cons.mp short
    obtain ⟨here, further⟩ := List.forall_mem_cons.mp clear
    exact ⟨first, here, later, further⟩
  · rintro ⟨first, here, later, further⟩
    refine ⟨List.forall_mem_cons.mpr ⟨first, later⟩, ?_⟩
    rw [Place.passed_down down]
    exact List.forall_mem_cons.mpr ⟨here, further⟩

theorem passable_setEntry (named : place ≠ []) (absent : disk.entry? place = none) :
    (disk.setEntry place .directory).Passable here names ↔ disk.Passable here names := by
  have same (other : Place) (content : FileContent) :
      Disk.entry? (disk.setEntry place .directory) other = some (.file content) ↔
        disk.entry? other = some (.file content) := by
    rw [entry?_setEntry named]
    split
    · rename_i isPlace
      simp [isPlace, absent]
    · rfl
  constructor
  · exact fun passable =>
      ⟨passable.short, fun other member content file =>
        passable.clear other member content ((same other content).mpr file)⟩
  · exact fun passable =>
      ⟨passable.short, fun other member content file =>
        passable.clear other member content ((same other content).mp file)⟩

theorem makeAlong_ok_iff (disk : Disk) (here : Place) (names : List String) :
    (disk.makeAlong here names).2 = .ok () ↔ disk.Passable here names := by
  fun_induction makeAlong disk here names with
  | case1 disk here => exact iff_of_true rfl (passable_nil disk here)
  | case2 disk here rest ih => exact ih.trans passable_up.symm
  | case3 disk here name rest down long =>
      refine iff_of_false (by simp) fun passable => ?_
      rw [((passable_down down).mp passable).1] at long
      cases long
  | case4 disk here name rest down next short absent ih =>
      have fits : isTooLong name = false := by simpa using short
      have free : ∀ content, disk.entry? next ≠ some (.file content) := by simp [absent]
      rw [ih, passable_setEntry (List.concat_ne_nil _ _) absent, passable_down down,
        and_iff_right fits, and_iff_right free]
  | case5 disk here name rest down next short isDirectory ih =>
      have fits : isTooLong name = false := by simpa using short
      have free : ∀ content, disk.entry? next ≠ some (.file content) := by simp [isDirectory]
      rw [ih, passable_down down, and_iff_right fits, and_iff_right free]
  | case6 disk here name rest down next short content isFile =>
      refine iff_of_false (by simp) fun passable => ?_
      exact ((passable_down down).mp passable).2.1 content isFile

theorem entry?_makeAlong (passable : disk.Passable here names) (place : Place) :
    Disk.entry? (disk.makeAlong here names).1 place =
      if place ∈ Place.passed here names then some .directory else disk.entry? place := by
  fun_induction makeAlong disk here names with
  | case1 disk here => rfl
  | case2 disk here rest ih => exact ih (passable_up.mp passable)
  | case3 disk here name rest down long =>
      rw [((passable_down down).mp passable).1] at long
      cases long
  | case4 disk here name rest down next short absent ih =>
      have named : next ≠ [] := List.concat_ne_nil _ _
      obtain ⟨_, _, later⟩ := (passable_down down).mp passable
      rw [ih ((passable_setEntry named absent).mpr later), Place.passed_down down,
        entry?_setEntry named]
      by_cases first : place = next
      · simp [first, next]
      · simp [first, next]
  | case5 disk here name rest down next short isDirectory ih =>
      obtain ⟨_, _, later⟩ := (passable_down down).mp passable
      rw [ih later, Place.passed_down down]
      by_cases first : place = next
      · simp [first, next, isDirectory]
      · simp [first, next]
  | case6 disk here name rest down next short content isFile =>
      exact absurd isFile (((passable_down down).mp passable).2.1 content)

theorem walk_of_passed (short : ∀ name ∈ names, isTooLong name = false)
    (directories : ∀ place ∈ Place.passed here names, disk.entry? place = some .directory) :
    disk.walk here names = .ok (Place.reached here names) := by
  fun_induction Place.reached here names with
  | case1 here => rfl
  | case2 here rest ih => exact ih (List.forall_mem_cons.mp short).2 directories
  | case3 here name rest down ih =>
      rw [Place.passed_down down] at directories
      obtain ⟨first, later⟩ := List.forall_mem_cons.mp directories
      obtain ⟨fits, others⟩ := List.forall_mem_cons.mp short
      rw [walk, if_neg (by simp [fits]), first]
      · exact ih others later
      · exact down

theorem placeIn_eq (directory : Place) (path : Path) :
    placeIn directory path =
      if ∀ name ∈ path.names.getLast?, isTooLong name = false then
        .ok (Place.reached directory path.names.getLast?.toList)
      else .error .nameTooLong := by
  rw [placeIn]
  split
  · rename_i none
    simp [none, Place.reached]
  · rename_i up
    simp [up, isTooLong_up, Place.reached]
  · rename_i name down last
    have single : Place.reached directory [name] = directory ++ [name] :=
      Place.reached_down down
    simp only [last, Option.mem_some_iff, forall_eq', Option.toList_some, single]
    cases isTooLong name <;> rfl

/-! The file. -/

theorem checkPath_ok_iff : checkPath path = .ok () ↔
    (∀ name ∈ path.names, '\x00' ∉ name.toList) ∧ path.isEmpty = false ∧
      path.length ≤ greatestPathLength := by
  rw [checkPath]
  split
  · simp_all
  · split
    · simp_all
    · split <;> simp_all

theorem checkPath_parent {parent : Path} (inside : parent.segments <+: path.segments)
    (named : parent.names ≠ []) (usable : checkPath path = .ok ()) : checkPath parent = .ok () := by
  obtain ⟨plain, _, fits⟩ := checkPath_ok_iff.mp usable
  refine checkPath_ok_iff.mpr ⟨fun name member => plain name ?_, Path.isEmpty_of_named named,
    (Path.length_mono inside).trans fits⟩
  exact (inside.sublist.filter Path.isName).subset member

theorem makeParent_eq (usable : checkPath path = .ok ()) :
    disk.makeParent path = disk.makeAlong (disk.startOf path) path.names.dropLast := by
  by_cases unnamed : path.names = []
  · rw [makeParent, Path.parent?_of_unnamed unnamed, unnamed]
    rfl
  · obtain ⟨parent, isParent, inside, names⟩ := Path.exists_parent unnamed
    rw [makeParent, isParent]
    dsimp only
    rw [makeDirectories, ← names]
    by_cases none : parent.names = []
    · rw [if_pos none, none]
      rfl
    · rw [if_neg none, checkPath_parent inside none usable, startOf, startOf,
        Path.fromTop_of_prefix inside none]

/-- A text can be written at a path once the directories on the way have been made. -/
structure Writable (disk : Disk) (path : Path) : Prop where
  usable : checkPath path = .ok ()
  ending : path.ending = .name
  short : ∀ name ∈ path.names, isTooLong name = false
  clear : ∀ place ∈ Place.passed (disk.startOf path) path.names.dropLast,
    ∀ content, disk.entry? place ≠ some (.file content)
  free : disk.entry? (Place.reached (disk.startOf path) path.names) ≠ some .directory
  apart : Place.reached (disk.startOf path) path.names ∉
    Place.passed (disk.startOf path) path.names.dropLast

theorem exists_write_iff {content : FileContent} :
    (∃ written, disk.write path content = .ok written) ↔
      ∃ place, disk.locate path = .ok place ∧ path.ending = .name ∧
        disk.entry? place ≠ some .directory := by
  constructor
  · rintro ⟨written, succeeded⟩
    obtain ⟨directory, place, contained, placed, file, ending, _⟩ := exists_wrote succeeded
    refine ⟨place, ?_, ending, file⟩
    rw [locate, contained]
    exact placed
  · rintro ⟨place, located, ending, file⟩
    rw [locate] at located
    cases contained : disk.container path with
    | error cause => simp [contained, bind, Except.bind] at located
    | ok directory =>
        have placed : placeIn directory path = .ok place := by
          rw [contained] at located
          exact located
        refine ⟨disk.setEntry place (.file content), ?_⟩
        rw [write, contained]
        simp only [bind, Except.bind, placed, ending]
        split
        · contradiction
        · cases found : disk.entry? place with
          | none => rfl
          | some entry =>
              cases entry with
              | directory => exact absurd found file
              | file old => rfl

theorem locate_of_passed (usable : checkPath path = .ok ())
    (short : ∀ name ∈ path.names, isTooLong name = false)
    (directories : ∀ place ∈ Place.passed (disk.startOf path) path.names.dropLast,
      disk.entry? place = some .directory) :
    disk.locate path = .ok (Place.reached (disk.startOf path) path.names) := by
  have walked := walk_of_passed (fun name member => short name (List.dropLast_subset _ member))
    directories
  have last : ∀ name ∈ path.names.getLast?, isTooLong name = false :=
    fun name isLast => short name (List.mem_of_getLast? isLast)
  rw [locate, container, usable]
  simp only [bind, Except.bind, walked]
  rw [placeIn_eq, if_pos last, ← Place.reached_append, path.dropLast_append_getLast_names]

theorem usable_of_locate (located : disk.locate path = .ok place) :
    checkPath path = .ok () ∧ ∀ name ∈ path.names.getLast?, isTooLong name = false := by
  rw [locate, container] at located
  cases usable : checkPath path with
  | error cause => simp [usable, bind, Except.bind] at located
  | ok _ =>
      simp only [usable, bind, Except.bind] at located
      refine ⟨rfl, ?_⟩
      split at located
      · cases located
      · rw [placeIn_eq] at located
        split at located
        · assumption
        · cases located

theorem Writable.passable (writable : disk.Writable path) :
    disk.Passable (disk.startOf path) path.names.dropLast :=
  ⟨fun name member => writable.short name (List.dropLast_subset _ member), writable.clear⟩

theorem Passable.locate (passable : disk.Passable (disk.startOf path) path.names.dropLast)
    (usable : checkPath path = .ok ()) (short : ∀ name ∈ path.names, isTooLong name = false) :
    (disk.makeParent path).1.locate path =
      .ok (Place.reached (disk.startOf path) path.names) := by
  have start : (disk.makeParent path).1.startOf path = disk.startOf path := by
    rw [startOf, startOf, makeParent_eq usable, (makeAlong_extends ..).start]
  rw [← start]
  refine locate_of_passed usable short fun place member => ?_
  rw [start] at member
  rw [makeParent_eq usable, entry?_makeAlong passable, if_pos member]

/-- Where a text can be written, and nowhere else, the directories on the way are made and the text
is written. -/
theorem exists_write_makeParent_iff {content : FileContent} :
    ((disk.makeParent path).2 = .ok () ∧
        ∃ written, (disk.makeParent path).1.write path content = .ok written) ↔
      disk.Writable path := by
  rw [exists_write_iff]
  constructor
  · rintro ⟨made, place, located, ending, file⟩
    obtain ⟨usable, last⟩ := usable_of_locate located
    rw [makeParent_eq usable, makeAlong_ok_iff] at made
    -- The last name is looked up by the writing, the others when the directories are made.
    have short : ∀ name ∈ path.names, isTooLong name = false := by
      intro name member
      rw [← path.dropLast_append_getLast_names] at member
      rcases List.mem_append.mp member with before | isLast
      · exact made.short name before
      · exact last name (by simpa using isLast)
    have same := Except.ok.inj (located.symm.trans (made.locate usable short))
    rw [makeParent_eq usable, entry?_makeAlong made, same] at file
    split at file
    · contradiction
    · rename_i apart
      exact ⟨usable, ending, short, made.clear, file, apart⟩
  · intro writable
    have passable := writable.passable
    refine ⟨?_, _, passable.locate writable.usable writable.short, writable.ending, ?_⟩
    · rw [makeParent_eq writable.usable, makeAlong_ok_iff]
      exact passable
    · rw [makeParent_eq writable.usable, entry?_makeAlong passable, if_neg writable.apart]
      exact writable.free

end Disk

end FeatureAtlas
