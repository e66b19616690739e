/-!
What all parts of the library share: blank text and texts made of lines, dictionaries, and the
journal of what is reported on the way.
-/

namespace FeatureAtlas

/-! Texts. -/

/-- The code points with the property `White_Space`, as inclusive ranges in ascending order. -/
def whiteSpaceRanges : List (Nat × Nat) :=
  [(0x9, 0xD), (0x20, 0x20), (0x85, 0x85), (0xA0, 0xA0), (0x1680, 0x1680), (0x2000, 0x200A),
    (0x2028, 0x2029), (0x202F, 0x202F), (0x205F, 0x205F), (0x3000, 0x3000)]

def isWhiteSpace (character : Char) : Bool :=
  whiteSpaceRanges.any fun (low, high) => low ≤ character.toNat && character.toNat ≤ high

/-- A name is blank when it shows no visible character, so also when it is empty. -/
def isBlank (text : String) : Bool :=
  text.toList.all isWhiteSpace

def joinLines (lines : List String) : String :=
  String.join (lines.map fun line => line ++ "\n")

/-! Dictionaries. -/

structure Dictionary (κ ν : Type) where
  entries : List (κ × ν) := []
deriving DecidableEq, Repr, Inhabited

namespace Dictionary

variable {κ ν : Type} [DecidableEq κ]

def get? (dictionary : Dictionary κ ν) (key : κ) : Option ν := dictionary.entries.lookup key

def contains (dictionary : Dictionary κ ν) (key : κ) : Bool := (dictionary.get? key).isSome

def putEntry (key : κ) (value : ν) : List (κ × ν) → List (κ × ν)
  | [] => [(key, value)]
  | (other, old) :: rest =>
      if other = key then (key, value) :: rest else (other, old) :: putEntry key value rest

def put (dictionary : Dictionary κ ν) (key : κ) (value : ν) : Dictionary κ ν :=
  { entries := putEntry key value dictionary.entries }

@[simp]
theorem get?_empty (key : κ) : ({} : Dictionary κ ν).get? key = none := rfl

theorem lookup_putEntry (key : κ) (value : ν) (entries : List (κ × ν)) (other : κ) :
    (putEntry key value entries).lookup other =
      if other = key then some value else entries.lookup other := by
  induction entries with
  | nil =>
      by_cases same : other = key
      · simp [putEntry, same]
      · simp [putEntry, same, List.lookup_cons, beq_false_of_ne same]
  | cons entry rest ih =>
      obtain ⟨first, old⟩ := entry
      by_cases here : first = key
      · by_cases same : other = key
        · simp [putEntry, here, same]
        · simp [putEntry, here, same, List.lookup_cons, beq_false_of_ne same]
      · by_cases same : other = first
        · simp [putEntry, here, same]
        · simp [putEntry, here, List.lookup_cons, beq_false_of_ne same, ih]

@[simp]
theorem get?_put (dictionary : Dictionary κ ν) (key : κ) (value : ν) (other : κ) :
    (dictionary.put key value).get? other =
      if other = key then some value else dictionary.get? other :=
  lookup_putEntry key value dictionary.entries other

theorem contains_put {dictionary : Dictionary κ ν} {key : κ} {value : ν} {other : κ} :
    (dictionary.put key value).contains other = true ↔
      other = key ∨ dictionary.contains other = true := by
  rw [contains, get?_put, contains]
  by_cases same : other = key
  · simp [same]
  · simp [same]

theorem putEntry_again {key : κ} {value : ν} {entries : List (κ × ν)}
    (found : entries.lookup key = some value) : putEntry key value entries = entries := by
  induction entries with
  | nil => simp at found
  | cons entry rest ih =>
      obtain ⟨first, old⟩ := entry
      rw [List.lookup_cons] at found
      by_cases here : first = key
      · simp only [here, beq_self_eq_true, Option.some.injEq] at found
        rw [putEntry, if_pos here, here, found]
      · simp only [beq_false_of_ne (Ne.symm here)] at found
        rw [putEntry, if_neg here, ih found]

theorem put_again {dictionary : Dictionary κ ν} {key : κ} {value : ν}
    (found : dictionary.get? key = some value) : dictionary.put key value = dictionary := by
  rw [put, putEntry_again found]

end Dictionary

/-! The journal. -/

inductive JournalLevel where
  | debug
  | info
  | warn
deriving DecidableEq, Repr

structure JournalEvent where
  level : JournalLevel
  message : String
deriving DecidableEq, Repr

namespace JournalEvent

def debug (message : String) : JournalEvent := { level := .debug, message }

def info (message : String) : JournalEvent := { level := .info, message }

def warn (message : String) : JournalEvent := { level := .warn, message }

end JournalEvent

end FeatureAtlas
