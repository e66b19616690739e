/-!
Paths of files and directories, taken apart at their slashes.
-/

namespace FeatureAtlas

inductive PathEnding where
  | name
  | slash
  | dot
deriving DecidableEq, Repr

/-- A path, as its segments between slashes. A path that starts with a slash starts with an empty
segment. -/
structure Path where
  segments : List String
deriving DecidableEq, Repr

def splitWhere {α : Type} (separates : α → Bool) : List α → List (List α)
  | [] => [[]]
  | element :: rest =>
      match splitWhere separates rest with
      | [] => [[]]
      | first :: more =>
          if separates element then [] :: first :: more else (element :: first) :: more

namespace Path

def isName (segment : String) : Bool := segment != "" && segment != "."

def ofText (text : String) : Path :=
  { segments := (splitWhere (· == '/') text.toList).map String.ofList }

def fromTop (path : Path) : Bool :=
  match path.segments with
  | "" :: _ :: _ => true
  | _ => false

/-- The names that a path goes through. Two dots lead back to the containing directory. -/
def names (path : Path) : List String := path.segments.filter isName

def ending (path : Path) : PathEnding :=
  match path.segments.reverse.dropWhile (fun segment => segment == "") with
  | "." :: _ => .dot
  | _ => if path.segments.getLast? == some "" then .slash else .name

def length (path : Path) : Nat :=
  (path.segments.map String.utf8ByteSize).foldl (· + ·) 0 + (path.segments.length - 1)

def isEmpty (path : Path) : Bool := path.length == 0

def throughLastName (segments : List String) : List String :=
  (segments.reverse.dropWhile fun segment => !isName segment).reverse

/-- The directory that a path leads into, if the path has names. -/
def parent? (path : Path) : Option Path :=
  match throughLastName path.segments with
  | [] => none
  | segments => some { segments := throughLastName segments.dropLast }

def stemOfName (name : String) : String :=
  match (splitWhere (· == '.') name.toList).reverse with
  | _ :: before :: more =>
      let stem := String.ofList (['.'].intercalate (before :: more).reverse)
      if stem = "" then name else stem
  | _ => name

def stem? (path : Path) : Option String :=
  match path.names.getLast? with
  | none | some ".." => none
  | some name => some (stemOfName name)

def joinText (directory path : String) : String :=
  if path.toList.head? = some '/' then path else directory ++ "/" ++ path

end Path

end FeatureAtlas
