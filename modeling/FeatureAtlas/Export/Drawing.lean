import FeatureAtlas.Model.NestedView

/-!
The nested view drawn as a tree of lines, one for each occurrence.
-/

namespace FeatureAtlas

namespace Drawing

def sign : Granularity → String
  | .concept => "◆"
  | .module => "■"
  | .component => "●"
  | .data => "○"

def mark (occurrence : Occurrence) : String :=
  if occurrence.cycle then " ↺" else if occurrence.repeated then " ↑" else ""

def branch (isLast : Bool) : String := if isLast then "└── " else "├── "

def continuation (isLast : Bool) : String := if isLast then "    " else "│   "

mutual

def nestedLines (margin : String) (isLast : Bool) : Occurrence → List String
  | { key, memberCount, children, cycle, repeated } =>
      (margin ++ branch isLast ++ sign key.granularity ++ " " ++ key.name ++
        mark { key, memberCount, children, cycle, repeated }) ::
        childLines (margin ++ continuation isLast) children

def childLines (margin : String) : List Occurrence → List String
  | [] => []
  | child :: rest => nestedLines margin rest.isEmpty child ++ childLines margin rest

end

def topLines (occurrence : Occurrence) : List String :=
  (occurrence.key.display ++ mark occurrence) :: childLines "" occurrence.children

end Drawing

def drawingLines (view : List Occurrence) : List String := view.flatMap Drawing.topLines

def drawing (view : List Occurrence) : String := joinLines (drawingLines view)

end FeatureAtlas
