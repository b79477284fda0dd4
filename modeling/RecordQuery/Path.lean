import RecordQuery.Text.Split

/-!
Dotted paths over associations. A segment may end in `?`, which makes its hop optional; `$id`
stands for the primary key.
-/

namespace RecordQuery.Path

def idSegment : String := "$id"

def segments (path : String) : List String := Text.split '.' path

def isMarker (c : Char) : Bool := c == '?'

def isOptional (segment : String) : Bool := segment.toList.getLast?.any isMarker

def bare (segment : String) : String :=
  String.ofList (segment.toList.reverse.dropWhile isMarker).reverse

def normalize (path : String) : String := ".".intercalate ((segments path).map bare)

def under (base path : String) : String := if base.isEmpty then path else base ++ "." ++ path

/-- The normalized path before the last dot, and the segment after it. -/
def parentAndLeaf? (path : String) : Option (String × String) :=
  (Text.cutLast? '.' path.toList).map fun (parent, leaf) =>
    (normalize (String.ofList parent), String.ofList leaf)

end RecordQuery.Path
