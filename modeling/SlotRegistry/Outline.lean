/-!
# Outline — a value's shape, written on one line or over several

An outline is a tree of named parts.  `compact` writes it on one line; `pretty` gives each part a line of its own,
four blanks deeper than its parent, with a comma after every part.
-/
namespace SlotRegistry

inductive Outline
  | leaf (text : String)
  | tuple (name : String) (parts : List Outline)
  | record (name : String) (fields : List (String × Outline))
  | mapping (rows : List (String × Outline))

namespace Outline

def openBrace : String := "\x7b"
def closeBrace : String := "\x7d"

def commaJoined (parts : List String) : String := ", ".intercalate parts

mutual

def compact : Outline → String
  | leaf text => text
  | tuple name parts => name ++ "(" ++ commaJoined (compactParts parts) ++ ")"
  | record name fields => name ++ " " ++ openBrace ++ " " ++ commaJoined (compactFields fields) ++ " " ++ closeBrace
  | mapping rows => openBrace ++ commaJoined (compactFields rows) ++ closeBrace

def compactParts : List Outline → List String
  | [] => []
  | o :: os => compact o :: compactParts os

def compactFields : List (String × Outline) → List String
  | [] => []
  | (label, o) :: fs => (label ++ ": " ++ compact o) :: compactFields fs

end

def margin (depth : Nat) : String := String.ofList (List.replicate (4 * depth) ' ')

/-- The lines of a block: `head` opens it, each part stands one level deeper and ends in a comma, `tail` closes it. -/
def block (depth : Nat) (head : String) (parts : List String) (tail : String) : String :=
  head ++ "\n" ++ String.join (parts.map (fun p => margin (depth + 1) ++ p ++ ",\n")) ++ margin depth ++ tail

mutual

/-- The outline over several lines, as the continuation of a line that stands `depth` levels deep. -/
def prettyAt : Nat → Outline → String
  | _, leaf text => text
  | depth, tuple name parts => block depth (name ++ "(") (prettyParts (depth + 1) parts) ")"
  | depth, record name fields =>
    block depth (name ++ " " ++ openBrace) (prettyFields (depth + 1) fields) closeBrace
  | _, mapping [] => openBrace ++ closeBrace
  | depth, mapping (row :: rows) => block depth openBrace (prettyFields (depth + 1) (row :: rows)) closeBrace

def prettyParts : Nat → List Outline → List String
  | _, [] => []
  | depth, o :: os => prettyAt depth o :: prettyParts depth os

def prettyFields : Nat → List (String × Outline) → List String
  | _, [] => []
  | depth, (label, o) :: fs => (label ++ ": " ++ prettyAt depth o) :: prettyFields depth fs

end

def pretty (o : Outline) : String := prettyAt 0 o

end Outline

end SlotRegistry
