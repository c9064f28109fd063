import SlotRegistry.Datum
/-!
# Text — a datum as one line of text

Lists stand in brackets and records in braces, without blanks; texts are quoted.  Inside quotes a quote and a
backslash follow a backslash, control characters have a letter or four hexadecimal digits, and every other character
stands for itself.
-/
namespace SlotRegistry
namespace Datum

/-- A character inside quotes. -/
def escaped (c : Char) : List Char :=
  if c = '"' then ['\\', '"']
  else if c = '\\' then ['\\', '\\']
  else if c = '\x08' then ['\\', 'b']
  else if c = '\x0c' then ['\\', 'f']
  else if c = '\n' then ['\\', 'n']
  else if c = '\r' then ['\\', 'r']
  else if c = '\t' then ['\\', 't']
  else if c.toNat < 32 then ['\\', 'u', '0', '0', Nat.digitChar (c.toNat / 16), Nat.digitChar (c.toNat % 16)]
  else [c]

def quoted (s : String) : String := String.ofList ('"' :: s.toList.flatMap escaped ++ ['"'])

mutual

def render : Datum → String
  | null => "null"
  | flag b => if b then "true" else "false"
  | number n => toString n
  | text s => quoted s
  | list items => "[" ++ ",".intercalate (renderItems items) ++ "]"
  | record fields => "\x7b" ++ ",".intercalate (renderFields fields) ++ "\x7d"

def renderItems : List Datum → List String
  | [] => []
  | d :: ds => render d :: renderItems ds

def renderFields : List (String × Datum) → List String
  | [] => []
  | (label, d) :: fs => (quoted label ++ ":" ++ render d) :: renderFields fs

end

end Datum

end SlotRegistry
