import SyntaxForest.Value

/-!
# Values as JSON

Two printers over one set of scalars. The *compact* one writes log records and
lists on one line, with JSON's own words for keys that are no text. The
*indented* one writes reports, one item a line, with such keys written as they
are displayed. Both write ASCII only: every other character is escaped by its
UTF-16 units.
-/

namespace SyntaxForest.Value

open Number

/-- Why a value cannot be printed. -/
inductive JsonFault
  /-- A key is neither a text nor a scalar. -/
  | badKey (kind : String)
  /-- A value is of a kind that JSON does not have. -/
  | noJson (kind : String)
  deriving DecidableEq, Repr

/-! ## Scalars -/

/-- One UTF-16 unit, escaped. -/
def unitEscape (n : Nat) : String := "\\u" ++ Text.hexPadded 4 n

/-- How one character is written inside a JSON text. -/
def jsonChar (c : Char) : String :=
  if c = '"' then "\\\""
  else if c = '\\' then "\\\\"
  else if c = '\n' then "\\n"
  else if c = '\r' then "\\r"
  else if c = '\t' then "\\t"
  else if c = '\x0C' then "\\f"
  else if c = '\x08' then "\\b"
  else if 0x20 ≤ c.toNat ∧ c.toNat < 0x7F then c.toString
  else if c.toNat < 0x10000 then unitEscape c.toNat
  else
    let high := 0xD800 + (c.toNat - 0x10000) / 0x400
    let low := 0xDC00 + (c.toNat - 0x10000) % 0x400
    unitEscape high ++ unitEscape low

/-- **A text as JSON.** -/
def jsonText (s : String) : String := "\"" ++ String.join (s.toList.map jsonChar) ++ "\""

/-- A truth value as JSON. -/
def jsonBool (b : Bool) : String := if b then "true" else "false"

/-! ## On one line -/

/-- A key of a compact dictionary. -/
def compactKey : Value → Except JsonFault String
  | .text s => .ok (jsonText s)
  | .bool b => .ok (jsonText (jsonBool b))
  | .null => .ok (jsonText "null")
  | .int i => .ok (jsonText (toString i))
  | .real x => .ok (jsonText (FloatLayout.json.text x))
  | v => .error (.badKey v.kindName)

mutual

/-- **A value on one line.** A kind that JSON does not have is written as its
text. -/
def compact : Value → Except JsonFault String
  | .null => .ok "null"
  | .bool b => .ok (jsonBool b)
  | .int i => .ok (toString i)
  | .real x => .ok (FloatLayout.json.text x)
  | .text s => .ok (jsonText s)
  | .list items => return "[" ++ (← compactItems items) ++ "]"
  | .tuple items => return "[" ++ (← compactItems items) ++ "]"
  | .dict entries => return "\x7b" ++ (← compactEntries entries) ++ "\x7d"
  | .set items => .ok (jsonText (display (.set items)))
  | .bytes items => .ok (jsonText (display (.bytes items)))
  | .day d => .ok (jsonText (display (.day d)))
  | .moment m => .ok (jsonText (display (.moment m)))

/-- Items with commas between them. -/
def compactItems : List Value → Except JsonFault String
  | [] => .ok ""
  | [v] => compact v
  | v :: rest => return (← compact v) ++ ", " ++ (← compactItems rest)

/-- Entries with commas between them. -/
def compactEntries : List (Value × Value) → Except JsonFault String
  | [] => .ok ""
  | [(k, v)] => return (← compactKey k) ++ ": " ++ (← compact v)
  | (k, v) :: rest =>
    return (← compactKey k) ++ ": " ++ (← compact v) ++ ", " ++ (← compactEntries rest)

end

/-! ## One item a line -/

/-- A line break, and the blanks of a level; a negative indent gives none. -/
def lineBreak (indent : Int) (level : Nat) : String :=
  "\n" ++ String.ofList (List.replicate (indent.toNat * level) ' ')

mutual

/-- **A value with one item a line**, at a level of nesting. -/
def indentedAt (indent : Int) (level : Nat) : Value → Except JsonFault String
  | .null => .ok "null"
  | .bool b => .ok (jsonBool b)
  | .int i => .ok (toString i)
  | .real x => .ok (FloatLayout.json.text x)
  | .text s => .ok (jsonText s)
  | .list [] | .tuple [] => .ok "[]"
  | .dict [] => .ok "\x7b\x7d"
  | .list items =>
    return "[" ++ (← indentedItems indent level items) ++ lineBreak indent level ++ "]"
  | .tuple items =>
    return "[" ++ (← indentedItems indent level items) ++ lineBreak indent level ++ "]"
  | .dict entries =>
    return "\x7b" ++ (← indentedEntries indent level entries) ++ lineBreak indent level ++ "\x7d"
  | v => .error (.noJson v.kindName)

/-- The items one level deeper, each on its own line. -/
def indentedItems (indent : Int) (level : Nat) : List Value → Except JsonFault String
  | [] => .ok ""
  | [v] => return lineBreak indent (level + 1) ++ (← indentedAt indent (level + 1) v)
  | v :: rest =>
    return lineBreak indent (level + 1) ++ (← indentedAt indent (level + 1) v) ++ ","
      ++ (← indentedItems indent level rest)

/-- The entries one level deeper, each on its own line. -/
def indentedEntries (indent : Int) (level : Nat) :
    List (Value × Value) → Except JsonFault String
  | [] => .ok ""
  | [(k, v)] =>
    return lineBreak indent (level + 1) ++ jsonText k.display ++ ": "
      ++ (← indentedAt indent (level + 1) v)
  | (k, v) :: rest =>
    return lineBreak indent (level + 1) ++ jsonText k.display ++ ": "
      ++ (← indentedAt indent (level + 1) v) ++ ","
      ++ (← indentedEntries indent level rest)

end

/-- **A value as an indented report.** -/
def indented (v : Value) (indent : Int) : Except JsonFault String := indentedAt indent 0 v

end SyntaxForest.Value
