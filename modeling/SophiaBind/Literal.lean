/-
**Literals of the contract language.**

Main definition:

* `Value.literal` — a value as a literal: lists in square brackets, tuples in parentheses, maps in braces
with their keys in square brackets; a text stands for itself.
-/

import SophiaBind.Value.Written

namespace SophiaBind.Value

mutual

/-- The characters of a value's literal. -/
def literalChars : Value → List Char
  | .bool b => if b then "true".toList else "false".toList
  | .int i => Integer.toText i
  | .text s => s.toList
  | .tuple items => '(' :: literalItems items ++ [')']
  | .list items => '[' :: literalItems items ++ [']']
  | .map entries => '{' :: literalEntries entries ++ ['}']
  | v => v.shown.toList

/-- Literals with commas between. -/
def literalItems : List Value → List Char
  | [] => []
  | [v] => literalChars v
  | v :: w :: rest => literalChars v ++ ',' :: literalItems (w :: rest)

/-- Entries with commas between. -/
def literalEntries : List (Value × Value) → List Char
  | [] => []
  | [(k, v)] => '[' :: literalChars k ++ ']' :: ' ' :: '=' :: ' ' :: literalChars v
  | (k, v) :: e :: rest =>
    '[' :: literalChars k ++ ']' :: ' ' :: '=' :: ' ' :: literalChars v ++ ',' :: literalEntries (e :: rest)

end

/-- A value as a literal. -/
def literal (v : Value) : String :=
  String.ofList v.literalChars

end SophiaBind.Value
