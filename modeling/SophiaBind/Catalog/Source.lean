/-
**A catalog from a contract's source.**

Where the compiler does not describe a contract, its public functions are found by scanning the source.
A declaration is a keyword, a name, a list of parameters in parentheses, a result type behind a colon if
there is one, and an equals sign; none of them holds an equals sign. It counts if the line on which it
begins starts like a public declaration.

Main definitions:

* `Catalog.stripComments` — the source without comments,
* `Catalog.declaration?` — the declaration at the beginning of a text,
* `Catalog.declarations` — all declarations of a text, each with its line up to its end,
* `Catalog.parametersOf` — a list of parameters,
* `Catalog.ofSource` — the catalog of a source, with its warnings.
-/

import SophiaBind.Catalog
import SophiaBind.Text.Blank
import SophiaBind.Text.Letter
import SophiaBind.Text.Nesting

namespace SophiaBind.Catalog

/-! ### Comments -/

/-- The number of characters up to and with the end of a block comment. -/
def blockEnd? : List Char → Option Nat
  | '*' :: '/' :: _ => some 2
  | _ :: r => (blockEnd? r).map (· + 1)
  | [] => none

/-- The number of characters of a block comment at the beginning of a text, if it is closed. -/
def blockLength? : List Char → Option Nat
  | '/' :: '*' :: r => (blockEnd? r).map (· + 2)
  | _ => none

/-- Drops the block comments, and the next `skip` characters. -/
def dropBlocks (skip : Nat) : List Char → List Char
  | [] => []
  | c :: r =>
    match skip with
    | n + 1 => dropBlocks n r
    | 0 =>
      match blockLength? (c :: r) with
      | some n => dropBlocks (n - 1) r
      | none => c :: dropBlocks 0 r

/-- Drops the line comments; `inside` says that the text begins within one. -/
def dropLineComments (inside : Bool) : List Char → List Char
  | [] => []
  | c :: r =>
    if inside then if c = '\n' then '\n' :: dropLineComments false r else dropLineComments true r
    else if c = '/' && r.head? = some '/' then dropLineComments true r
    else c :: dropLineComments false r

/-- A source without its comments: first the blocks go, then the ends of lines. -/
def stripComments (source : List Char) : List Char :=
  dropLineComments false (dropBlocks 0 source)

/-! ### Words -/

/-- What stands behind a word at the beginning of a text. -/
def after? (word cs : List Char) : Option (List Char) :=
  if word.isPrefixOf cs then some (cs.drop word.length) else none

/-- What stands behind a word and at least one blank. -/
def afterWord? (word cs : List Char) : Option (List Char) :=
  match after? word cs with
  | some (c :: r) => if Text.isBlank c then some (Text.trimStart r) else none
  | _ => none

/-- The text behind a modifier, if it begins with it. -/
def skipModifier (word cs : List Char) : List Char :=
  (afterWord? word cs).getD cs

/-- Whether a text does not go on with a word character. -/
def atWordEnd : List Char → Bool
  | [] => true
  | c :: _ => !Text.isWord c

/-- The characters of a function's name. -/
def isNameChar (c : Char) : Bool :=
  Text.isWord c || c == '-'

/-! ### Declarations -/

/-- A declaration: name, text between the parentheses, and the text of the result if there is one, without
blanks; `length` is the number of its characters. -/
structure Declaration where
  name : List Char
  parameters : List Char
  returns : Option (List Char)
  length : Nat
  deriving DecidableEq, Repr

/-- What stands between the closing parenthesis and the equals sign: nothing, or a colon and a result. -/
def resultOf? (cs : List Char) : Option (Option (List Char)) :=
  match Text.trimStart cs with
  | [] => some none
  | ':' :: c :: r => some (some (Text.squeeze (c :: r)))
  | _ => none

/-- Finds the first closing parenthesis behind which a declaration can end. -/
def parametersAndResult? : List Char → Option (List Char × Option (List Char))
  | [] => none
  | c :: r =>
    let later := (parametersAndResult? r).map fun (ps, result) => (c :: ps, result)
    if c = ')' then
      match resultOf? r with
      | some result => some ([], result)
      | none => later
    else later

/-- What stands behind the keyword of a declaration and at least one blank. -/
def afterKeyword? (cs : List Char) : Option (List Char) :=
  match afterWord? "function".toList cs with
  | some r => some r
  | none => afterWord? "entrypoint".toList cs

/-- The declaration at the beginning of a text. -/
def declaration? (cs : List Char) : Option Declaration :=
  match afterKeyword? (skipModifier "stateful".toList (skipModifier "public".toList cs)) with
  | none => none
  | some r =>
    let name := r.takeWhile isNameChar
    if name = [] then none
    else match Text.trimStart (r.dropWhile isNameChar) with
      | '(' :: r =>
        let body := r.takeWhile (· != '=')
        let rest := r.drop (body.length + 1)
        if body.length = r.length then none
        else match parametersAndResult? body with
          | none => none
          | some (ps, result) => some ⟨name, ps, result, cs.length - rest.length⟩
      | _ => none

/-- The characters since the last line feed, last one first, behind one more character. -/
def extendLine (line : List Char) (c : Char) : List Char :=
  if c = '\n' then [] else c :: line

/-- The declarations of a text from left to right, none within another, each with the text from the
beginning of its line to its end. `skip` characters belong to the declaration before; `line` holds the
characters since the last line feed, last one first. -/
def declarationsFrom (skip : Nat) (line : List Char) : List Char → List (Declaration × List Char)
  | [] => []
  | c :: r =>
    match skip with
    | n + 1 => declarationsFrom n (extendLine line c) r
    | 0 =>
      match declaration? (c :: r) with
      | none => declarationsFrom 0 (extendLine line c) r
      | some d =>
        (d, line.reverse ++ (c :: r).take d.length) :: declarationsFrom (d.length - 1) (extendLine line c) r

/-- The declarations of a text, each with its line. -/
def declarations (cs : List Char) : List (Declaration × List Char) :=
  declarationsFrom 0 [] cs

/-- Whether a line starts like a public declaration. -/
def isPublic (line : List Char) : Bool :=
  let cs := Text.trimStart line
  let asFunction := match afterWord? "public".toList cs with
    | none => false
    | some r =>
      match after? "function".toList (skipModifier "stateful".toList r) with
      | none => false
      | some r => atWordEnd r
  let asEntrypoint :=
    match after? "entrypoint".toList (skipModifier "stateful".toList (skipModifier "payable".toList cs)) with
    | none => false
    | some r => atWordEnd r
  asFunction || asEntrypoint

/-- What stands in front of the first occurrence of a text, or everything. -/
def before (part : List Char) : List Char → List Char
  | [] => []
  | c :: r => if part.isPrefixOf (c :: r) then [] else c :: before part r

/-- Whether a text occurs within another. -/
def occursIn (part : List Char) : List Char → Bool
  | [] => part.isEmpty
  | c :: r => part.isPrefixOf (c :: r) || occursIn part r

/-! ### Functions -/

/-- One parameter: a name, and a type behind a colon if it is not blank. -/
def parameterOfText (cs : List Char) : Parameter :=
  let name := cs.takeWhile (· != ':')
  let type := Text.squeeze (cs.drop (name.length + 1))
  ⟨String.ofList (Text.trim name), if type = [] then none else some (String.ofList type)⟩

/-- A list of parameters; a blank text has none. -/
def parametersOf (cs : List Char) : List Parameter :=
  if cs.all Text.isBlank then [] else (Text.splitOutside cs [',']).map parameterOfText

/-- The function that a declaration declares; it is stateful if its line says so in front of its name. -/
def functionOfDeclaration (d : Declaration) (line : List Char) : ContractFunction where
  name := .whole (String.ofList d.name)
  parameters := parametersOf d.parameters
  returns := match d.returns with
    | none => ContractFunction.unitType
    | some t => String.ofList t
  stateful := occursIn "stateful".toList (before d.name line)

/-- The public functions of a source. -/
def functionsOfSource (source : List Char) : List ContractFunction :=
  ((declarations (stripComments source)).filter fun (_, line) => isPublic line).map fun (d, line) =>
    functionOfDeclaration d line

/-- The catalog of a source, with its warnings. -/
def ofSource (source : String) : Catalog × List String :=
  ofFunctions (functionsOfSource source.toList)

end SophiaBind.Catalog
