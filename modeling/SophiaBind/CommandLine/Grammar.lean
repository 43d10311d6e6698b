/-
**The words of a command line.**

A grammar names options and positions. Words are read from the left: a run of plain words fills as many
positions as it can, and an option takes the words that follow it. A long option may be shortened as long
as only one begins that way, and may carry its value behind an equals sign; short options may be written
together. Behind a double dash every word is plain, and a double dash as a value leaves the place blank. A
position for any number of words is filled by one run only.

Main definitions:

* `OptionKind`, `OptionRule`, `Position`, `Grammar`,
* `Ending` — a command line that asks for help or is misused,
* `Word`, `Grammar.classify` — the words of a line as options and plain words,
* `Grammar.read` — what stands under every name, and whether a word was left over.
-/

import SophiaBind.Number.Integer
import SophiaBind.Given

namespace SophiaBind.CommandLine

/-! ### Grammars -/

/-- What an option does: asks for help, is set, or takes one text, one whole number, or any number of
texts. -/
inductive OptionKind where
  | help
  | switch
  | text
  | integer
  | texts
  deriving DecidableEq, Repr

/-- An option with its spellings. What it takes is found under the last of them. -/
structure OptionRule where
  spellings : List String
  kind : OptionKind
  deriving DecidableEq, Repr

/-- How many plain words a position takes; `rest` takes one and all words behind it. -/
inductive Arity where
  | one
  | optional
  | many
  | rest
  deriving DecidableEq, Repr

/-- A position with its name. -/
structure Position where
  name : String
  arity : Arity
  deriving DecidableEq, Repr

/-- What a command line may hold. -/
structure Grammar where
  options : List OptionRule
  positions : List Position := []
  deriving DecidableEq, Repr

/-- Why a command line is not carried out. -/
inductive Ending where
  | help
  | misuse
  deriving DecidableEq, Repr

/-- The exit code of an ending. -/
def Ending.code : Ending → Int
  | .help => 0
  | .misuse => 2

/-- What was read: the words under each name, later ones in front, and whether a word was left over. -/
structure Reading where
  found : List (String × List String) := []
  leftOver : Bool := false
  deriving DecidableEq, Repr

namespace Reading

/-- The words under a name, if it was read; the last time counts. -/
def words? (r : Reading) (name : String) : Option (List String) :=
  r.found.lookup name

/-- The one word under a name. -/
def word? (r : Reading) (name : String) : Option String :=
  (r.words? name).bind List.head?

/-- What was given under a name, if it was read. -/
def given? (r : Reading) (name : String) : Option (Given String) :=
  (r.words? name).map fun words =>
    match words with
    | [] => .blank
    | s :: _ => .value s

/-- The whole number that was given under a name, or a default if it was not read. -/
def integerAt (r : Reading) (name : String) (default : Int) : Given Int :=
  match r.given? name with
  | none => .value default
  | some g => g.map fun s => (Integer.ofText? s.toList).getD default

/-- Whether a name was read. -/
def isSet (r : Reading) (name : String) : Bool :=
  (r.words? name).isSome

end Reading

/-! ### Words -/

/-- An option as it was met: its rule, whether it was spelled short, and a value written in the same
word. -/
structure Met where
  rule : OptionRule
  short : Bool
  value : Option String := none
  deriving DecidableEq, Repr

/-- A word of a command line. -/
inductive Word where
  | plain (s : String)
  | option (m : Met)
  /-- A word that looks like an option but is none. -/
  | unknown
  | doubleDash
  deriving DecidableEq, Repr

/-- Whether a text is spelled as a short option. -/
def isShort (s : String) : Bool :=
  !"--".toList.isPrefixOf s.toList

/-- Whether a text is a negative number: digits behind a minus sign, perhaps with a point among them. -/
def isNegativeNumber (s : String) : Bool :=
  match s.toList with
  | '-' :: cs =>
    let digits := cs.dropWhile fun c => (Text.decimalDigit? c).isSome
    match digits with
    | [] => !cs.isEmpty
    | ['\n'] => 1 < cs.length
    | '.' :: r =>
      let rest := r.dropWhile fun c => (Text.decimalDigit? c).isSome
      (rest = [] || rest = ['\n']) && rest.length < r.length
    | _ => false
  | _ => false

/-- What stands in front of the first equals sign, and what stands behind it. -/
def splitValue (s : String) : String × Option String :=
  let name := s.toList.takeWhile (· != '=')
  match s.toList.drop name.length with
  | [] => (s, none)
  | _ :: value => (String.ofList name, some (String.ofList value))

namespace Grammar

/-- The spellings with their rules, in order. -/
def spellings (g : Grammar) : List (String × OptionRule) :=
  g.options.flatMap fun r => r.spellings.map fun s => (s, r)

/-- The options that a word can stand for when it is no option's full spelling. -/
def abbreviated (g : Grammar) (s : String) : List Met :=
  if isShort s then
    let name := String.ofList (s.toList.take 2)
    g.spellings.filterMap fun (spelling, rule) =>
      if spelling = name then some ⟨rule, true, some (String.ofList (s.toList.drop 2))⟩ else none
  else
    let (name, value) := splitValue s
    g.spellings.filterMap fun (spelling, rule) =>
      if name.toList.isPrefixOf spelling.toList then some ⟨rule, false, value⟩ else none

/-- The option that a word spells in full, perhaps with a value. -/
def spelled? (g : Grammar) (s : String) : Option Met :=
  match g.spellings.lookup s with
  | some rule => some ⟨rule, isShort s, none⟩
  | none =>
    match splitValue s with
    | (name, some value) => (g.spellings.lookup name).map fun rule => ⟨rule, isShort name, some value⟩
    | _ => none

/-- What a word is that stands in front of any double dash. A beginning that several options share is
misuse. -/
def classifyWord (g : Grammar) (s : String) : Except Ending Word :=
  match s.toList with
  | '-' :: _ :: _ =>
    match g.spelled? s with
    | some m => .ok (.option m)
    | none =>
      match g.abbreviated s with
      | [m] => .ok (.option m)
      | _ :: _ :: _ => .error .misuse
      | [] => .ok (if isNegativeNumber s || s.toList.contains ' ' then .plain s else .unknown)
  | _ => .ok (.plain s)

/-- What the words of a line are. -/
def classify (g : Grammar) : List String → Except Ending (List Word)
  | [] => .ok []
  | s :: rest =>
    if s = "--" then .ok (.doubleDash :: rest.map .plain)
    else do
      let w ← g.classifyWord s
      let ws ← classify g rest
      return w :: ws

end Grammar

/-! ### Positions -/

/-- The words of a line as they were written, each with what it is. -/
abbrev Line := List (String × Word)

/-- Whether a word is the double dash. -/
def isDash (w : String × Word) : Bool :=
  w.2 matches .doubleDash

/-- The plain words of a run. -/
def plainWords (ws : Line) : List String :=
  ws.filterMap fun w => match w.2 with | .plain s => some s | _ => none

/-- What a position for one word takes from the front of a line, and the line behind: the word with double
dashes around it, of which the first does not count. So a plain word that is a double dash itself fills
the position with nothing, unless the double dash of the line stands beside it. -/
def takeOne? (ws : Line) : Option (List String × Line) :=
  match ws.dropWhile isDash with
  | (s, .plain _) :: behind =>
    let taken := (ws.takeWhile isDash).map Prod.fst ++ s :: (behind.takeWhile isDash).map Prod.fst
    some (taken.erase "--", behind.dropWhile isDash)
  | _ => none

/-- The words that a position takes from the front of a line, and the line behind them. A position for any
number of words passes over one double dash. -/
def fill (a : Arity) (ws : Line) : Option (List String × Line) :=
  match a with
  | .one => takeOne? ws
  | .optional => (takeOne? ws).or (some ([], ws.dropWhile isDash))
  | .many =>
    let isOption (w : String × Word) : Bool := match w.2 with | .option _ | .unknown => true | _ => false
    some (((ws.takeWhile fun w => !isOption w).map Prod.fst).erase "--", ws.dropWhile fun w => !isOption w)
  | .rest =>
    match ws.dropWhile isDash with
    | (_, .plain _) :: _ => some (ws.map Prod.fst, [])
    | _ => none

/-- Fills positions from the front of a line, as many as can be: what they take, the positions left and
the line behind. -/
def fillAll : List Position → Line → List (String × List String) × List Position × Line
  | [], ws => ([], [], ws)
  | p :: ps, ws =>
    match fill p.arity ws with
    | none => ([], p :: ps, ws)
    | some (taken, rest) =>
      let (found, left, line) := fillAll ps rest
      ((p.name, taken) :: found, left, line)

/-! ### Options -/

/-- The plain words in front of a line, and the line behind them. -/
def plainRun (ws : Line) : List String × Line :=
  let isPlain (w : String × Word) : Bool := w.2 matches .plain _
  (plainWords (ws.takeWhile isPlain), ws.dropWhile isPlain)

/-- What an option without a value of its own takes from the words behind it. -/
def takeWords (k : OptionKind) (ws : Line) : Except Ending (List String × Line) :=
  match k with
  | .help | .switch => .ok ([], ws)
  | .text | .integer =>
    match ws with
    | (_, .plain s) :: rest => .ok ([s], rest)
    | _ => .error .misuse
  | .texts => .ok (plainRun ws)

/-- What a value written in an option's own word gives: a double dash gives nothing. -/
def ownWords (value : String) : List String :=
  [value].erase "--"

/-- What options written together in one short word take, with the text behind the first of them; the last
one may take a word. A letter that is no option is misuse. -/
def takeTogether (g : Grammar) (ws : Line) (rule : OptionRule) : List Char →
    Except Ending (List (OptionRule × List String) × Line)
  | [] => do
    let (taken, rest) ← takeWords rule.kind ws
    return ([(rule, taken)], rest)
  | c :: cs =>
    match rule.kind with
    | .help | .switch =>
      match g.spellings.lookup (String.ofList ['-', c]) with
      | none => .error .misuse
      | some next => do
        let (taken, rest) ← takeTogether g ws next cs
        return ((rule, []) :: taken, rest)
    | _ => .ok ([(rule, ownWords (String.ofList (c :: cs)))], ws)

/-- What an option as it was met takes. -/
def takeOption (g : Grammar) (m : Met) (ws : Line) : Except Ending (List (OptionRule × List String) × Line) :=
  match m.value with
  | none => do
    let (taken, rest) ← takeWords m.rule.kind ws
    return ([(m.rule, taken)], rest)
  | some value =>
    match m.rule.kind with
    | .help | .switch => if m.short && value ≠ "" then takeTogether g ws m.rule value.toList else .error .misuse
    | _ => .ok ([(m.rule, ownWords value)], ws)

/-- Notes what options took; a number must be one, and help ends the reading. -/
def note (r : Reading) : List (OptionRule × List String) → Except Ending Reading
  | [] => .ok r
  | (rule, taken) :: rest =>
    let noted := { r with found := (rule.spellings.getLast?.getD "", taken) :: r.found }
    match rule.kind with
    | .help => .error .help
    | .integer =>
      if taken.all fun s => (Integer.ofText? s.toList).isSome then note noted rest else .error .misuse
    | _ => note noted rest

/-! ### Lines -/

/-- Whether a line still holds an option. -/
def hasOption (ws : Line) : Bool :=
  ws.any fun w => match w.2 with | .option _ | .unknown => true | _ => false

/-- Notes what positions took. -/
def notePositions (r : Reading) (found : List (String × List String)) : Reading :=
  { r with found := found.reverse ++ r.found }

/-- Reads a line, positions and options in turn; every turn takes a word at least, so the fuel of the
line's length is enough. A position that must be filled and is not is misuse. -/
def readFrom (g : Grammar) : Nat → List Position → Reading → Line → Except Ending Reading
  | 0, positions, r, ws => finish positions r ws
  | fuel + 1, positions, r, ws =>
    if !hasOption ws then finish positions r ws
    else
      match ws with
      | (_, .option m) :: rest => do
        let (taken, line) ← takeOption g m rest
        let noted ← note r taken
        readFrom g fuel positions noted line
      | (_, .unknown) :: rest => readFrom g fuel positions { r with leftOver := true } rest
      | ws =>
        let (found, left, line) := fillAll positions ws
        let noted := notePositions r found
        if line.length < ws.length then readFrom g fuel left noted line
        else readFrom g fuel left { noted with leftOver := true } (plainRun ws).2
  where
  /-- Fills positions from a line without options. -/
  finish (positions : List Position) (r : Reading) (ws : Line) : Except Ending Reading :=
    let (found, left, line) := fillAll positions ws
    if left ≠ [] then .error .misuse
    else
      let noted := notePositions r found
      .ok { noted with leftOver := noted.leftOver || !line.isEmpty }

/-- Reads a line. -/
def Grammar.read (g : Grammar) (line : List String) : Except Ending Reading := do
  let words ← g.classify line
  readFrom g (line.length + 1) g.positions {} (line.zip words)

end SophiaBind.CommandLine
