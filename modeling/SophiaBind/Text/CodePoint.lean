/-
**Code points**, and the texts that are made of them.

A character beyond the first 65536 is written in escapes of four digits as a pair of code units, the
upper half in front. A half that stands alone is no character, but texts from outside hold such halves.
They are told apart from all characters, and where only characters have a place, the replacement
character is shown for each.

Main definitions:

* `CodePoint` — a character or a half,
* `CodePoint.ofUnits` — the code points of code units, halves that belong together joined,
* `BrokenText` — a text with halves in it,
* `LooseText` — a text with or without halves.

Main results:

* `CodePoint.ofNat_toNat` — a code point is known by its number, so no half is taken for a character,
* `LooseText.points_ofPoints` — a text holds the code points that it was made of,
* `LooseText.ofPoints_map_char` — code points that are all characters make a whole text.
-/

namespace SophiaBind

/-- A code point: a character, or half of a surrogate pair that stands alone. -/
inductive CodePoint where
  | char (c : Char)
  | half (k : Fin 0x800)
  deriving DecidableEq, Repr, Inhabited

namespace CodePoint

/-- The number of a code point. -/
def toNat : CodePoint → Nat
  | .char c => c.toNat
  | .half k => 0xD800 + k

/-- The code point of a number. -/
def ofNat (n : Nat) : CodePoint :=
  if h : 0xD800 ≤ n ∧ n < 0xE000 then .half ⟨n - 0xD800, by omega⟩ else .char (Char.ofNat n)

/-- The upper half of a pair. -/
def isHighHalf (n : Nat) : Bool := 0xD800 ≤ n && n < 0xDC00

/-- The lower half of a pair. -/
def isLowHalf (n : Nat) : Bool := 0xDC00 ≤ n && n < 0xE000

/-- The character of a pair. -/
def joinHalves (high low : Nat) : CodePoint :=
  .char (Char.ofNat (0x10000 + (high - 0xD800) * 1024 + (low - 0xDC00)))

/-- The code points of code units. -/
def ofUnits : List Nat → List CodePoint
  | [] => []
  | [n] => [ofNat n]
  | n :: m :: rest =>
    if isHighHalf n && isLowHalf m then joinHalves n m :: ofUnits rest
    else ofNat n :: ofUnits (m :: rest)

theorem ofNat_toNat (p : CodePoint) : ofNat p.toNat = p := by
  cases p with
  | char c =>
    have h : ¬(0xD800 ≤ c.toNat ∧ c.toNat < 0xE000) := by
      have := c.valid
      simp only [UInt32.isValidChar, Nat.isValidChar, Char.toNat] at *
      omega
    simp [ofNat, toNat, h]
  | half k => simp [ofNat, toNat, show 0xD800 + (k : Nat) < 0xE000 by omega]

/-- The character that is shown for a code point. -/
def shown : CodePoint → Char
  | .char c => c
  | .half _ => '\uFFFD'

end CodePoint

/-! ### Texts with halves -/

/-- A text with halves in it: the characters in front of the first half, that half, and what is behind. -/
structure BrokenText where
  front : List Char
  half : Fin 0x800
  rest : List CodePoint
  deriving DecidableEq, Repr, Inhabited

namespace BrokenText

/-- The code points of a text with halves. -/
def points (t : BrokenText) : List CodePoint :=
  t.front.map .char ++ .half t.half :: t.rest

/-- A text with halves as characters. -/
def shown (t : BrokenText) : String :=
  String.ofList (t.points.map CodePoint.shown)

end BrokenText

/-- A text of code points: a whole one is of characters alone. -/
inductive LooseText where
  | whole (s : String)
  | broken (t : BrokenText)
  deriving DecidableEq, Repr, Inhabited

instance : Coe String LooseText := ⟨.whole⟩

namespace LooseText

/-- The characters in front of the first half, and that half with what is behind it, if there is one. -/
def splitHalf : List CodePoint → List Char × Option (Fin 0x800 × List CodePoint)
  | [] => ([], none)
  | .half k :: rest => ([], some (k, rest))
  | .char c :: rest =>
    let (front, behind) := splitHalf rest
    (c :: front, behind)

/-- The text of code points. -/
def ofPoints (ps : List CodePoint) : LooseText :=
  match splitHalf ps with
  | (front, none) => .whole (String.ofList front)
  | (front, some (k, rest)) => .broken ⟨front, k, rest⟩

/-- The code points of a text. -/
def points : LooseText → List CodePoint
  | .whole s => s.toList.map .char
  | .broken t => t.points

/-- Whether code points come before others, by the numbers of the first that differ. -/
def pointsBelow : List CodePoint → List CodePoint → Bool
  | _, [] => false
  | [], _ :: _ => true
  | p :: ps, q :: qs => p.toNat < q.toNat || (p.toNat == q.toNat && pointsBelow ps qs)

/-- Whether a text comes before another in the order of code points. -/
def below (s t : LooseText) : Bool :=
  pointsBelow s.points t.points

/-- A text as characters. -/
def shown : LooseText → String
  | .whole s => s
  | .broken t => t.shown

theorem points_ofPoints (ps : List CodePoint) : (ofPoints ps).points = ps := by
  have h : ∀ ps, (splitHalf ps).1.map CodePoint.char ++
      (match (splitHalf ps).2 with | none => [] | some (k, rest) => .half k :: rest) = ps := by
    intro ps
    fun_induction splitHalf ps with
    | case1 => rfl
    | case2 k rest => rfl
    | case3 c rest front behind heq ih => simpa [heq] using ih
  have hp := h ps
  unfold ofPoints
  split
  next front heq => simpa [points, heq] using hp
  next front k rest heq => simpa [points, BrokenText.points, heq] using hp

theorem splitHalf_map_char (cs : List Char) : splitHalf (cs.map .char) = (cs, none) := by
  induction cs with
  | nil => rfl
  | cons c cs ih => simp [splitHalf, ih]

theorem ofPoints_map_char (cs : List Char) : ofPoints (cs.map .char) = .whole (String.ofList cs) := by
  simp [ofPoints, splitHalf_map_char]

end LooseText

end SophiaBind
