/-
**Quoted texts are read back.**

A character stands for itself or is written by a short escape, by one code unit or by two; a half of a pair
is one code unit. Two units in a row are one character if the halves belong together, so that a text in
which an upper half stands directly before a lower one cannot be told from the text with the character, and is
read as that one.

Main definitions:

* `CodePoint.joined`, `LooseText.joined` — halves that belong together as the characters that they make,
* `CodePoint.Unjoined` — no upper half stands directly before a lower half,
* `Json.StartsLow` — the escape of a lower half at the beginning of a text.

Main results:

* `CodePoint.joined_of_unjoined` — **without such halves nothing is joined**,
* `LooseText.eq_whole_of_joined` — a text of characters of one code unit is not made by joining,
* `Json.escapeChar_cases` — how a character is written,
* `Json.textFrom_escapePoint` — one code point is read back,
* `Json.textFrom_quoted` — **a quoted text is read back**, with its halves joined.
-/

import Mathlib.Data.List.Chain
import SophiaBind.Json.Parser
import SophiaBind.Json.Printer

namespace SophiaBind

/-! ### Halves -/

namespace CodePoint

/-- Code points with the halves that belong together joined. -/
def joined (ps : List CodePoint) : List CodePoint :=
  ofUnits (ps.map toNat)

/-- No upper half stands directly before a lower half. -/
def Unjoined (ps : List CodePoint) : Prop :=
  ps.IsChain fun p q => isHighHalf p.toNat = true → isLowHalf q.toNat = false

theorem toNat_char_not_half (c : Char) : isHighHalf c.toNat = false ∧ isLowHalf c.toNat = false := by
  have hvalid := c.valid
  simp only [UInt32.isValidChar, Nat.isValidChar] at hvalid
  simp only [isHighHalf, isLowHalf, Bool.and_eq_false_iff, decide_eq_false_iff_not, Char.toNat]
  omega

theorem eq_half_of_isHighHalf {p : CodePoint} (h : isHighHalf p.toNat = true) : ∃ k, p = .half k := by
  cases p with
  | half k => exact ⟨k, rfl⟩
  | char c =>
      rw [toNat, (toNat_char_not_half c).1] at h
      cases h

theorem eq_half_of_isLowHalf {p : CodePoint} (h : isLowHalf p.toNat = true) : ∃ k, p = .half k := by
  cases p with
  | half k => exact ⟨k, rfl⟩
  | char c =>
      rw [toNat, (toNat_char_not_half c).2] at h
      cases h

theorem joined_singleton (p : CodePoint) : joined [p] = [p] := by
  rw [joined, List.map_singleton, ofUnits, ofNat_toNat]

/-- Two halves that belong together are one character. -/
theorem joined_pair {p q : CodePoint} (hp : isHighHalf p.toNat = true) (hq : isLowHalf q.toNat = true)
    (ps : List CodePoint) : joined (p :: q :: ps) = joinHalves p.toNat q.toNat :: joined ps := by
  rw [joined, List.map_cons, List.map_cons, ofUnits, hp, hq, Bool.and_self, if_pos rfl]
  rfl

/-- Anything else stays. -/
theorem joined_cons {p q : CodePoint} (h : isHighHalf p.toNat = true → isLowHalf q.toNat = false)
    (ps : List CodePoint) : joined (p :: q :: ps) = p :: joined (q :: ps) := by
  have hnot : ¬(isHighHalf p.toNat && isLowHalf q.toNat) = true := by
    intro hboth
    obtain ⟨hp, hq⟩ := Bool.and_eq_true_iff.1 hboth
    rw [h hp] at hq
    cases hq
  rw [joined, List.map_cons, List.map_cons, ofUnits, if_neg hnot, ofNat_toNat]
  rfl

/-- **Without halves that belong together nothing is joined.** -/
theorem joined_of_unjoined {ps : List CodePoint} (h : Unjoined ps) : joined ps = ps := by
  induction ps with
  | nil => rfl
  | cons p ps ih =>
      cases ps with
      | nil => exact joined_singleton p
      | cons q ps =>
          obtain ⟨hp, hps⟩ := List.isChain_cons_cons.1 h
          rw [joined_cons hp, ih hps]

theorem joined_ne_nil {ps : List CodePoint} (h : ps ≠ []) : joined ps ≠ [] := by
  obtain ⟨p, ps, rfl⟩ := List.exists_cons_of_ne_nil h
  cases ps with
  | nil =>
      rw [joined_singleton]
      exact h
  | cons q ps =>
      by_cases hpair : isHighHalf p.toNat = true ∧ isLowHalf q.toNat = true
      · rw [joined_pair hpair.1 hpair.2]
        exact List.cons_ne_nil _ _
      · rw [joined_cons fun hp => Bool.eq_false_iff.2 fun hq => hpair ⟨hp, hq⟩]
        exact List.cons_ne_nil _ _

/-- Two halves make a character beyond the first 65536. -/
theorem le_joinHalves {n m : Nat} (hn : isHighHalf n = true) (hm : isLowHalf m = true) :
    65536 ≤ (joinHalves n m).toNat := by
  simp only [isHighHalf, isLowHalf, Bool.and_eq_true, decide_eq_true_eq] at hn hm
  have hvalid : (0x10000 + (n - 0xD800) * 1024 + (m - 0xDC00)).isValidChar := by
    simp only [Nat.isValidChar]
    omega
  have hnumber : (Char.ofNat (0x10000 + (n - 0xD800) * 1024 + (m - 0xDC00))).toNat =
      0x10000 + (n - 0xD800) * 1024 + (m - 0xDC00) := by
    rw [Char.ofNat, dif_pos hvalid]
    rfl
  rw [joinHalves, toNat, hnumber]
  omega

/-- Characters of one code unit are not made by joining. -/
theorem eq_map_char_of_joined {ps : List CodePoint} {cs : List Char} (hcs : ∀ c ∈ cs, c.toNat < 65536)
    (h : joined ps = cs.map .char) : ps = cs.map .char := by
  induction cs generalizing ps with
  | nil =>
      by_contra hne
      exact joined_ne_nil hne h
  | cons c cs ih =>
      obtain ⟨hc, hcs⟩ := List.forall_mem_cons.1 hcs
      cases ps with
      | nil => cases h
      | cons p ps =>
          cases ps with
          | nil =>
              rw [joined_singleton] at h
              exact h
          | cons q ps =>
              by_cases hpair : isHighHalf p.toNat = true ∧ isLowHalf q.toNat = true
              · rw [joined_pair hpair.1 hpair.2] at h
                have hle := le_joinHalves hpair.1 hpair.2
                rw [(List.cons.inj h).1, toNat] at hle
                omega
              · rw [joined_cons fun hp => Bool.eq_false_iff.2 fun hq => hpair ⟨hp, hq⟩] at h
                obtain ⟨rfl, hrest⟩ := List.cons.inj h
                rw [ih hcs hrest]
                rfl

/-- A text of characters alone has no halves. -/
theorem unjoined_map_char (cs : List Char) : Unjoined (cs.map .char) := by
  induction cs with
  | nil => exact .nil
  | cons c cs ih =>
      refine List.isChain_cons.2 ⟨fun q _ hhigh => ?_, ih⟩
      rw [toNat, (toNat_char_not_half c).1] at hhigh
      cases hhigh

theorem unjoined_whole (s : String) : Unjoined (LooseText.whole s).points :=
  unjoined_map_char s.toList

end CodePoint

namespace LooseText

/-- A text is known by its code points. -/
theorem ofPoints_points (t : LooseText) : ofPoints t.points = t := by
  cases t with
  | whole s => rw [points, ofPoints_map_char, String.ofList_toList]
  | broken t =>
      have hsplit : splitHalf t.points = (t.front, some (t.half, t.rest)) := by
        rw [BrokenText.points]
        induction t.front with
        | nil => rfl
        | cons c cs ih => simp [splitHalf, ih]
      simp [ofPoints, points, hsplit]

/-- A text with the halves that belong together joined. -/
def joined (t : LooseText) : LooseText :=
  ofPoints (CodePoint.joined t.points)

theorem joined_of_unjoined {t : LooseText} (h : CodePoint.Unjoined t.points) : t.joined = t := by
  rw [joined, CodePoint.joined_of_unjoined h, ofPoints_points]

@[simp] theorem joined_whole (s : String) : (whole s).joined = whole s :=
  joined_of_unjoined (CodePoint.unjoined_whole s)

/-- **A text of characters of one code unit is not made by joining.** -/
theorem eq_whole_of_joined {t : LooseText} {s : String} (hs : ∀ c ∈ s.toList, c.toNat < 65536)
    (h : t.joined = .whole s) : t = .whole s := by
  have hpoints := congrArg points h
  rw [joined, points_ofPoints] at hpoints
  rw [← ofPoints_points t, CodePoint.eq_map_char_of_joined hs hpoints, ofPoints_map_char, String.ofList_toList]

end LooseText

namespace Json

/-! ### Code units -/

theorem digits_four (n : Nat) :
    Hex.digits 4 n =
      [Hex.digit (n / 4096 % 16), Hex.digit (n / 256 % 16), Hex.digit (n / 16 % 16), Hex.digit (n % 16)] := by
  simp [Hex.digits, Nat.div_div_eq_div_mul]

/-- Four digits are read back. -/
theorem hexValue?_digits {n : Nat} (h : n < 65536) :
    hexValue? (.char (Hex.digit (n / 4096 % 16))) (.char (Hex.digit (n / 256 % 16)))
      (.char (Hex.digit (n / 16 % 16))) (.char (Hex.digit (n % 16))) = some n := by
  have hdigit : ∀ m < 16, Hex.digitValue? (Hex.digit m) = some m := by decide
  simp only [hexValue?, digitValue?, hdigit _ (Nat.mod_lt _ (show 0 < 16 by decide))]
  simp only [Option.bind_eq_bind, Option.bind_some, Option.pure_def, Option.some.injEq]
  omega

/-- The escape of a code unit as code points. -/
def unitPoints (n : Nat) : List CodePoint :=
  (unitEscape n).map .char

theorem unitPoints_append (n : Nat) (ps : List CodePoint) :
    unitPoints n ++ ps = .char '\\' :: .char 'u' :: .char (Hex.digit (n / 4096 % 16)) ::
      .char (Hex.digit (n / 256 % 16)) :: .char (Hex.digit (n / 16 % 16)) :: .char (Hex.digit (n % 16)) :: ps := by
  simp [unitPoints, unitEscape, digits_four]

/-- An escape of four digits at the beginning of a text is one of a lower half, or malformed. -/
def StartsLow (ps : List CodePoint) : Prop :=
  ∃ a b c d rest, ps = .char '\\' :: .char 'u' :: a :: b :: c :: d :: rest ∧
    ∀ n, hexValue? a b c d = some n → CodePoint.isLowHalf n = true

theorem not_startsLow_unitPoints {n : Nat} (hn : n < 65536) (hlow : CodePoint.isLowHalf n = false)
    (ps : List CodePoint) : ¬StartsLow (unitPoints n ++ ps) := by
  rintro ⟨a, b, c, d, rest, heq, hall⟩
  rw [unitPoints_append] at heq
  cases heq
  rw [hall n (hexValue?_digits hn)] at hlow
  cases hlow

/-! ### Reading on -/

variable {start : Nat} {ps : List CodePoint}

theorem textFrom_end (start : Nat) (rest : List CodePoint) : textFrom start (.char '"' :: rest) = .ok ([], rest) := by
  simp [textFrom]

theorem textFrom_plain {c : Char} (hquote : c ≠ '"') (hback : c ≠ '\\') (hc : 32 ≤ c.toNat) :
    textFrom start (.char c :: ps) = consRead (.char c) (textFrom start ps) := by
  have hno : ¬(CodePoint.char c).toNat < 32 := by simpa [CodePoint.toNat] using hc
  rw [textFrom]
  · simp [hno]
  all_goals simp_all

theorem textFrom_short {c d : Char} (hc : c ≠ 'u') (hd : shortEscape? c = some d) :
    textFrom start (.char '\\' :: .char c :: ps) = consRead (.char d) (textFrom start ps) := by
  rw [textFrom]
  · simp [hd]
  all_goals simp_all

/-- A code unit is read by itself, unless it is an upper half with a lower half behind it. -/
theorem textFrom_unitPoints {n : Nat} (hn : n < 65536) (hps : CodePoint.isHighHalf n = true → ¬StartsLow ps) :
    textFrom start (unitPoints n ++ ps) = consRead (.ofNat n) (textFrom start ps) := by
  have hvalue := hexValue?_digits hn
  rw [unitPoints_append]
  by_cases hlong : ∃ a b c d rest, ps = .char '\\' :: .char 'u' :: a :: b :: c :: d :: rest
  · -- with another escape behind, the reader looks at both
    obtain ⟨a, b, c, d, rest, rfl⟩ := hlong
    rw [textFrom]
    simp only [hvalue]
    cases hhigh : CodePoint.isHighHalf n with
    | false => rfl
    | true =>
        have hnot : ¬∀ m, hexValue? a b c d = some m → CodePoint.isLowHalf m = true := fun hall =>
          hps hhigh ⟨a, b, c, d, rest, rfl, hall⟩
        simp only [not_forall, Bool.not_eq_true] at hnot
        obtain ⟨m, hm, hlow⟩ := hnot
        simp only [hm, hlow, if_true]
        rfl
  · rw [textFrom]
    · simp only [hvalue]
    · intro a b c d rest hrest
      exact hlong ⟨a, b, c, d, rest, hrest⟩

/-- Two halves that belong together are one character. -/
theorem textFrom_pair {n m : Nat} (hn : n < 65536) (hm : m < 65536) (hhigh : CodePoint.isHighHalf n = true)
    (hlow : CodePoint.isLowHalf m = true) :
    textFrom start (unitPoints n ++ (unitPoints m ++ ps)) =
      consRead (CodePoint.joinHalves n m) (textFrom start ps) := by
  rw [unitPoints_append, unitPoints_append, textFrom]
  simp only [hexValue?_digits hn, hexValue?_digits hm, hhigh, hlow, if_true]

/-! ### Characters -/

/-- The characters that are written by a short escape. -/
def shortlyEscaped : List Char :=
  ['"', '\\', Char.ofNat 8, Char.ofNat 12, '\n', '\r', '\t']

theorem escapeChar_of_mem : ∀ c ∈ shortlyEscaped,
    ∃ d, escapeChar .ascii c = ['\\', d] ∧ d ≠ 'u' ∧ shortEscape? d = some c := by
  simp only [shortlyEscaped, List.forall_mem_cons]
  exact ⟨⟨'"', rfl, by decide, rfl⟩, ⟨'\\', rfl, by decide, rfl⟩, ⟨'b', rfl, by decide, rfl⟩,
    ⟨'f', rfl, by decide, rfl⟩, ⟨'n', rfl, by decide, rfl⟩, ⟨'r', rfl, by decide, rfl⟩,
    ⟨'t', rfl, by decide, rfl⟩, List.forall_mem_nil _⟩

/-- The others are written by their numbers. -/
theorem escapeChar_of_not_mem {c : Char} (h : c ∉ shortlyEscaped) :
    escapeChar .ascii c =
      if c.toNat < 32 then unitEscape c.toNat
      else if c.toNat < 127 then [c]
      else if c.toNat < 0x10000 then unitEscape c.toNat
      else unitEscape (0xD800 + (c.toNat - 0x10000) / 1024) ++ unitEscape (0xDC00 + (c.toNat - 0x10000) % 1024) := by
  have hnumber : ∀ n, c ≠ Char.ofNat n → c.toNat ≠ n := fun n hne he => hne (by rw [← he, Char.ofNat_toNat])
  simp only [shortlyEscaped, List.mem_cons, List.not_mem_nil, or_false, not_or] at h
  obtain ⟨hquote, hback, height, htwelve, hn, hr, ht⟩ := h
  simp [escapeChar, hquote, hback, hnumber 8 height, hnumber 12 htwelve, hn, hr, ht]

/-- How a character is written: by a short escape, by itself, by one code unit, or by two. -/
theorem escapeChar_cases (c : Char) :
    (∃ d, escapeChar .ascii c = ['\\', d] ∧ d ≠ 'u' ∧ shortEscape? d = some c) ∨
    (escapeChar .ascii c = [c] ∧ c ≠ '"' ∧ c ≠ '\\' ∧ 32 ≤ c.toNat) ∨
    (escapeChar .ascii c = unitEscape c.toNat ∧ c.toNat < 65536) ∨
    (65536 ≤ c.toNat ∧ escapeChar .ascii c =
      unitEscape (0xD800 + (c.toNat - 0x10000) / 1024) ++ unitEscape (0xDC00 + (c.toNat - 0x10000) % 1024)) := by
  by_cases hshort : c ∈ shortlyEscaped
  · exact .inl (escapeChar_of_mem c hshort)
  have hapart : ∀ d ∈ shortlyEscaped, c ≠ d := fun d hd he => hshort (he ▸ hd)
  rw [escapeChar_of_not_mem hshort]
  by_cases hcontrol : c.toNat < 32
  · exact .inr (.inr (.inl ⟨if_pos hcontrol, by omega⟩))
  rw [if_neg hcontrol]
  by_cases hascii : c.toNat < 127
  · exact .inr (.inl ⟨if_pos hascii, hapart '"' (by decide), hapart '\\' (by decide), by omega⟩)
  rw [if_neg hascii]
  by_cases hone : c.toNat < 0x10000
  · exact .inr (.inr (.inl ⟨if_pos hone, hone⟩))
  · exact .inr (.inr (.inr ⟨by omega, if_neg hone⟩))

theorem toNat_lt (c : Char) : c.toNat < 0x110000 := by
  have hvalid := c.valid
  simp only [UInt32.isValidChar, Nat.isValidChar] at hvalid
  simp only [Char.toNat]
  omega

/-- The two code units of a character belong together and give the character. -/
theorem joinHalves_units {c : Char} (h : 65536 ≤ c.toNat) :
    CodePoint.isHighHalf (0xD800 + (c.toNat - 0x10000) / 1024) = true ∧
    CodePoint.isLowHalf (0xDC00 + (c.toNat - 0x10000) % 1024) = true ∧
    CodePoint.joinHalves (0xD800 + (c.toNat - 0x10000) / 1024) (0xDC00 + (c.toNat - 0x10000) % 1024) = .char c := by
  have hlt := toNat_lt c
  refine ⟨by simp [CodePoint.isHighHalf]; omega, by simp [CodePoint.isLowHalf]; omega, ?_⟩
  have hsum : 0x10000 + (0xD800 + (c.toNat - 0x10000) / 1024 - 0xD800) * 1024 +
      (0xDC00 + (c.toNat - 0x10000) % 1024 - 0xDC00) = c.toNat := by omega
  rw [CodePoint.joinHalves, hsum, Char.ofNat_toNat]

/-- The code points of a text that writes a code point. -/
def pointsOf (p : CodePoint) : List CodePoint :=
  (escapePoint p).map .char

/-- Only a lower half is written as one. -/
theorem not_startsLow_pointsOf {p : CodePoint} (h : CodePoint.isLowHalf p.toNat = false) (ps : List CodePoint) :
    ¬StartsLow (pointsOf p ++ ps) := by
  cases p with
  | half k =>
      have hk := k.isLt
      exact not_startsLow_unitPoints (show 0xD800 + (k : Nat) < 65536 by omega) h ps
  | char c =>
      rcases escapeChar_cases c with ⟨d, heq, hd, -⟩ | ⟨heq, -, hback, -⟩ | ⟨heq, hc⟩ | ⟨hc, heq⟩
      · rw [pointsOf, escapePoint, heq]
        rintro ⟨a, b, c', d', rest, hlow, -⟩
        cases hlow
        exact hd rfl
      · rw [pointsOf, escapePoint, heq]
        rintro ⟨a, b, c', d', rest, hlow, -⟩
        cases hlow
        exact hback rfl
      · rw [pointsOf, escapePoint, heq]
        exact not_startsLow_unitPoints hc h ps
      · have hlt := toNat_lt c
        rw [pointsOf, escapePoint, heq, List.map_append, List.append_assoc]
        refine not_startsLow_unitPoints (by omega) ?_ _
        simp only [CodePoint.isLowHalf, Bool.and_eq_false_iff, decide_eq_false_iff_not]
        omega

/-- **One code point is read back**, unless it is an upper half with a lower half behind it. -/
theorem textFrom_escapePoint {p : CodePoint} (h : CodePoint.isHighHalf p.toNat = true → ¬StartsLow ps) :
    textFrom start (pointsOf p ++ ps) = consRead p (textFrom start ps) := by
  cases p with
  | half k =>
      have hk := k.isLt
      have hread := @textFrom_unitPoints start ps (CodePoint.half k).toNat
        (show 0xD800 + (k : Nat) < 65536 by omega) h
      rwa [CodePoint.ofNat_toNat] at hread
  | char c =>
      rcases escapeChar_cases c with ⟨d, heq, hd, hshort⟩ | ⟨heq, hquote, hback, hc⟩ | ⟨heq, hc⟩ | ⟨hc, heq⟩
      · rw [pointsOf, escapePoint, heq]
        exact textFrom_short hd hshort
      · rw [pointsOf, escapePoint, heq]
        exact textFrom_plain hquote hback hc
      · rw [pointsOf, escapePoint, heq]
        have hread := @textFrom_unitPoints start ps (CodePoint.char c).toNat hc h
        rwa [CodePoint.ofNat_toNat] at hread
      · have hlt := toNat_lt c
        obtain ⟨hhigh, hlow, hjoin⟩ := joinHalves_units hc
        rw [pointsOf, escapePoint, heq, List.map_append, List.append_assoc]
        exact (textFrom_pair (by omega) (by omega) hhigh hlow).trans (by rw [hjoin])

/-- Two halves that belong together are read as one character. -/
theorem textFrom_halves {p q : CodePoint} (hp : CodePoint.isHighHalf p.toNat = true)
    (hq : CodePoint.isLowHalf q.toNat = true) :
    textFrom start (pointsOf p ++ (pointsOf q ++ ps)) =
      consRead (CodePoint.joinHalves p.toNat q.toNat) (textFrom start ps) := by
  obtain ⟨k, rfl⟩ := CodePoint.eq_half_of_isHighHalf hp
  obtain ⟨m, rfl⟩ := CodePoint.eq_half_of_isLowHalf hq
  exact textFrom_pair (show 0xD800 + (k : Nat) < 65536 by omega) (show 0xD800 + (m : Nat) < 65536 by omega) hp hq

/-- **A quoted text is read back**, with its halves joined. -/
theorem textFrom_quoted (qs : List CodePoint) (rest : List CodePoint) :
    textFrom start (qs.flatMap pointsOf ++ .char '"' :: rest) = .ok (CodePoint.joined qs, rest) := by
  induction qs using List.twoStepInduction with
  | nil => exact textFrom_end start rest
  | singleton q =>
      have hquote : ¬StartsLow (.char '"' :: rest) := by
        rintro ⟨a, b, c, d, rest', heq, -⟩
        cases heq
      rw [List.flatMap_singleton, textFrom_escapePoint fun _ => hquote, textFrom_end, CodePoint.joined_singleton]
      rfl
  | cons_cons p q qs ih ih' =>
      rw [List.flatMap_cons, List.append_assoc]
      by_cases hpair : CodePoint.isHighHalf p.toNat = true ∧ CodePoint.isLowHalf q.toNat = true
      · rw [List.flatMap_cons, List.append_assoc, textFrom_halves hpair.1 hpair.2, ih,
          CodePoint.joined_pair hpair.1 hpair.2]
        rfl
      · have hlow : CodePoint.isHighHalf p.toNat = true → CodePoint.isLowHalf q.toNat = false :=
          fun hp => Bool.eq_false_iff.2 fun hq => hpair ⟨hp, hq⟩
        have hnext : CodePoint.isHighHalf p.toNat = true →
            ¬StartsLow ((q :: qs).flatMap pointsOf ++ .char '"' :: rest) := by
          intro hp
          rw [List.flatMap_cons, List.append_assoc]
          exact not_startsLow_pointsOf (hlow hp) _
        rw [textFrom_escapePoint hnext, ih' q, CodePoint.joined_cons hlow]
        rfl

/-- Halves that belong together are written as the character that they make, and read as it. -/
example : quotePoints [.half 0x3D, .half 0x600] = quotePoints [.char '😀'] := by decide

end Json

end SophiaBind
