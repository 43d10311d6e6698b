/-
**How often something is tried.**

What fails in a way that may pass is tried again, so long as attempts are left. Between two attempts lies one pause, and
none behind the last, whose outcome is the result. The pauses double, and a power of two from `2 ^ 1024` on is no
floating point number: so behind the 1025th attempt there is no pause that could be told, and the trying ends
with a fault of its own, however many attempts are left.

Main definitions:

* `Retry.Policy.again` — whether an outcome is followed by another attempt, if one is left,
* `Retry.Policy.most` — how many attempts there are at most,
* `Retry.attempted` — attempts that are observed, with outcomes that are given,
* `Retry.pause`, `Retry.observed` — what is observed between attempts, and of all of them,
* `Retry.FirstSettled` — the first attempt whose outcome is not followed by another,
* `Retry.Exhausted` — more attempts are left than there are delays.

Main results:

* `Binary64.ofInt_two_pow` — powers of two are exact, up to the last that is a number,
* `Retry.overflows_iff` — up to there, the delay behind an attempt can be told,
* `Retry.runFrom_attempted` — **trying from one attempt on**,
* `Retry.run_attempted` — **how often something is tried**, with what result and with which pauses.
-/

import SophiaBind.Retry
import SophiaBind.Proofs.Effects

namespace SophiaBind

/-! ### Powers of two -/

namespace Binary64

/-- In units of its last place, a power of two is one of `2 ^ 52`. -/
theorem inUnits_two_pow (i : Nat) :
    ∃ d, 0 < d ∧ inUnits (Nat.pow 2 i) 1 ((i : Int) - 52) = (Nat.pow 2 52 * d, d) := by
  by_cases h : 52 ≤ i
  · refine ⟨Nat.pow 2 (i - 52), Nat.pow_pos (by decide), ?_⟩
    obtain ⟨k, rfl⟩ := Nat.exists_eq_add_of_le h
    have he : ((52 + k : Nat) : Int) - 52 = .ofNat k := by
      rw [Int.ofNat_eq_natCast]
      omega
    rw [he, inUnits, Nat.add_sub_cancel_left, Nat.one_mul]
    exact congrArg (·, _) (Nat.pow_add 2 52 k)
  · refine ⟨1, Nat.one_pos, ?_⟩
    have he : (i : Int) - 52 = .negSucc (51 - i) := by
      rw [Int.negSucc_eq]
      omega
    have hk : i + (51 - i + 1) = 52 := by omega
    rw [he, inUnits, Nat.mul_one]
    exact congrArg (·, 1) ((Nat.pow_add 2 i (51 - i + 1)).symm.trans (congrArg (Nat.pow 2) hk))

/-- **Powers of two are exact**, up to the last that is a number. -/
theorem ofInt_two_pow (i : Nat) :
    ofInt (Nat.pow 2 i) = if i < 1024 then .finite false (Nat.pow 2 52) ((i : Int) - 52) else .infinite false := by
  obtain ⟨d, hd, hunits⟩ := inUnits_two_pow i
  have hpos : Nat.pow 2 i ≠ 0 := Nat.ne_of_gt (Nat.pow_pos (by decide))
  have hsign : ¬((Nat.pow 2 i : Nat) : Int) < 0 := Int.not_lt.2 (Int.natCast_nonneg _)
  have hquotient : Nat.pow 2 52 * d / d = Nat.pow 2 52 := Nat.mul_div_cancel _ hd
  have hplace : placeOf (Nat.pow 2 i) 1 = (i : Int) - 52 := by
    have hlog : (Nat.pow 2 i).log2 = i := Nat.log2_two_pow
    have hone : Nat.log2 1 = 0 := by decide
    simp only [placeOf, hlog, hone, Int.natCast_zero, Int.sub_zero, hunits, hquotient, Nat.lt_irrefl, if_false]
    omega
  have hround : roundRatio (Nat.pow 2 52 * d) d = Nat.pow 2 52 := by
    simp only [roundRatio, Nat.mul_mod_left, Nat.mul_zero, hd, if_true, hquotient]
  have hfits : Nat.pow 2 52 ≠ Nat.pow 2 53 := by decide
  rw [ofInt, Int.natAbs_natCast, decide_eq_false hsign, ofRatio, if_neg hpos, hplace]
  dsimp only
  rw [hunits]
  dsimp only
  rw [hround, if_neg hfits]
  dsimp only
  by_cases h : i < 1024
  · rw [if_pos h, if_neg (by omega)]
  · rw [if_neg h, if_pos (by omega)]

end Binary64

namespace Retry

/-- The delay behind an attempt can be told up to the 1024th. -/
theorem overflows_iff {i : Nat} : overflows i = true ↔ 1024 ≤ i := by
  rw [overflows, Binary64.ofInt_two_pow]
  by_cases h : i < 1024
  · rw [if_pos h]
    exact iff_of_false Bool.false_ne_true (Nat.not_le.2 h)
  · rw [if_neg h]
    exact iff_of_true rfl (Nat.le_of_not_lt h)

/-! ### Attempts -/

section Attempts

variable {α : Type}

/-- Whether an outcome is followed by another attempt, if one is left. -/
def Policy.again (p : Policy) : Except Fault α → Bool
  | .ok _ => false
  | .error f => p.retryable f

/-- How many attempts there are at most: always one. -/
def Policy.most (p : Policy) : Nat :=
  (max 1 p.attempts).toNat

variable (p : Policy) (call : Nat → Event) (outcomes : Nat → Except Fault α)

/-- Attempts that are observed when they are made, each with an outcome that is given. -/
def attempted (i : Nat) : Dialogue α :=
  .tell (call i) (.ofExcept (outcomes i))

/-- What is observed between a failed attempt and the next: one warning, and one pause of the delay. -/
def pause (chance : Nat → Binary64) (i : Nat) : List Event :=
  match outcomes i with
  | .ok _ => []
  | .error f => [.warning (warning p i (delay p i (chance i)) f), .slept (delay p i (chance i))]

/-- What is observed of an attempt and of `n` more behind it: all of them, and a pause behind each but the last. -/
def observed (chance : Nat → Binary64) (i n : Nat) : List Event :=
  call i :: (List.range' i n).flatMap fun j => pause p outcomes chance j ++ [call (j + 1)]

theorem observed_succ (chance : Nat → Binary64) (i n : Nat) :
    observed p call outcomes chance i (n + 1) =
      call i :: pause p outcomes chance i ++ observed p call outcomes chance (i + 1) n := by
  simp [observed, List.range'_succ]

variable {p} {outcomes}

/-- An outcome that is not followed by another attempt is the result. -/
theorem runFrom_last {i left : Nat} (w : World) (h : left = 0 ∨ p.again (outcomes i) = false) :
    (App.converse (runFrom p (attempted call outcomes) i left)).runIn w =
      (outcomes i, { w with events := w.events ++ [call i] }) := by
  have hgiven : ∀ w' : World, (App.converse (.ofExcept (outcomes i))).runIn w' = (outcomes i, w') := by
    intro w'
    cases outcomes i with
    | ok a => rfl
    | error f => rfl
  cases left with
  | zero => rw [runFrom, attempted, App.runIn_converse_tell, hgiven]
  | succ left =>
      have hagain := h.resolve_left (Nat.succ_ne_zero left)
      rw [runFrom, attempted, Dialogue.recover, App.runIn_converse_tell]
      cases ho : outcomes i with
      | ok a => rfl
      | error f =>
          rw [ho] at hagain
          have hfinal : p.retryable f = false := hagain
          dsimp only [Dialogue.ofExcept, Dialogue.recover]
          rw [hfinal]
          rfl

/-- A delay that cannot be told ends the trying. -/
theorem runFrom_overflow {i left : Nat} (w : World) (h : p.again (outcomes i) = true) (hi : overflows i = true) :
    (App.converse (runFrom p (attempted call outcomes) i (left + 1))).runIn w =
      (.error .tooLargeInteger, { w with events := w.events ++ [call i] }) := by
  rw [runFrom, attempted, Dialogue.recover, App.runIn_converse_tell]
  cases ho : outcomes i with
  | ok a =>
      rw [ho] at h
      cases h
  | error f =>
      rw [ho] at h
      have hagain : p.retryable f = true := h
      dsimp only [Dialogue.ofExcept, Dialogue.recover]
      rw [if_pos hagain, if_pos hi]
      rfl

/-- Behind a failed attempt there is a pause, and then the next attempt. -/
theorem runFrom_again (i left : Nat) (w : World) (chance : Nat → Binary64) (h : p.again (outcomes i) = true)
    (hi : overflows i = false) (hchance : chance i = w.chance w.drawn) :
    (App.converse (runFrom p (attempted call outcomes) i (left + 1))).runIn w =
      (App.converse (runFrom p (attempted call outcomes) (i + 1) left)).runIn
        { w with drawn := w.drawn + 1, events := w.events ++ call i :: pause p outcomes chance i } := by
  rw [runFrom, attempted, Dialogue.recover, App.runIn_converse_tell, pause]
  cases ho : outcomes i with
  | ok a =>
      rw [ho] at h
      cases h
  | error f =>
      rw [ho] at h
      have hagain : p.retryable f = true := h
      have hnot : ¬overflows i = true := by rw [hi]; exact Bool.false_ne_true
      dsimp only [Dialogue.ofExcept, Dialogue.recover]
      rw [if_pos hagain, if_neg hnot, App.runIn_converse_draw, App.runIn_converse_tell, App.runIn_converse_tell,
        hchance]
      simp only [List.append_assoc, List.cons_append, List.nil_append]

variable (p) (outcomes)

/-- **Trying from one attempt on**: the first attempt that is the last one left, whose outcome is not followed by
another, or behind which no delay can be told, is the last. -/
theorem runFrom_attempted (i left d : Nat) (w : World) (hdrawn : w.drawn = d + i) :
    ∃ n, n ≤ left ∧ (i + n ≤ 1024 ∨ n = 0) ∧ (∀ j < n, p.again (outcomes (i + j)) = true) ∧
      (n < left → p.again (outcomes (i + n)) = true → 1024 ≤ i + n) ∧
      (App.converse (runFrom p (attempted call outcomes) i left)).runIn w =
        (if n < left ∧ p.again (outcomes (i + n)) = true then .error .tooLargeInteger else outcomes (i + n),
          { w with
            drawn := w.drawn + n
            events := w.events ++ observed p call outcomes (fun j => w.chance (d + j)) i n }) := by
  induction left generalizing i w with
  | zero =>
      refine ⟨0, Nat.le_refl 0, .inr rfl, nofun, nofun, ?_⟩
      rw [runFrom_last call w (.inl rfl), if_neg (fun h => absurd h.1 (Nat.lt_irrefl 0))]
      rfl
  | succ left ih =>
      cases hagain : p.again (outcomes i) with
      | false =>
          have hnot : ¬p.again (outcomes (i + 0)) = true := Bool.eq_false_iff.1 hagain
          refine ⟨0, Nat.zero_le _, .inr rfl, nofun, fun _ h => absurd h hnot, ?_⟩
          rw [runFrom_last call w (.inr hagain), if_neg fun h => hnot h.2]
          rfl
      | true =>
          cases hoverflow : overflows i with
          | true =>
              refine ⟨0, Nat.zero_le _, .inr rfl, nofun, fun _ _ => overflows_iff.1 hoverflow, ?_⟩
              rw [runFrom_overflow call w hagain hoverflow, if_pos ⟨Nat.succ_pos left, hagain⟩]
              rfl
          | false =>
              have hi : i < 1024 := Nat.lt_of_not_le fun hle => by
                rw [overflows_iff.2 hle] at hoverflow
                cases hoverflow
              have hstep := runFrom_again call i left w (fun j => w.chance (d + j)) hagain hoverflow
                (congrArg w.chance hdrawn.symm)
              obtain ⟨n, hn, hbound, hall, hlast, hrun⟩ := ih (i + 1)
                { w with
                  drawn := w.drawn + 1
                  events := w.events ++ call i :: pause p outcomes (fun j => w.chance (d + j)) i }
                (by rw [hdrawn, Nat.add_assoc])
              have hnext : ∀ j, i + 1 + j = i + (j + 1) := by omega
              rw [hnext] at hlast hrun
              refine ⟨n + 1, Nat.succ_le_succ hn, .inl (by omega), fun j hj => ?_,
                fun h => hlast (Nat.lt_of_succ_lt_succ h), ?_⟩
              · cases j with
                | zero => exact hagain
                | succ j => exact hnext j ▸ hall j (Nat.lt_of_succ_lt_succ hj)
              · rw [hstep, hrun, observed_succ]
                simp only [Nat.succ_lt_succ_iff, List.append_assoc, Nat.add_assoc, Nat.add_comm 1 n, List.cons_append]

/-- The first attempt whose outcome is not followed by another, counted from zero. -/
structure FirstSettled (k : Nat) : Prop where
  settled : p.again (outcomes k) = false
  before : ∀ j < k, p.again (outcomes j) = true

/-- More attempts are left behind the last that a delay can follow, and all up to there have failed. -/
structure Exhausted : Prop where
  more : 1025 < p.most
  again : ∀ k < 1025, p.again (outcomes k) = true

/-- **How often something is tried**: up to the first outcome that is not followed by another attempt, and at most as
often as the policy says; the outcome of the last attempt is the result. Between two attempts, and only there, lies one
pause, of the delay of its place. But if 1025 attempts failed and there should be more, no other is made. -/
theorem run_attempted (w : World) :
    ∃ n result, (App.converse (run p (attempted call outcomes))).runIn w =
        (result,
          { w with
            drawn := w.drawn + n
            events := w.events ++ observed p call outcomes (fun j => w.chance (w.drawn + j)) 0 n }) ∧
      (¬Exhausted p outcomes → result = outcomes n ∧
        (∀ k, FirstSettled p outcomes k → n + 1 = min (k + 1) p.most) ∧
        ((∀ k, p.again (outcomes k) = true) → n + 1 = p.most)) ∧
      (Exhausted p outcomes → result = .error .tooLargeInteger ∧ n + 1 = 1025) := by
  obtain ⟨n, hleft, hbound, hall, hlast, hrun⟩ :=
    runFrom_attempted p call outcomes 0 (p.attempts.toNat - 1) w.drawn w (Nat.add_zero _).symm
  simp only [Nat.zero_add] at hbound hall hlast hrun
  have hmost : p.most = p.attempts.toNat - 1 + 1 := by
    unfold Policy.most
    omega
  have hn : n ≤ 1024 := by omega
  -- the last attempt fails with others left only where there is no delay behind it
  have hexhausted : n < p.attempts.toNat - 1 ∧ p.again (outcomes n) = true ↔ Exhausted p outcomes := by
    constructor
    · rintro ⟨hmore, hagain⟩
      obtain rfl : n = 1024 := Nat.le_antisymm hn (hlast hmore hagain)
      refine ⟨by omega, fun k hk => ?_⟩
      rcases Nat.lt_succ_iff_lt_or_eq.1 hk with hk | rfl
      · exact hall k hk
      · exact hagain
    · rintro ⟨hmore, hagain⟩
      exact ⟨by omega, hagain n (by omega)⟩
  refine ⟨n, _, hrun, fun hnot => ?_, fun hyes => ?_⟩
  · have hstops : p.again (outcomes n) = true → n = p.attempts.toNat - 1 := fun hagain =>
      Nat.le_antisymm hleft (Nat.le_of_not_lt fun hmore => hnot (hexhausted.1 ⟨hmore, hagain⟩))
    refine ⟨if_neg (mt hexhausted.1 hnot), fun k hk => ?_, fun hagain => ?_⟩
    · have hnk : n ≤ k := Nat.le_of_not_lt fun hlt => by
        have hfailed := hall k hlt
        rw [hk.settled] at hfailed
        cases hfailed
      have hbefore : n < k → n = p.attempts.toNat - 1 := fun hlt => hstops (hk.before n hlt)
      omega
    · rw [hstops (hagain n), hmost]
  · have hfailed := hexhausted.2 hyes
    exact ⟨if_pos hfailed, congrArg (· + 1) (Nat.le_antisymm hn (hlast hfailed.1 hfailed.2))⟩

end Attempts

/-- A policy of more attempts than there are delays. -/
def longPolicy : Policy :=
  { attempts := 1026 }

/-- Attempts of which the 1026th would succeed. -/
def lateSuccess (i : Nat) : Except Fault Nat :=
  if i < 1025 then .error (.disrupted .connect "") else .ok 1

/-- **The 1026th attempt is never made**, although the policy has as many and it would succeed. -/
theorem run_never_succeeds :
    longPolicy.most = 1026 ∧ FirstSettled longPolicy lateSuccess 1025 ∧
      ∃ w : World, (App.converse (run longPolicy (attempted (fun _ => .noted .null) lateSuccess))).runIn {} =
        (.error .tooLargeInteger, w) ∧ w.drawn = 1024 := by
  have hagain : ∀ k < 1025, longPolicy.again (lateSuccess k) = true := by
    intro k hk
    rw [lateSuccess, if_pos hk]
    rfl
  refine ⟨rfl, ⟨rfl, hagain⟩, ?_⟩
  obtain ⟨n, hleft, hbound, hall, hlast, hrun⟩ :=
    runFrom_attempted longPolicy (fun _ => .noted .null) lateSuccess 0 1025 0 {} rfl
  simp only [Nat.zero_add] at hbound hall hlast hrun
  have hn : n ≤ 1024 := by omega
  have hmore : n < 1025 := by omega
  obtain rfl : n = 1024 := Nat.le_antisymm hn (hlast hmore (hagain n hmore))
  rw [if_pos ⟨hmore, hagain 1024 hmore⟩] at hrun
  exact ⟨_, hrun, rfl⟩

end Retry

end SophiaBind
