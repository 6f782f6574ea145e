import Mathlib.Tactic.Ring

/-!
# Word arithmetic of `libk_decls.h`

Addresses and sizes are 64-bit words.  They are natural numbers here, and the
operations that can wrap say so with an explicit reduction modulo `2 ^ 64`.
-/

namespace OoOS.Libk

/-- Sum of two words.  The constant summand of a loop comes first, where it
does not unfold into successors. -/
def wadd (left right : Nat) : Nat := (right + left) % 2 ^ 64

def wsub (left right : Nat) : Nat := (left + 2 ^ 64 - right) % 2 ^ 64

def divRoundUp (num denom : Nat) : Nat :=
  if num % denom = 0 then num / denom else 1 + num / denom

/-- `up_to_nearest` of `libk_decls.h`; the product wraps. -/
def upToNearest (n unit : Nat) : Nat :=
  if n % unit = 0 then n else unit * divRoundUp n unit % 2 ^ 64

lemma wadd_of_lt {left right : Nat} (fits : left + right < 2 ^ 64) :
    wadd left right = left + right := by
  unfold wadd
  omega

open Nat

lemma wadd_lt (left right : Nat) : wadd left right < 2 ^ 64 := by
  exact mod_lt _ (by decide)

lemma wsub_of_le {left right : Nat} (ordered : right ≤ left) (fits : left < 2 ^ 64) :
    wsub left right = left - right := by
  unfold wsub
  omega

lemma wsub_lt (left right : Nat) : wsub left right < 2 ^ 64 := by
  exact mod_lt _ (by decide)

lemma divRoundUp_bounds (num : Nat) {denom : Nat} (pos : 0 < denom) :
    num ≤ divRoundUp num denom * denom ∧ divRoundUp num denom * denom < num + denom := by
  have split := div_add_mod num denom
  have small := mod_lt num pos
  have hc : denom * (num / denom) = num / denom * denom := mul_comm _ _
  unfold divRoundUp
  split
  · omega
  have he : (1 + num / denom) * denom = denom + num / denom * denom := by ring
  omega

lemma divRoundUp_pos {num denom : Nat} (numPositive : 0 < num) (denomPositive : 0 < denom) :
    0 < divRoundUp num denom := by
  rcases Nat.eq_zero_or_pos (divRoundUp num denom) with zero | pos
  · have hc := (divRoundUp_bounds num denomPositive).1
    rw [zero] at hc
    omega
  · exact pos

lemma upToNearest_eq_of_fits {n unit : Nat} (fits : divRoundUp n unit * unit < 2 ^ 64) :
    upToNearest n unit = divRoundUp n unit * unit := by
  unfold upToNearest
  split
  · rename_i exact
    have split := div_add_mod n unit
    have hq : divRoundUp n unit = n / unit := by simp [divRoundUp, exact]
    rw [hq, mul_comm]
    omega
  · rw [mul_comm, mod_eq_of_lt fits]

lemma upToNearest_lt {n unit : Nat} (word : n < 2 ^ 64) : upToNearest n unit < 2 ^ 64 := by
  unfold upToNearest
  split
  · exact word
  · exact mod_lt _ (by decide)

lemma upToNearest_mod_eq_zero {n unit : Nat} (divides : unit ∣ 2 ^ 64) :
    upToNearest n unit % unit = 0 := by
  unfold upToNearest
  split
  · assumption
  rw [mod_mod_of_dvd _ divides]
  exact mul_mod_right unit _

end OoOS.Libk
