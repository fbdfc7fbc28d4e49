import Mathlib.Order.Basic

/-!
# Places in a Circle

`n` places in a circle, with numbers below `n`. One goes forward, and behind the
last place is the first.

`ahead n i j` is how far it is from `i` to `j`. Going forward by no more than that
brings `j` nearer by as much, so a search that goes around the circle and does not
pass over `j` arrives there, and comes by no place twice.

## Main definitions

* `ahead`: The way from one place to another.

## Theorems

* `forward_ahead`: Where the way ends.
* `ahead_forward`: Going a part of the way.
* `ahead_forward_lt`: Going one place beyond where one has looked.
-/

namespace MqBroker

/-- How far it is from a place forward to another. -/
def ahead (n i j : Nat) : Nat := (j + n - i) % n

section Circle

variable {n i j k : Nat}

/-- A way that goes around at most once. -/
theorem forward_eq (hi : i < n) (hk : k ≤ n) :
    (i + k) % n = if i + k < n then i + k else i + k - n := by
  split_ifs with hlt
  · exact Nat.mod_eq_of_lt hlt
  · rw [Nat.mod_eq_sub_mod (Nat.le_of_not_lt hlt)]
    exact Nat.mod_eq_of_lt (by omega)

theorem ahead_eq (hi : i < n) (hj : j < n) :
    ahead n i j = if i ≤ j then j - i else j + n - i := by
  unfold ahead
  split_ifs with hle
  · rw [show j + n - i = (j - i) + n by omega, Nat.add_mod_right]
    exact Nat.mod_eq_of_lt (by omega)
  · exact Nat.mod_eq_of_lt (by omega)

theorem ahead_lt (hn : 0 < n) : ahead n i j < n := Nat.mod_lt _ hn

/-- At the end of the way is the other place. -/
theorem forward_ahead (hi : i < n) (hj : j < n) : (i + ahead n i j) % n = j := by
  rw [forward_eq hi (Nat.le_of_lt (ahead_lt (by omega))), ahead_eq hi hj]
  split_ifs <;> omega

/-- A part of the way. -/
theorem ahead_forward (hi : i < n) (hj : j < n) (hk : k ≤ ahead n i j) :
    ahead n ((i + k) % n) j = ahead n i j - k := by
  have hlt : ahead n i j < n := ahead_lt (by omega)
  have hplace : (i + k) % n < n := Nat.mod_lt _ (by omega)
  rw [ahead_eq hplace hj]
  rw [ahead_eq hi hj] at hk hlt ⊢
  rw [forward_eq hi (by omega)] at hplace ⊢
  split_ifs at hk hlt hplace ⊢ <;> omega

/-- If the other place is not where one has got to, then one place further it is
    nearer. -/
theorem ahead_forward_lt (hi : i < n) (hj : j < n) (hk : k ≤ ahead n i j)
    (hne : (i + k) % n ≠ j) : ahead n (((i + k) % n + 1) % n) j < ahead n i j - k := by
  have hplace : (i + k) % n < n := Nat.mod_lt _ (by omega)
  have hrest := ahead_forward hi hj hk
  have hpos : 1 ≤ ahead n ((i + k) % n) j := by
    by_contra hzero
    have hend := forward_ahead hplace hj
    rw [show ahead n ((i + k) % n) j = 0 by omega, Nat.add_zero, Nat.mod_eq_of_lt hplace] at hend
    exact hne hend
  rw [ahead_forward hplace hj hpos]
  omega

end Circle

end MqBroker
