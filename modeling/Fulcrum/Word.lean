import Mathlib.Tactic.Common
import Mathlib.Algebra.Group.Int
import Mathlib.Algebra.Order.Ring.Nat

/-!
# Fulcrum.Word

The C++ integer types the controller computes with.  A value is computed in `Int` and
converted to its type afterwards:

* `unsigned` (`asUnsigned`) and `size_t` (`asSizeT`) reduce modulo `2 ^ 32` and `2 ^ 64`;
* `int` (`asInt`) wraps around in two's complement.

Signed overflow is undefined in C++; `asInt` takes the two's-complement result, which is
what the compiled code computes on the targets the program is built for.

The lemmas say when a conversion is the identity, and that `asUnsigned` absorbs an inner
`asUnsigned`, so a chain of `unsigned` operations (`((to-from)+1) + stride-1` in
`DownloadBlocksTask::nToDL`) is one reduction of the whole expression.
-/

namespace Fulcrum

/-- `unsigned(x)`: reduction modulo `2 ^ 32`. -/
def asUnsigned (x : Int) : Nat := (x % 2 ^ 32).toNat

/-- `size_t(x)`: reduction modulo `2 ^ 64`. -/
def asSizeT (x : Int) : Nat := (x % 2 ^ 64).toNat

/-- `int(x)`: two's-complement wrap-around to 32 bits. -/
def asInt (x : Int) : Int := (x + 2 ^ 31) % 2 ^ 32 - 2 ^ 31

theorem asUnsigned_lt (x : Int) : asUnsigned x < 2 ^ 32 := by
  unfold asUnsigned; omega

theorem asUnsigned_of_lt {x : Int} (h0 : 0 ≤ x) (h : x < 2 ^ 32) : (asUnsigned x : Int) = x := by
  unfold asUnsigned; omega

@[simp] theorem asUnsigned_natCast_of_lt {n : Nat} (h : n < 2 ^ 32) : asUnsigned n = n := by
  unfold asUnsigned; omega

/-- An inner `unsigned` conversion under `+` is absorbed by the outer one. -/
theorem asUnsigned_add_left (x y : Int) : asUnsigned (asUnsigned x + y) = asUnsigned (x + y) := by
  unfold asUnsigned; omega

/-- An inner `unsigned` conversion under `-` is absorbed by the outer one. -/
theorem asUnsigned_sub_left (x y : Int) : asUnsigned (asUnsigned x - y) = asUnsigned (x - y) := by
  unfold asUnsigned; omega

theorem asSizeT_of_lt {x : Int} (h0 : 0 ≤ x) (h : x < 2 ^ 64) : (asSizeT x : Int) = x := by
  unfold asSizeT; omega

theorem asInt_of_range {x : Int} (h0 : -2 ^ 31 ≤ x) (h : x < 2 ^ 31) : asInt x = x := by
  unfold asInt; omega

end Fulcrum
