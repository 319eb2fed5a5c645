import Mathlib.Data.Int.Init
import Mathlib.Tactic.NormNum

/-!
# Checked machine arithmetic

Arithmetic of signed machine integers on their exact values. An operation returns nothing where the
machine's own is undefined: the exact result is out of range, or the divisor is zero. A computation
that returns something thus never left the range.
-/

namespace Checked

/-- The values of a signed type of `width` bits. -/
def InRange (width : Nat) (x : Int) : Prop := -2 ^ (width - 1) ≤ x ∧ x < 2 ^ (width - 1)

instance (width : Nat) (x : Int) : Decidable (InRange width x) :=
  inferInstanceAs (Decidable (_ ∧ _))

def fit (width : Nat) (x : Int) : Option Int := if InRange width x then some x else none

def add (width : Nat) (x y : Int) : Option Int := fit width (x + y)

def sub (width : Nat) (x y : Int) : Option Int := fit width (x - y)

def mul (width : Nat) (x y : Int) : Option Int := fit width (x * y)

/-- Division rounds towards zero. -/
def div (width : Nat) (x y : Int) : Option Int := if y = 0 then none else fit width (x.tdiv y)

theorem inRange_64 {x : Int} :
    InRange 64 x ↔ -9223372036854775808 ≤ x ∧ x < 9223372036854775808 := by
  norm_num [InRange]

theorem inRange_32 {x : Int} : InRange 32 x ↔ -2147483648 ≤ x ∧ x < 2147483648 := by
  norm_num [InRange]

theorem fit_eq {width : Nat} {x : Int} (h : InRange width x) : fit width x = some x := if_pos h

theorem add_eq {width : Nat} {x y : Int} (h : InRange width (x + y)) :
    add width x y = some (x + y) := fit_eq h

theorem sub_eq {width : Nat} {x y : Int} (h : InRange width (x - y)) :
    sub width x y = some (x - y) := fit_eq h

theorem mul_eq {width : Nat} {x y : Int} (h : InRange width (x * y)) :
    mul width x y = some (x * y) := fit_eq h

theorem div_eq {width : Nat} {x y : Int} (hx : 0 ≤ x) (hy : 0 < y) (h : InRange width x) :
    div width x y = some (x / y) := by
  have hle : x / y ≤ x := Int.ediv_le_self y hx
  have hnonneg : 0 ≤ x / y := Int.ediv_nonneg hx hy.le
  have hrange : InRange width (x.tdiv y) := by
    rw [Int.tdiv_eq_ediv_of_nonneg hx]
    have hpow : (0 : Int) ≤ 2 ^ (width - 1) := by positivity
    exact ⟨by omega, lt_of_le_of_lt hle h.2⟩
  rw [div, if_neg (by omega), fit_eq hrange, Int.tdiv_eq_ediv_of_nonneg hx]

theorem mapM_eq_some {α β : Type*} {f : α → Option β} {g : α → β} {l : List α}
    (h : ∀ x ∈ l, f x = some (g x)) : l.mapM f = some (l.map g) := by
  induction l with
  | nil => rfl
  | cons x rest ih =>
      have hrest := ih fun y hy => h y (List.mem_cons_of_mem _ hy)
      rw [List.mapM_cons, h x List.mem_cons_self, hrest]
      rfl

end Checked
