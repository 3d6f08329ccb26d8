import Mathlib.Algebra.Order.Ring.Int

/-!
# Checked arithmetic on 64-bit integers

A computation on signed 64-bit integers is written over the exact integers, with every
operation checked: a result outside the range is an overflow and ends the computation.
A loop runs on fuel, and running out of it ends the computation too. A computation that
returns therefore performed no operation that overflows and no loop that does not end.
-/

namespace CheckedArithmetic

/-- Why a computation has no result. -/
inductive Fault where
  | overflow
  | outOfFuel
deriving DecidableEq

abbrev Checked (α : Type) := Except Fault α

@[simp] theorem ok_bind {α β : Type} (value : α) (next : α → Checked β) :
    ((.ok value : Checked α) >>= next) = next value := rfl

/-- An exact result, if it is representable. -/
def checked (value : Int) : Checked Int :=
  if -2 ^ 63 ≤ value ∧ value ≤ 2 ^ 63 - 1 then .ok value else .error .overflow

def add (left right : Int) : Checked Int := checked (left + right)

def sub (left right : Int) : Checked Int := checked (left - right)

def mul (left right : Int) : Checked Int := checked (left * right)

/-- Division truncates towards zero. A zero divisor is as undefined as an overflow. -/
def div (left right : Int) : Checked Int :=
  if right = 0 then .error .overflow else checked (left.tdiv right)

theorem checked_eq {value : Int} (lower : -2 ^ 63 ≤ value) (upper : value ≤ 2 ^ 63 - 1) :
    checked value = .ok value :=
  if_pos ⟨lower, upper⟩

section Operations

variable {left right : Int}

theorem add_eq (lower : -2 ^ 63 ≤ left + right) (upper : left + right ≤ 2 ^ 63 - 1) :
    add left right = .ok (left + right) :=
  checked_eq lower upper

theorem sub_eq (lower : -2 ^ 63 ≤ left - right) (upper : left - right ≤ 2 ^ 63 - 1) :
    sub left right = .ok (left - right) :=
  checked_eq lower upper

theorem mul_eq (lower : -2 ^ 63 ≤ left * right) (upper : left * right ≤ 2 ^ 63 - 1) :
    mul left right = .ok (left * right) :=
  checked_eq lower upper

/-- Dividing a nonnegative number by a positive one stays in its range and rounds down. -/
theorem div_eq (nonneg : 0 ≤ left) (upper : left ≤ 2 ^ 63 - 1) (positive : 0 < right) :
    div left right = .ok (left / right) := by
  have quotient := Int.ediv_nonneg nonneg positive.le
  have smaller := Int.ediv_le_self right nonneg
  unfold div
  rw [if_neg positive.ne', Int.tdiv_eq_ediv_of_nonneg nonneg]
  exact checked_eq (by omega) (by omega)

/-- Rounding a nonnegative number down to a multiple of a positive one. -/
theorem div_mul_eq (nonneg : 0 ≤ left) (upper : left ≤ 2 ^ 63 - 1) (positive : 0 < right) :
    (div left right >>= fun quotient => mul quotient right) = .ok (left / right * right) := by
  have product := Int.mul_nonneg (Int.ediv_nonneg nonneg positive.le) positive.le
  have rounded := Int.ediv_mul_le left positive.ne'
  rw [div_eq nonneg upper positive, ok_bind]
  exact mul_eq (by omega) (by omega)

end Operations

end CheckedArithmetic
