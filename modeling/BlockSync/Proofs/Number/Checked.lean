import Mathlib.Algebra.Group.Int.Defs
import Mathlib.Algebra.Group.Nat.Defs
import BlockSync.Number.Saturating
import BlockSync.Text.Utf8

/-! Arithmetic of machine words that has no result where it would leave the range of a word. -/

namespace BlockSync.Checked

def add (bits a b : Nat) : Option Nat := if a + b < 2 ^ bits then some (a + b) else none

def sub (a b : Nat) : Option Nat := if b ≤ a then some (a - b) else none

def mul (bits a b : Nat) : Option Nat := if a * b < 2 ^ bits then some (a * b) else none

def shiftLeft (bits a n : Nat) : Option Nat :=
  if n < bits then some (a * 2 ^ n % 2 ^ bits) else none

def signed (bits : Nat) (n : Int) : Option Int :=
  if -2 ^ (bits - 1) ≤ n ∧ n < 2 ^ (bits - 1) then some n else none

def slice (data : Bytes) (start stop : Nat) : Option Bytes :=
  if start ≤ stop ∧ stop ≤ data.length then some ((data.take stop).drop start) else none

theorem signed_of_bounds {n : Int} (hlow : -2 ^ 63 ≤ n) (hhigh : n < 2 ^ 63) :
    signed 64 n = some n := if_pos ⟨hlow, hhigh⟩

theorem shiftLeft_of_lt {bits a n : Nat} (hn : n < bits) (h : a * 2 ^ n < 2 ^ bits) :
    shiftLeft bits a n = some (a * 2 ^ n) := by
  rw [shiftLeft, if_pos hn, Nat.mod_eq_of_lt h]

end BlockSync.Checked
