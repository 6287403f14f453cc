import BlockSync.Number.Rounding

/-!
Double precision numbers as exact fractions, and what is read off the fraction: decimal text with
a fixed number of places, and whole nanoseconds.
-/

namespace BlockSync

/-- The absolute value of a double as a fraction; the exponent field of infinities and of what is
no number is taken like any other. -/
structure Fraction where
  num : Nat
  den : Nat

namespace Fraction

def ofFloat (x : Float) : Fraction :=
  let bits := x.toBits.toNat
  let field := (bits >>> 52) % (1 <<< 11)
  let low := bits % (1 <<< 52)
  let significand := if field = 0 then low else (1 <<< 52) + low
  let exponent := max field 1
  if 1075 ≤ exponent then ⟨significand <<< (exponent - 1075), 1⟩
  else ⟨significand, 1 <<< (1075 - exponent)⟩

/-- The nearest multiple of one part in `scale`, counted in such parts. -/
def scaled (f : Fraction) (scale : Nat) : Nat := roundDiv (f.num * scale) f.den

def toText (f : Fraction) (places : Nat) : String :=
  let scale := Nat.pow 10 places
  let n := f.scaled scale
  let digits := toString (n % scale)
  let zeros := String.ofList (List.replicate (places - digits.length) '0')
  s!"{n / scale}.{zeros}{digits}"

end Fraction

end BlockSync
