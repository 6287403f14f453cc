/-!
Spans of time as text: exactly, in the largest unit that is not below one; and in days, hours,
minutes and seconds.
-/

namespace BlockSync

abbrev Duration := Nat

namespace Duration

def ofMillis (n : Nat) : Duration := n * 1000000

def ofSeconds (n : Nat) : Duration := n * 1000000000

def seconds (d : Duration) : Nat := d / 1000000000

/-- The last `places` digits of a number behind the point, without trailing zeros. -/
def decimals (places part : Nat) : List Char :=
  let digits := (toString part).toList
  let all := List.replicate (places - digits.length) '0' ++ digits
  (all.reverse.dropWhile (· == '0')).reverse

def inUnit (d : Duration) (places : Nat) (unit : String) : String :=
  let scale := Nat.pow 10 places
  let whole := toString (d / scale)
  if d % scale = 0 then whole ++ unit
  else whole ++ "." ++ String.ofList (decimals places (d % scale)) ++ unit

def describe (d : Duration) : String :=
  if 1000000000 ≤ d then inUnit d 9 "s"
  else if 1000000 ≤ d then inUnit d 6 "ms"
  else if 1000 ≤ d then inUnit d 3 "µs"
  else inUnit d 0 "ns"

def twoDigits (n : Nat) : String := if n < 10 then s!"0{n}" else toString n

/-- Whole seconds, split up to days; days and hours are left out where they and all above are
zero. -/
def eta (d : Duration) : String :=
  let total := d.seconds
  let days := total / 86400
  let hours := total % 86400 / 3600
  let minutes := total % 3600 / 60
  let rest := s!"{twoDigits minutes}m:{twoDigits (total % 60)}s"
  if 0 < days then s!"{twoDigits days}d:{twoDigits hours}h:{rest}"
  else if 0 < hours then s!"{twoDigits hours}h:{rest}"
  else rest

end Duration

end BlockSync
