/-!
# Spans of time

Spans are whole nanoseconds. The text of a span uses the largest unit in which its integer part
is not zero, and as many decimals as it needs.
-/

namespace OnionTunnel

/-- A moment, in nanoseconds since the clock started. -/
abbrev Instant := Nat

/-- A span of time. -/
structure Duration where
  nanoseconds : Nat
  deriving DecidableEq, Repr

namespace Duration

/-- A span of whole milliseconds. -/
def ofMilliseconds (n : Nat) : Duration := ⟨n * 1000000⟩

/-- A span of whole seconds. -/
def ofSeconds (n : Nat) : Duration := ⟨n * 1000000000⟩

/-- The decimals of `part` out of `10 ^ places`, without trailing zeros. -/
def decimals (places part : Nat) : List Char :=
  let digits := Nat.toDigits 10 part
  let padded := List.replicate (places - digits.length) '0' ++ digits
  (padded.reverse.dropWhile (· = '0')).reverse

/-- `whole` and a fraction of `part` out of `10 ^ places`, followed by a unit. -/
def inUnit (places nanoseconds : Nat) (unit : String) : String :=
  let whole := nanoseconds / Nat.pow 10 places
  let part := nanoseconds % Nat.pow 10 places
  let fraction := if part = 0 then [] else '.' :: decimals places part
  String.ofList (Nat.toDigits 10 whole ++ fraction) ++ unit

/-- The text of a span: `0ns`, `1.5µs`, `200ms`, `90.061s`. -/
def text (d : Duration) : String :=
  let n := d.nanoseconds
  if 1000000000 ≤ n then inUnit 9 n "s"
  else if 1000000 ≤ n then inUnit 6 n "ms"
  else if 1000 ≤ n then inUnit 3 n "µs"
  else inUnit 0 n "ns"

end Duration

end OnionTunnel
