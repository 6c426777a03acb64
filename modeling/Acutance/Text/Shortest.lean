namespace Acutance.Shortest

/-- The position of a positive binary fraction `mantissa * 2 ^ exponent` between its neighbours.
`narrowBelow` tells that the neighbour below is only half as far as the one above. -/
structure Binary where
  mantissa : Nat
  exponent : Int
  narrowBelow : Bool
  deriving DecidableEq, Repr

/-- A decimal fraction `digits * 10 ^ exponent`. -/
structure Decimal where
  digits : Nat
  exponent : Int
  deriving DecidableEq, Repr

/-- A rational number and the ends of the interval of those that read back as the same binary
fraction, all over one denominator. The ends belong to it if `closed`. -/
structure Interval where
  value : Nat
  low : Nat
  high : Nat
  unit : Nat
  closed : Bool

/-- The interval around a binary fraction. Its ends lie halfway to the neighbours. -/
def Binary.interval (b : Binary) : Interval :=
  let up := 1 <<< b.exponent.toNat
  { value := 4 * b.mantissa * up
    low := (4 * b.mantissa - if b.narrowBelow then 1 else 2) * up
    high := (4 * b.mantissa + 2) * up
    unit := 4 <<< (-b.exponent).toNat
    closed := b.mantissa % 2 = 0 }

/-- Whether a decimal fraction lies in an interval. -/
def Interval.contains (i : Interval) (d : Decimal) : Bool :=
  let scaled := d.digits * Nat.pow 10 d.exponent.toNat * i.unit
  let scale := Nat.pow 10 (-d.exponent).toNat
  if i.closed then i.low * scale ≤ scaled && scaled ≤ i.high * scale
  else i.low * scale < scaled && scaled < i.high * scale

/-- The number of steps, at most `fuel`, by which `n` must be scaled up by ten to reach `unit`. -/
def shortfall (n unit : Nat) : (fuel : Nat) → Nat
  | 0 => 0
  | fuel + 1 => if unit ≤ n then 0 else shortfall (n * 10) unit fuel + 1

/-- The number of decimal digits of a number. -/
def digitCount (n : Nat) : Nat := (Nat.toDigits 10 n).length

/-- The exponent of the first decimal digit of a value. No floating-point number needs more than
`400` steps. -/
def leadingExponent (i : Interval) : Int :=
  if i.unit ≤ i.value then (digitCount (i.value / i.unit) : Int) - 1
  else -(shortfall i.value i.unit 400 : Int)

/-- The nearest decimal with `count` digits that lies in the interval, if there is one. -/
def candidate? (i : Interval) (leading : Int) (count : Nat) : Option Decimal :=
  let exponent := leading - count + 1
  let scaled := i.value * Nat.pow 10 (-exponent).toNat
  let step := i.unit * Nat.pow 10 exponent.toNat
  let below : Decimal := ⟨scaled / step, exponent⟩
  let above : Decimal := ⟨scaled / step + 1, exponent⟩
  match i.contains below, i.contains above with
  | true, true => if 2 * (scaled % step) < step then some below else some above
  | true, false => some below
  | false, true => some above
  | false, false => none

/-- The most digits that any floating-point number needs. -/
def maxDigits : Nat := 17

/-- The shortest decimal that reads back as a positive binary fraction. Of those with the fewest
digits it is the nearest one, and of two equally near ones the larger. -/
def decimal (b : Binary) : Decimal :=
  let i := b.interval
  let leading := leadingExponent i
  ((List.range' 1 maxDigits).findSome? (candidate? i leading)).getD ⟨0, 0⟩

/-- A decimal in positional notation. A whole number has no point. -/
def Decimal.render (d : Decimal) : String :=
  let digits := (toString d.digits).toList
  if 0 ≤ d.exponent then String.ofList (digits ++ List.replicate d.exponent.toNat '0')
  else
    let places := (-d.exponent).toNat
    let padded := List.replicate (places + 1 - digits.length) '0' ++ digits
    let whole := padded.take (padded.length - places)
    let fraction := (padded.drop (padded.length - places)).reverse.dropWhile (· = '0')
    String.ofList (if fraction = [] then whole else whole ++ '.' :: fraction.reverse)

/-- The number of bits of a mantissa that are stored. -/
def mantissaBits : Nat := 52

/-- The text of a floating-point number. Zero keeps its sign. -/
def text (x : Float) : String :=
  let bits := x.toBits.toNat
  let sign := if bits >>> 63 = 1 then "-" else ""
  let biased := bits >>> mantissaBits % 2048
  let stored := bits % 1 <<< mantissaBits
  if biased = 2047 then if stored = 0 then sign ++ "inf" else "NaN"
  else if biased = 0 ∧ stored = 0 then sign ++ "0"
  else
    let binary : Binary :=
      if biased = 0 then ⟨stored, -1074, false⟩
      else ⟨1 <<< mantissaBits + stored, (biased : Int) - 1075, stored = 0 ∧ 1 < biased⟩
    sign ++ (decimal binary).render

end Acutance.Shortest
