/-!
# Shortest decimal text of a double

The text of a finite double is the decimal with the fewest significant digits that reads
back to the same double; of two such decimals the one nearer to the double wins, and an
exact tie goes to the even last digit. The decimal is written positionally: never with an
exponent, with a point only when it has a fractional part, and with a minus sign for a
negative value, negative zero included.

The double `±m·2^q` stands for every real that rounds to it: the reals within half a
spacing of it on either side, the ends included when `m` is even. The spacing below is half
the spacing above when `m` is the least significand of its binade. For each count of
significant digits from 1 to 17 the two neighbours of the double on that decimal grid are
tested against this interval in exact natural-number arithmetic; 17 digits always suffice.
-/

namespace AccessReview.Binary64

/-- A finite double taken apart: its sign, its significand `m` and exponent `q` with value
`±m·2^q`, and whether the spacing below it is half the spacing above. -/
structure Parts where
  /-- The sign bit. -/
  negative : Bool
  /-- The significand, with the hidden bit for a normal number. -/
  mantissa : Nat
  /-- The power of two the significand is scaled by. -/
  exponent : Int
  /-- The significand is the least of a binade above the lowest one. -/
  narrowBelow : Bool

/-- The parts of a double read off its bits. -/
def Parts.ofFloat (x : Float) : Parts :=
  let bits := x.toBits.toNat
  let biased := (bits >>> 52) % 2048
  let fraction := bits % Nat.pow 2 52
  if biased == 0 then ⟨bits >>> 63 == 1, fraction, -1074, false⟩
  else ⟨bits >>> 63 == 1, fraction + Nat.pow 2 52, (biased : Int) - 1075, fraction == 0 && 1 < biased⟩

/-- The non-negative rational `a·2^p2·10^p10` as a numerator and a denominator. -/
def scaled (a : Nat) (p2 p10 : Int) : Nat × Nat :=
  (a * Nat.pow 2 p2.toNat * Nat.pow 10 p10.toNat, Nat.pow 2 (-p2).toNat * Nat.pow 10 (-p10).toNat)

/-- `x ≤ y` for rationals given as numerator and denominator with positive denominators. -/
def ratioLE (x y : Nat × Nat) : Bool := x.1 * y.2 ≤ y.1 * x.2

/-- `x < y` for rationals given as numerator and denominator with positive denominators. -/
def ratioLT (x y : Nat × Nat) : Bool := x.1 * y.2 < y.1 * x.2

/-- The exponent of the leading decimal digit of the positive rational `x`: the `t` with
`10^t ≤ x < 10^(t+1)`. -/
def leadingExponent (x : Nat × Nat) : Int :=
  if x.2 ≤ x.1 then ((Nat.toDigits 10 (x.1 / x.2)).length : Int) - 1
  else
    -- `x < 1`: the least `s` with `10^(-s) ≤ x` is `L` or `L + 1`, where `L + 1` is the
    -- digit count of `⌊1/x⌋`.
    let l := (Nat.toDigits 10 (x.2 / x.1)).length - 1
    if x.2 ≤ x.1 * Nat.pow 10 l then -(l : Int) else -((l + 1 : Nat) : Int)

/-- The decimal `c·10^t` with `k` significant digits nearest to the value, if one reads
back; `value`, `low` and `high` are the double and the ends of its interval in units of
`2^unit`. -/
def nearestOnGrid (value low high : Nat) (unit : Int) (inclusive : Bool) (lead : Int)
    (k : Nat) : Option (Nat × Int) :=
  let t := lead - k + 1
  let v := scaled value unit 0
  let grid := scaled 1 0 t
  -- `v / grid`, split into its floor and remainder over the common denominator
  let num := v.1 * grid.2
  let den := v.2 * grid.1
  let below := num / den
  let rest := num % den
  if rest == 0 then some (below, t)
  else
    let lo := scaled low unit 0
    let hi := scaled high unit 0
    let atOrAbove (x y : Nat × Nat) := if inclusive then ratioLE x y else ratioLT x y
    let lowOk := atOrAbove lo (scaled below 0 t)
    let highOk := atOrAbove (scaled (below + 1) 0 t) hi
    if lowOk && highOk then
      if 2 * rest < den then some (below, t)
      else if den < 2 * rest then some (below + 1, t)
      else if below % 2 == 0 then some (below, t) else some (below + 1, t)
    else if lowOk then some (below, t)
    else if highOk then some (below + 1, t)
    else none

/-- Removes trailing zero digits of `c·10^t`, raising `t` for each. -/
def stripZeros (c : Nat) (t : Int) (fuel : Nat) : Nat × Int :=
  match fuel with
  | 0 => (c, t)
  | fuel + 1 => if c != 0 && c % 10 == 0 then stripZeros (c / 10) (t + 1) fuel else (c, t)

/-- The shortest decimal `c·10^t` that reads back to a positive double given by its
parts. -/
def shortestDecimal (p : Parts) : Nat × Int :=
  let value := 4 * p.mantissa
  let low := if p.narrowBelow then value - 1 else value - 2
  let high := value + 2
  let unit := p.exponent - 2
  let lead := leadingExponent (scaled value unit 0)
  let inclusive := p.mantissa % 2 == 0
  let found := (List.range 17).findSome? fun i =>
    nearestOnGrid value low high unit inclusive lead (i + 1)
  let (c, t) := found.getD (p.mantissa, p.exponent)
  stripZeros c t (Nat.toDigits 10 c).length

/-- The positional text of `c·10^t`. -/
def positional (c : Nat) (t : Int) : String :=
  let digits := Nat.toDigits 10 c
  if 0 ≤ t then String.ofList (digits ++ List.replicate t.toNat '0')
  else
    let point := (digits.length : Int) + t
    if 0 < point then
      String.ofList (digits.take point.toNat ++ '.' :: digits.drop point.toNat)
    else String.ofList ('0' :: '.' :: (List.replicate (-point).toNat '0' ++ digits))

/-- The shortest positional text of a finite double. -/
def shortestText (x : Float) : String :=
  let p := Parts.ofFloat x
  let sign := if p.negative then "-" else ""
  if p.mantissa == 0 then sign ++ "0"
  else
    let (c, t) := shortestDecimal p
    sign ++ positional c t

end AccessReview.Binary64
