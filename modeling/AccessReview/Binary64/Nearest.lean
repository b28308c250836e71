/-!
# The double nearest to a natural number

`ofNatNearest n` is the binary64 value nearest to `n`, a tie going to the even
significand, and infinity once `n` rounds past the largest finite double. Below `2^53`
every natural number is a double already. Above, `n` is cut to its leading 53 bits and
the bits cut off decide the rounding: more than half a unit rounds up, exactly half rounds
to the even significand.
-/

namespace AccessReview.Binary64

/-- The significand of `n` cut to 53 bits and rounded to nearest, ties to even, together
with the power of two it is scaled by. -/
def roundedSignificand (n : Nat) : Nat × Nat :=
  let shift := n.log2 - 52
  let kept := n >>> shift
  let cut := n % Nat.pow 2 shift
  let half := Nat.pow 2 (shift - 1)
  if half < cut || (cut == half && kept % 2 == 1) then (kept + 1, shift) else (kept, shift)

/-- The binary64 value nearest to `n`, ties to even. -/
def ofNatNearest (n : Nat) : Float :=
  if n < Nat.pow 2 53 then n.toUInt64.toFloat
  else
    let (m, shift) := roundedSignificand n
    m.toUInt64.toFloat.scaleB shift

end AccessReview.Binary64
