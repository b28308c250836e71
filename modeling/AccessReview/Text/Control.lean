/-!
# Control characters

The general category Cc: the C0 controls U+0000 to U+001F and the C1 controls U+007F to
U+009F. A name holding one is refused, and an identifier holding one is never quoted into
a statement.
-/

namespace AccessReview.Text

/-- Whether `c` is a control character (general category Cc). -/
def isControl (c : Char) : Bool :=
  c.toNat < 0x20 || (0x7F ≤ c.toNat && c.toNat ≤ 0x9F)

end AccessReview.Text
