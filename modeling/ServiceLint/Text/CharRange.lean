/-!
# Character classes as code point ranges

A character class given by the Unicode standard is a list of closed code point ranges in
increasing order. Membership is one comparison per range.
-/
namespace ServiceLint.Text

/-- Whether the code point of `c` lies in one of the closed ranges. -/
def inRanges (ranges : List (Nat × Nat)) (c : Char) : Bool :=
  ranges.any fun r => r.1 ≤ c.toNat && c.toNat ≤ r.2

end ServiceLint.Text
