/-!
# The Jaro–Winkler measure

Computed in double precision in one fixed order of operations. The program runs with it in place of the
package's.
-/
namespace ServiceLint.Text

/-- The first index in `[low, high)` where `c` stands in `candidates` and is not taken. The
candidates are listed from index `i` on, each with its mark of being taken. -/
def firstFree (c : Char) (low high : Nat) : Nat → List (Char × Bool) → Option Nat
  | _, [] => none
  | i, (d, taken) :: rest =>
    if high ≤ i then none
    else if low ≤ i && c == d && !taken then some i
    else firstFree c low high (i + 1) rest

/-- Matches the characters of `a`, which start at index `i`, one after the other with free equal
characters of `b` at most `window` places away. Returns the matched characters of `a` in order and
`b` with its marks. -/
def matchWithin (window : Nat) : Nat → List Char → List (Char × Bool) →
    List Char × List (Char × Bool)
  | _, [], b => ([], b)
  | i, c :: a, b =>
    match firstFree c (i - window) (i + window + 1) 0 b with
    | none => matchWithin window (i + 1) a b
    | some j =>
      match matchWithin window (i + 1) a (b.set j (c, true)) with
      | (matched, marks) => (c :: matched, marks)

def jaro (a b : List Char) : Float :=
  if a.isEmpty && b.isEmpty then 1.0
  else if a.isEmpty || b.isEmpty then 0.0
  else
    let window := max a.length b.length / 2 - 1
    let (fromA, marks) := matchWithin window 0 a (b.map fun c => (c, false))
    let fromB := marks.filterMap fun (c, taken) => if taken then some c else none
    let common := fromA.length
    if common == 0 then 0.0
    else
      let swapped := ((fromA.zip fromB).countP fun (c, d) => c != d) / 2
      (Float.ofNat common / Float.ofNat a.length + Float.ofNat common / Float.ofNat b.length
        + Float.ofNat (common - swapped) / Float.ofNat common) / 3.0

/-- The Jaro–Winkler similarity: above 0.7 a common beginning of up to four characters raises the
Jaro similarity. -/
def jaroWinkler (a b : List Char) : Float :=
  let score := jaro a b
  if score > 0.7 then
    let common := (((a.take 4).zip b).takeWhile fun (c, d) => c == d).length
    score + 0.1 * Float.ofNat common * (1.0 - score)
  else score

end ServiceLint.Text
