/-!
# Numbers written by digits

Reading natural numbers in a given base. The letters of either case continue the ten digits.
-/
namespace ServiceLint.Digits

def value? (c : Char) : Option Nat :=
  if '0' ≤ c ∧ c ≤ '9' then some (c.toNat - '0'.toNat)
  else if 'a' ≤ c ∧ c ≤ 'z' then some (c.toNat - 'a'.toNat + 10)
  else if 'A' ≤ c ∧ c ≤ 'Z' then some (c.toNat - 'A'.toNat + 10)
  else none

/-- Continues the number `n` by digits of the base. -/
def extend? (base : Nat) (n : Nat) : List Char → Option Nat
  | [] => some n
  | c :: cs => match value? c with
    | some d => if d < base then extend? base (n * base + d) cs else none
    | none => none

/-- The number written by at least one digit of the base. -/
def number? (base : Nat) : List Char → Option Nat
  | [] => none
  | cs => extend? base 0 cs

/-- The number written by digits between which single underscores may stand. -/
def grouped? (base : Nat) (cs : List Char) : Option Nat :=
  if cs.head? == some '_' || cs.getLast? == some '_' || hasDouble cs then none
  else number? base (cs.filter (· != '_'))
where
  /-- Whether two underscores stand side by side. -/
  hasDouble : List Char → Bool
    | '_' :: '_' :: _ => true
    | _ :: cs => hasDouble cs
    | [] => false

/-- The character with the code point written by hexadecimal digits, if there is one. -/
def char? (cs : List Char) : Option Char :=
  (number? 16 cs).bind fun n => if n.isValidChar then some (Char.ofNat n) else none

end ServiceLint.Digits
