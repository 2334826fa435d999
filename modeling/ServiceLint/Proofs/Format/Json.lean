import Mathlib.Data.List.Basic
import ServiceLint.Format.Json.Printer
import ServiceLint.Format.Json.Reader
import ServiceLint.Proofs.Stretch

/-!
# Printed JSON is read back

The text that `Json.compact` prints is read as the value it was printed for (`Json.parse?_compact`). Strings
and numbers are read up to where they end, whatever follows; the bound on the number of steps is covered by
the length of the text, by induction over the value.

Integers beyond 64 bits are the exception: they are read as decimals, so values that hold them are left out
(`Json.inRange`).
-/
namespace ServiceLint

/-- Whether the number is read as it was written: an integer must fit 64 bits, signed or unsigned. -/
def JsonNumber.inRange : JsonNumber → Bool
  | .int n => decide (-9223372036854775808 ≤ n) && decide (n < 18446744073709551616)
  | .decimal _ _ => true

/-! ## Digits -/

namespace Digits

theorem value?_of_isDigit {c : Char} (h : c.isDigit = true) :
    value? c = some (c.toNat - '0'.toNat) ∧ c.toNat - '0'.toNat < 10 := by
  have hcode : 48 ≤ c.toNat ∧ c.toNat ≤ 57 := by
    simpa [Char.isDigit, UInt32.le_iff_toNat_le] using h
  have hrange : '0' ≤ c ∧ c ≤ '9' := hcode
  have hzero : '0'.toNat = 48 := rfl
  exact ⟨by rw [value?, if_pos hrange], by omega⟩

/-- Decimal digits continue a number. -/
theorem extend?_ten {cs : List Char} (h : ∀ c ∈ cs, c.isDigit = true) (n : Nat) :
    extend? 10 n cs = some (Nat.ofDigitChars 10 cs n) := by
  induction cs generalizing n with
  | nil => rw [extend?, Nat.ofDigitChars_nil]
  | cons c cs ih =>
    obtain ⟨hc, hcs⟩ := List.forall_mem_cons.1 h
    obtain ⟨hvalue, hlt⟩ := value?_of_isDigit hc
    rw [extend?, hvalue, Nat.ofDigitChars_cons, Nat.mul_comm 10 n]
    exact (if_pos hlt).trans (ih hcs _)

end Digits

namespace Json

/-- The value of the digits of a number is the number. -/
theorem digitsValue_toDigits (n : Nat) : digitsValue (Nat.toDigits 10 n) = n := by
  have hdigits : ∀ c ∈ Nat.toDigits 10 n, c.isDigit = true :=
    fun c hc => Nat.isDigit_of_mem_toDigits (by decide) (by decide) hc
  rw [digitsValue, Digits.extend?_ten hdigits, Nat.ofDigitChars_ten_toDigits, Option.getD_some]

/-- Only zero is written with a zero at its start. -/
theorem toDigits_head {n : Nat} (hn : 0 < n) : ∀ c ∈ (Nat.toDigits 10 n).head?, c ≠ '0' := by
  induction n using Nat.strongRecOn with
  | _ n ih =>
    by_cases hlt : n < 10
    · rw [Nat.toDigits_of_lt_base hlt]
      simp [Nat.digitChar_eq_zero]
      omega
    · rw [Nat.toDigits_of_base_le (by decide) (by omega), List.head?_append_of_ne_nil]
      · exact ih (n / 10) (by omega) (by omega)
      · exact Nat.toDigits_ne_nil

/-! ## Strings -/

theorem number?_hexDigit : ∀ n < 32, Digits.number? 16 ['0', '0', hexDigit (n / 16), hexDigit n] = some n := by
  decide

/-- A character that is written by its code is read, whatever follows it. -/
theorem stringTail_unicode {a b c d : Char} {code : Nat} (h : Digits.number? 16 [a, b, c, d] = some code)
    (hcode : code < 0xD800) (tail : List Char) :
    stringTail ('\\' :: 'u' :: a :: b :: c :: d :: tail) =
      (stringTail tail).map fun (chars, rest) => (Char.ofNat code :: chars, rest) := by
  -- the reader looks ahead for a second code, which only a pair of surrogates has
  rw [stringTail.eq_def]
  split
  · next heq => cases heq
  · next heq => cases heq
  · next heq =>
    cases heq
    have hhigh : ¬ (55296 ≤ code ∧ code < 56320) := by omega
    have hlow : ¬ (56320 ≤ code ∧ code < 57344) := by omega
    cases stringTail ('\\' :: 'u' :: _) <;> simp [h, hhigh, hlow]
  · next heq =>
    cases heq
    have hlone : ¬ (55296 ≤ code ∧ code < 57344) := by omega
    cases stringTail tail <;> simp [h, hlone]
  · next hshort heq =>
    cases heq
    exact absurd rfl (hshort _ _ _ _ _ rfl)
  · next hescape heq =>
    cases heq
    exact absurd rfl (hescape _ _ rfl)

theorem stringTail_simple {c e : Char} (h : simpleEscape? e = some c) (hu : e ≠ 'u') (tail : List Char) :
    stringTail ('\\' :: e :: tail) = (stringTail tail).map fun (chars, rest) => (c :: chars, rest) := by
  cases htail : stringTail tail <;> simp [stringTail, h, hu, htail]

theorem stringTail_plain {c : Char} (hquote : c ≠ '"') (hescape : c ≠ '\\') (hcode : ¬ c.toNat < 0x20)
    (tail : List Char) :
    stringTail (c :: tail) = (stringTail tail).map fun (chars, rest) => (c :: chars, rest) := by
  simp [stringTail, hescape, hcode]

/-- A character of a string is read as it was written. -/
theorem stringTail_escapeChar (c : Char) (tail : List Char) :
    stringTail (escapeChar c ++ tail) = (stringTail tail).map fun (chars, rest) => (c :: chars, rest) := by
  unfold escapeChar
  split_ifs with h₁ h₂ h₃ h₄ h₅ h₆ h₇ h₈
  · subst h₁
    exact stringTail_simple rfl (by decide) tail
  · subst h₂
    exact stringTail_simple rfl (by decide) tail
  · subst h₃
    exact stringTail_simple rfl (by decide) tail
  · subst h₄
    exact stringTail_simple rfl (by decide) tail
  · subst h₅
    exact stringTail_simple rfl (by decide) tail
  · subst h₆
    exact stringTail_simple rfl (by decide) tail
  · subst h₇
    exact stringTail_simple rfl (by decide) tail
  · have hread := stringTail_unicode (number?_hexDigit c.toNat h₈) (by omega) tail
    rwa [Char.ofNat_toNat] at hread
  · exact stringTail_plain h₁ h₂ h₈ tail

/-- A string is read back, whatever follows it. -/
theorem stringTail_escaped (cs rest : List Char) :
    stringTail (cs.flatMap escapeChar ++ '"' :: rest) = some (cs, rest) := by
  induction cs with
  | nil => rfl
  | cons c cs ih => rw [List.flatMap_cons, List.append_assoc, stringTail_escapeChar, ih]; rfl

/-! ## Numbers -/

/-- The text does not continue a number. -/
def EndsNumber (rest : List Char) : Prop :=
  ∀ c ∈ rest.head?, c.isDigit = false ∧ c ≠ '.' ∧ c ≠ 'e' ∧ c ≠ 'E'

variable {rest : List Char}

/-- The digits of a number are read up to what is no digit. -/
theorem digits1?_toDigits (hrest : ∀ c ∈ rest.head?, c.isDigit = false) (n : Nat) :
    digits1? (Nat.toDigits 10 n ++ rest) = some (Nat.toDigits 10 n, rest) := by
  have hdigits : ∀ c ∈ Nat.toDigits 10 n, c.isDigit = true :=
    fun c hc => Nat.isDigit_of_mem_toDigits (by decide) (by decide) hc
  rw [digits1?, takeWhile_stretch hdigits hrest, dropWhile_stretch hdigits hrest]
  split
  · next hnil => exact absurd hnil Nat.toDigits_ne_nil
  · rfl

theorem wholePart?_toDigits (hrest : ∀ c ∈ rest.head?, c.isDigit = false) (n : Nat) :
    wholePart? (Nat.toDigits 10 n ++ rest) = some (Nat.toDigits 10 n, rest) := by
  rw [wholePart?, digits1?_toDigits hrest]
  split
  · next hzero =>
    rcases Nat.eq_zero_or_pos n with rfl | hn
    · simp at hzero
    · have hhead := toDigits_head hn
      simp_all
  · rfl

theorem fraction?_ends (h : ∀ c ∈ rest.head?, c ≠ '.') : fraction? rest = some ([], rest) := by
  unfold fraction?
  split
  · simp at h
  · rfl

theorem exponent?_ends (h : ∀ c ∈ rest.head?, c ≠ 'e' ∧ c ≠ 'E') : exponent? rest = some (none, rest) := by
  cases rest with
  | nil => rfl
  | cons c rest => simp_all [exponent?]

/-- The text of an integer: its digits, after a sign if it is negative. -/
theorem toString_toList (z : Int) :
    (toString z).toList = (if z < 0 then ['-'] else []) ++ Nat.toDigits 10 z.natAbs := by
  rw [Int.toString_eq_repr, Int.repr_eq_if]
  by_cases h : 0 ≤ z
  · rw [if_pos h, if_neg (by omega), Nat.toList_repr, List.nil_append]
    congr 1
    omega
  · rw [if_neg h, if_pos (by omega), String.toList_append, Nat.toList_repr]
    congr 1
    congr 1
    omega

/-- The first digit of a number is no sign. -/
theorem toDigits_cons (n : Nat) : ∃ d ds, Nat.toDigits 10 n = d :: ds ∧ d.isDigit = true := by
  cases hds : Nat.toDigits 10 n with
  | nil => exact absurd hds Nat.toDigits_ne_nil
  | cons d ds => exact ⟨d, ds, rfl, Nat.isDigit_of_mem_toDigits (b := 10) (n := n) (by decide) (by decide) (by simp [hds])⟩

theorem exponent?_toString (hrest : ∀ c ∈ rest.head?, c.isDigit = false) (e : Int) :
    exponent? ('e' :: ((toString e).toList ++ rest)) = some (some e, rest) := by
  have hread := digits1?_toDigits hrest e.natAbs
  rw [toString_toList]
  by_cases h : e < 0
  · have habs : -(e.natAbs : Int) = e := by omega
    rw [if_pos h, List.singleton_append, List.cons_append]
    simp only [exponent?, true_or, if_true]
    rw [hread, Option.map_some, digitsValue_toDigits, habs]
  · have habs : (e.natAbs : Int) = e := by omega
    obtain ⟨d, ds, hds, hd⟩ := toDigits_cons e.natAbs
    rw [if_neg h, List.nil_append]
    simp only [exponent?, true_or, if_true]
    split
    · next heq =>
      rw [hds] at heq
      cases heq
      cases hd
    · next heq =>
      rw [hds] at heq
      cases heq
      cases hd
    · rw [hread, Option.map_some, digitsValue_toDigits, habs]

section

variable {fraction more rest' : List Char} {exponent : Option Int}

theorem number?_minus (cs : List Char) : number? ('-' :: cs) = (do
    let (whole, cs) ← wholePart? cs
    let (fraction, cs) ← fraction? cs
    let (exponent, cs) ← exponent? cs
    return (makeNumber true whole fraction exponent, cs)) :=
  rfl

theorem number?_unsigned {c : Char} (hc : c ≠ '-') (cs : List Char) : number? (c :: cs) = (do
    let (whole, cs) ← wholePart? (c :: cs)
    let (fraction, cs) ← fraction? cs
    let (exponent, cs) ← exponent? cs
    return (makeNumber false whole fraction exponent, cs)) := by
  unfold number?
  split
  next heq =>
    split at heq
    · next h => exact absurd (List.cons.inj h).1 hc
    · cases heq
      rfl

/-- A number is taken apart into its sign, the digits of its integer part, and what follows them. -/
theorem number?_toDigits (hrest : ∀ c ∈ rest.head?, c.isDigit = false)
    (hfraction : fraction? rest = some (fraction, more)) (hexponent : exponent? more = some (exponent, rest'))
    (n : Nat) :
    number? ('-' :: (Nat.toDigits 10 n ++ rest)) =
        some (makeNumber true (Nat.toDigits 10 n) fraction exponent, rest') ∧
      number? (Nat.toDigits 10 n ++ rest) =
        some (makeNumber false (Nat.toDigits 10 n) fraction exponent, rest') := by
  have hread := wholePart?_toDigits hrest n
  constructor
  · simp [number?_minus, hread, hfraction, hexponent]
  · obtain ⟨d, ds, hds, hd⟩ := toDigits_cons n
    have hsign : d ≠ '-' := by
      rintro rfl
      exact absurd hd (by decide)
    rw [hds, List.cons_append] at hread ⊢
    simp [number?_unsigned hsign, hread, hfraction, hexponent]

theorem number?_toString {z : Int} (hrest : ∀ c ∈ rest.head?, c.isDigit = false)
    (hfraction : fraction? rest = some (fraction, more)) (hexponent : exponent? more = some (exponent, rest')) :
    number? ((toString z).toList ++ rest) =
      some (makeNumber (decide (z < 0)) (Nat.toDigits 10 z.natAbs) fraction exponent, rest') := by
  obtain ⟨hminus, hplain⟩ := number?_toDigits hrest hfraction hexponent z.natAbs
  rw [toString_toList]
  by_cases h : z < 0
  · rw [if_pos h, decide_eq_true h]
    exact hminus
  · rw [if_neg h, decide_eq_false h]
    exact hplain

end

theorem numberText_decimal (m e : Int) :
    (numberText (.decimal m e)).toList = (toString m).toList ++ 'e' :: (toString e).toList := by
  have hmark : (toString "e").toList = ['e'] := rfl
  simp [numberText, hmark]

/-- A number is read back before anything that does not continue it. -/
theorem number?_numberText {n : JsonNumber} (hn : n.inRange = true) (hrest : EndsNumber rest) :
    number? ((numberText n).toList ++ rest) = some (n, rest) := by
  cases n with
  | int z =>
    rw [numberText, number?_toString (fun c hc => (hrest c hc).1)
      (fraction?_ends fun c hc => (hrest c hc).2.1) (exponent?_ends fun c hc => (hrest c hc).2.2)]
    generalize habs : z.natAbs = n
    have hmagnitude : (if z < 0 then -(n : Int) else n) = z := by split <;> omega
    simp only [JsonNumber.inRange, Bool.and_eq_true, decide_eq_true_eq] at hn
    simp [makeNumber, digitsValue_toDigits, hmagnitude]
    omega
  | decimal m e =>
    rw [numberText_decimal, List.append_assoc, List.cons_append, number?_toString (by simp) (fraction?_ends (by simp))
      (exponent?_toString (fun c hc => (hrest c hc).1) e)]
    generalize habs : m.natAbs = n
    have hmagnitude : (if m < 0 then -(n : Int) else n) = m := by split <;> omega
    simp [makeNumber, digitsValue_toDigits, hmagnitude]

/-! ## Values -/

mutual

/-- Whether every number of the value is read as it was written. -/
def inRange : Json → Bool
  | .num n => n.inRange
  | .arr items => itemsInRange items
  | .obj members => membersInRange members
  | _ => true

/-- Whether every number of the items is read as it was written. -/
def itemsInRange : List Json → Bool
  | [] => true
  | item :: items => item.inRange && itemsInRange items

/-- Whether every number of the members is read as it was written. -/
def membersInRange : List (String × Json) → Bool
  | [] => true
  | (_, value) :: members => value.inRange && membersInRange members

end

theorem skipSpace_cons {c : Char} (h : c ∉ [' ', '\n', '\t', '\r']) (cs : List Char) :
    skipSpace (c :: cs) = c :: cs := by
  simp_all [skipSpace]

theorem endsNumber_cons {c : Char} (h : c ∈ [',', ']', '\x7d']) (cs : List Char) : EndsNumber (c :: cs) := by
  have hall : ∀ c ∈ [',', ']', '\x7d'], c.isDigit = false ∧ c ≠ '.' ∧ c ≠ 'e' ∧ c ≠ 'E' := by simp
  intro d hd
  obtain rfl : c = d := by simpa using hd
  exact hall c h

theorem quoted_append (s : String) (rest : List Char) :
    (quoted s).toList ++ rest = '"' :: (s.toList.flatMap escapeChar ++ '"' :: rest) := by
  simp [quoted]

/-! ### How printed values start -/

/-- A printed number starts with a sign or a digit, so with no white space and no mark of another value. -/
theorem numberText_cons (n : JsonNumber) : ∃ c cs, (numberText n).toList = c :: cs ∧
    c ∉ [' ', '\n', '\t', '\r'] ∧ c ∉ [']', 'n', 't', 'f', '"', '[', '\x7b'] := by
  have hdigit : ∀ c ∈ [' ', '\n', '\t', '\r'] ++ [']', 'n', 't', 'f', '"', '[', '\x7b'], c.isDigit = false := by
    simp
  have hint : ∀ (z : Int) (tail : List Char), ∃ c cs, (toString z).toList ++ tail = c :: cs ∧
      c ∉ [' ', '\n', '\t', '\r'] ∧ c ∉ [']', 'n', 't', 'f', '"', '[', '\x7b'] := by
    intro z tail
    obtain ⟨d, ds, hds, hd⟩ := toDigits_cons z.natAbs
    rw [toString_toList]
    by_cases h : z < 0
    · exact ⟨'-', _, by rw [if_pos h]; rfl, by decide, by decide⟩
    · refine ⟨d, ds ++ tail, by rw [if_neg h, hds]; rfl, fun hmem => ?_, fun hmem => ?_⟩
      · exact Bool.noConfusion (hd.symm.trans (hdigit d (List.mem_append_left _ hmem)))
      · exact Bool.noConfusion (hd.symm.trans (hdigit d (List.mem_append_right _ hmem)))
  cases n with
  | int z => simpa [numberText] using hint z []
  | decimal m e =>
    rw [numberText_decimal]
    exact hint m _

/-- A printed value starts neither with white space nor with a closing bracket. -/
theorem compact_cons (j : Json) :
    ∃ c cs, j.compact.toList = c :: cs ∧ c ∉ [' ', '\n', '\t', '\r'] ∧ c ≠ ']' := by
  cases j with
  | null => exact ⟨'n', _, rfl, by decide, by decide⟩
  | bool b =>
    cases b with
    | false => exact ⟨'f', _, rfl, by decide, by decide⟩
    | true => exact ⟨'t', _, rfl, by decide, by decide⟩
  | num n =>
    obtain ⟨c, cs, hcs, hspace, hmark⟩ := numberText_cons n
    exact ⟨c, cs, by rw [compact, hcs], hspace, fun hc => hmark (by simp [hc])⟩
  | str s => exact ⟨'"', _, by simpa [compact] using quoted_append s [], by decide, by decide⟩
  | arr items => exact ⟨'[', _, by simp [compact]; rfl, by decide, by decide⟩
  | obj members => exact ⟨'\x7b', _, by simp [compact]; rfl, by decide, by decide⟩

/-! ### One step -/

theorem valueWithin_num {n : JsonNumber} (hn : n.inRange = true) (hrest : EndsNumber rest) (steps : Nat) :
    valueWithin (steps + 1) ((numberText n).toList ++ rest) = some (.num n, rest) := by
  have hread := number?_numberText hn hrest
  obtain ⟨c, cs, hcs, hspace, hc⟩ := numberText_cons n
  rw [hcs, List.cons_append] at hread ⊢
  have hmark : ∀ {m : Char} {u v : List Char},
      m ∈ [']', 'n', 't', 'f', '"', '[', '\x7b'] → c :: u = m :: v → False := by
    rintro m u v hm heq
    exact hc ((List.cons.inj heq).1 ▸ hm)
  unfold valueWithin
  rw [skipSpace_cons hspace]
  split
  · next heq => exact (hmark (by decide) heq).elim
  · next heq => exact (hmark (by decide) heq).elim
  · next heq => exact (hmark (by decide) heq).elim
  · next heq => exact (hmark (by decide) heq).elim
  · next heq => exact (hmark (by decide) heq).elim
  · next heq => exact (hmark (by decide) heq).elim
  · rw [hread]
    rfl

theorem valueWithin_str (s : String) (steps : Nat) (rest : List Char) :
    valueWithin (steps + 1) ((quoted s).toList ++ rest) = some (.str s, rest) := by
  rw [quoted_append]
  unfold valueWithin
  rw [skipSpace_cons (by decide)]
  simp [stringTail_escaped]

theorem valueWithin_arr {steps : Nat} {c : Char} {cs : List Char} (hspace : c ∉ [' ', '\n', '\t', '\r'])
    (hclose : c ≠ ']') : valueWithin (steps + 1) ('[' :: c :: cs) =
      (itemsWithin steps (c :: cs)).map fun (items, rest) => (.arr items, rest) := by
  simp [valueWithin, skipSpace_cons hspace, skipSpace_cons (c := '[') (by decide), hclose]

theorem valueWithin_obj (steps : Nat) (cs : List Char) : valueWithin (steps + 1) ('\x7b' :: '"' :: cs) =
      (membersWithin steps ('"' :: cs)).map fun (members, rest) => (.obj members, rest) := by
  simp [valueWithin, skipSpace_cons (c := '\x7b') (by decide), skipSpace_cons (c := '"') (by decide)]

section

variable {steps : Nat} {cs more : List Char} {value : Json} {items : List Json} {members : List (String × Json)}

theorem itemsWithin_last (h : valueWithin steps cs = some (value, ']' :: rest)) :
    itemsWithin (steps + 1) cs = some ([value], rest) := by
  simp [itemsWithin, h, skipSpace_cons (c := ']') (by decide)]

theorem itemsWithin_more (h : valueWithin steps cs = some (value, ',' :: more))
    (hmore : itemsWithin steps more = some (items, rest)) :
    itemsWithin (steps + 1) cs = some (value :: items, rest) := by
  simp [itemsWithin, h, hmore, skipSpace_cons (c := ',') (by decide)]

theorem membersWithin_last (name : String) (h : valueWithin steps cs = some (value, '\x7d' :: rest)) :
    membersWithin (steps + 1) ('"' :: (name.toList.flatMap escapeChar ++ '"' :: ':' :: cs)) =
      some ([(name, value)], rest) := by
  simp [membersWithin, h, stringTail_escaped, skipSpace_cons (c := '"') (by decide),
    skipSpace_cons (c := ':') (by decide), skipSpace_cons (c := '\x7d') (by decide)]

theorem membersWithin_more (name : String) (h : valueWithin steps cs = some (value, ',' :: more))
    (hmore : membersWithin steps more = some (members, rest)) :
    membersWithin (steps + 1) ('"' :: (name.toList.flatMap escapeChar ++ '"' :: ':' :: cs)) =
      some ((name, value) :: members, rest) := by
  simp [membersWithin, h, hmore, stringTail_escaped, skipSpace_cons (c := '"') (by decide),
    skipSpace_cons (c := ':') (by decide), skipSpace_cons (c := ',') (by decide)]

end

/-! ### Induction over values -/

/-- The text of items: that of the first one, and after a comma those that follow it. -/
theorem itemsText_cons (item : Json) (items : List Json) (close : List Char) :
    (",".intercalate (compactItems (item :: items))).toList ++ close = item.compact.toList ++
      match items with
      | [] => close
      | _ => ',' :: ((",".intercalate (compactItems items)).toList ++ close) := by
  cases items with
  | nil => simp [compactItems]
  | cons item' items => simp [compactItems]

theorem membersText_cons (name : String) (value : Json) (members : List (String × Json)) (close : List Char) :
    (",".intercalate (compactMembers ((name, value) :: members))).toList ++ close =
      '"' :: (name.toList.flatMap escapeChar ++ '"' :: ':' :: (value.compact.toList ++
        match members with
        | [] => close
        | _ => ',' :: ((",".intercalate (compactMembers members)).toList ++ close))) := by
  cases members with
  | nil => simp [compactMembers, quoted]
  | cons member members => simp [compactMembers, quoted]

mutual

/-- A printed value is read back before anything that does not continue a number. Each step passes at least
one character, so the length of the text bounds the number of steps. -/
theorem valueWithin_compact (j : Json) (hj : j.inRange = true) {steps : Nat} {rest : List Char}
    (hsteps : j.compact.toList.length ≤ steps) (hrest : EndsNumber rest) :
    valueWithin steps (j.compact.toList ++ rest) = some (j, rest) := by
  obtain ⟨steps, rfl⟩ : ∃ k, steps = k + 1 := by
    obtain ⟨c, cs, hcs, -⟩ := compact_cons j
    rw [hcs, List.length_cons] at hsteps
    exact ⟨steps - 1, by omega⟩
  cases j with
  | null => simp [compact, valueWithin, skipSpace]
  | bool b => cases b <;> simp [compact, valueWithin, skipSpace]
  | num n =>
    rw [compact]
    exact valueWithin_num (by simpa [inRange] using hj) hrest steps
  | str s =>
    rw [compact]
    exact valueWithin_str s steps rest
  | arr items =>
    have hitems : itemsInRange items = true := by simpa [inRange] using hj
    have htext : (compact (.arr items)).toList ++ rest =
        '[' :: ((",".intercalate (compactItems items)).toList ++ ']' :: rest) := by simp [compact]
    have hlength : (",".intercalate (compactItems items)).toList.length < steps := by
      simp [compact] at hsteps ⊢
      omega
    rw [htext]
    cases items with
    | nil => simp [compactItems, valueWithin, skipSpace]
    | cons item items =>
      have hread := itemsWithin_compact (item :: items) (by simp) hitems hlength rest
      obtain ⟨c, cs, hcs, hspace, hclose⟩ := compact_cons item
      rw [itemsText_cons, hcs, List.cons_append] at hread ⊢
      rw [valueWithin_arr hspace hclose, hread]
      rfl
  | obj members =>
    have hmembers : membersInRange members = true := by simpa [inRange] using hj
    have htext : (compact (.obj members)).toList ++ rest =
        '\x7b' :: ((",".intercalate (compactMembers members)).toList ++ '\x7d' :: rest) := by simp [compact]
    have hlength : (",".intercalate (compactMembers members)).toList.length < steps := by
      simp [compact] at hsteps ⊢
      omega
    rw [htext]
    cases members with
    | nil => simp [compactMembers, valueWithin, skipSpace]
    | cons member members =>
      have hread := membersWithin_compact (member :: members) (by simp) hmembers hlength rest
      rw [membersText_cons] at hread ⊢
      rw [valueWithin_obj, hread]
      rfl

theorem itemsWithin_compact (items : List Json) (hne : items ≠ []) (hitems : itemsInRange items = true)
    {steps : Nat} (hsteps : (",".intercalate (compactItems items)).toList.length < steps) (rest : List Char) :
    itemsWithin steps ((",".intercalate (compactItems items)).toList ++ ']' :: rest) = some (items, rest) := by
  cases items with
  | nil => exact absurd rfl hne
  | cons item items =>
    obtain ⟨steps, rfl⟩ : ∃ k, steps = k + 1 := ⟨steps - 1, by omega⟩
    obtain ⟨hitem, hitems⟩ : item.inRange = true ∧ itemsInRange items = true := by
      simpa [itemsInRange] using hitems
    have hlength := congrArg List.length (itemsText_cons item items [])
    rw [itemsText_cons]
    cases items with
    | nil =>
      simp only [List.append_nil] at hlength
      exact itemsWithin_last (valueWithin_compact item hitem (by omega) (endsNumber_cons (by decide) rest))
    | cons item' items =>
      obtain ⟨c, cs, hcs, -⟩ := compact_cons item
      have hsome : 0 < item.compact.toList.length := by simp [hcs]
      simp only [List.append_nil, List.length_append, List.length_cons] at hlength
      exact itemsWithin_more (valueWithin_compact item hitem (by omega) (endsNumber_cons (by decide) _))
        (itemsWithin_compact (item' :: items) (by simp) hitems (by omega) rest)

theorem membersWithin_compact (members : List (String × Json)) (hne : members ≠ [])
    (hmembers : membersInRange members = true) {steps : Nat}
    (hsteps : (",".intercalate (compactMembers members)).toList.length < steps) (rest : List Char) :
    membersWithin steps ((",".intercalate (compactMembers members)).toList ++ '\x7d' :: rest) =
      some (members, rest) := by
  cases members with
  | nil => exact absurd rfl hne
  | cons member members =>
    obtain ⟨name, value⟩ := member
    obtain ⟨steps, rfl⟩ : ∃ k, steps = k + 1 := ⟨steps - 1, by omega⟩
    obtain ⟨hvalue, hmembers⟩ : value.inRange = true ∧ membersInRange members = true := by
      simpa [membersInRange] using hmembers
    have hlength := congrArg List.length (membersText_cons name value members [])
    rw [membersText_cons]
    cases members with
    | nil =>
      simp only [List.append_nil, List.length_cons, List.length_append] at hlength
      exact membersWithin_last name
        (valueWithin_compact value hvalue (by omega) (endsNumber_cons (by decide) rest))
    | cons member' members =>
      simp only [List.append_nil, List.length_cons, List.length_append] at hlength
      exact membersWithin_more name
        (valueWithin_compact value hvalue (by omega) (endsNumber_cons (by decide) _))
        (membersWithin_compact (member' :: members) (by simp) hmembers (by omega) rest)

end

/-- A printed value is read back. -/
theorem parse?_compact (j : Json) (hj : j.inRange = true) : parse? j.compact.toList = some j := by
  have hread : valueWithin (j.compact.toList.length + 1) (j.compact.toList ++ []) = some (j, []) :=
    valueWithin_compact j hj (by omega) (by simp [EndsNumber])
  rw [List.append_nil] at hread
  simp [parse?, hread, skipSpace]

end Json

end ServiceLint
