import ServiceLint.Text.Pieces

/-!
# Path patterns

In a pattern `?` stands for one character, `*` for any characters of a name, `[...]` and `[!...]` for one
character that is in a set or is not, and `**` as a whole component for directories of any depth.
Everything else stands for itself. The program runs with these patterns in place of the package's.
-/
namespace ServiceLint

/-- Why a text is no pattern. -/
inductive GlobIssue where
  | wildcards
  | recursion
  | range
deriving DecidableEq, Repr

/-- Where and why a text is no pattern; positions count characters. -/
structure GlobError where
  position : Nat
  issue : GlobIssue
deriving DecidableEq, Repr

def GlobIssue.message : GlobIssue → String
  | .wildcards => "wildcards are either regular \x60*\x60 or recursive \x60**\x60"
  | .recursion => "recursive wildcards must form a single path component"
  | .range => "invalid range pattern"

def GlobError.message (e : GlobError) : String :=
  s!"Pattern syntax error near position {e.position}: {e.issue.message}"

namespace Glob

/-- A part of a pattern. Sets are lists of ranges with both ends. -/
inductive Token where
  | char (c : Char)
  | anyChar
  | anyText
  | anyDepth
  | oneOf (isNegated : Bool) (ranges : List (Char × Char))
deriving DecidableEq, Repr

/-- The ranges that the characters between brackets stand for. -/
def ranges : List Char → List (Char × Char)
  | a :: '-' :: b :: cs => (a, b) :: ranges cs
  | a :: cs => (a, a) :: ranges cs
  | [] => []

/-- Reads a set after its opening bracket: the set, the number of characters that it takes and what
follows it. A closing bracket in first place belongs to the set. -/
def set? (cs : List Char) : Option (Token × Nat × List Char) :=
  let (isNegated, body) := match cs with
    | '!' :: rest => (true, rest)
    | cs => (false, cs)
  match body with
  | [] => none
  | c :: rest =>
    let inside := rest.takeWhile (· != ']')
    match rest.dropWhile (· != ']') with
    | [] => none
    | _ :: after => some (.oneOf isNegated (ranges (c :: inside)), cs.length - after.length, after)

theorem set?_length {cs : List Char} {t : Token} {n : Nat} {after : List Char}
    (h : set? cs = some (t, n, after)) : after.length < cs.length := by
  have drop (p : Char → Bool) (l : List Char) : (l.dropWhile p).length ≤ l.length :=
    (List.dropWhile_suffix p).length_le
  unfold set? at h
  split at h
  rename_i isNegated body hb
  split at h
  · simp at h
  · rename_i c rest
    have hd := drop (· != ']') rest
    split at h
    · simp at h
    · rename_i d rest' he
      simp only [Option.some.injEq, Prod.mk.injEq] at h
      rw [he] at hd
      simp only [List.length_cons] at hd
      obtain ⟨-, -, rfl⟩ := h
      split at hb <;> simp only [Prod.mk.injEq] at hb <;> obtain ⟨-, hb⟩ := hb
      · simp [hb]; omega
      · simp [hb]; omega

/-- Reads a pattern from `position` on, where `before` is the character before it. -/
def read (position : Nat) (before : Option Char) : List Char → Except GlobError (List Token)
  | [] => .ok []
  | '?' :: cs => do return .anyChar :: (← read (position + 1) (some '?') cs)
  | '*' :: '*' :: '*' :: _ => .error ⟨position + 2, .wildcards⟩
  | '*' :: '*' :: cs =>
    if before.all (· == '/') then
      match cs with
      | [] => .ok [.anyDepth]
      | '/' :: rest => do return .anyDepth :: (← read (position + 3) (some '/') rest)
      | _ => .error ⟨position + 2, .recursion⟩
    else .error ⟨position - 1, .recursion⟩
  | '*' :: cs => do return .anyText :: (← read (position + 1) (some '*') cs)
  | '[' :: cs =>
    match h : set? cs with
    | none => .error ⟨position, .range⟩
    | some (t, n, rest) =>
      have := set?_length h
      do return t :: (← read (position + 1 + n) (some ']') rest)
  | c :: cs => do return .char c :: (← read (position + 1) (some c) cs)
termination_by cs => cs.length

/-- Whether a name fits a pattern without `**`. -/
def fits : List Token → List Char → Bool
  | [], cs => cs.isEmpty
  | .anyText :: ts, cs =>
    fits ts cs || match cs with
      | [] => false
      | _ :: cs => fits (.anyText :: ts) cs
  | _ :: _, [] => false
  | .char d :: ts, c :: cs => c == d && fits ts cs
  | .anyChar :: ts, _ :: cs => fits ts cs
  | .oneOf isNegated ranges :: ts, c :: cs =>
    (ranges.any fun r => decide (r.1 ≤ c) && decide (c ≤ r.2)) != isNegated && fits ts cs
  | .anyDepth :: _, _ :: _ => false
termination_by ts cs => ts.length + cs.length

/-- The text that a pattern stands for, when it has characters only. -/
def literal? : List Token → Option (List Char)
  | [] => some []
  | .char c :: ts => (literal? ts).map (c :: ·)
  | _ :: _ => none

end Glob

end ServiceLint
