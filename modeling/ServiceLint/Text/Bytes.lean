/-!
# Byte offsets in a text

A text is a list of characters; its byte offsets are those of its UTF-8 form. Every function here
walks the characters and counts their encoded sizes, so no encoding is built.
-/
namespace ServiceLint.Text

/-- Size of a text in bytes. -/
def size : List Char → Nat
  | [] => 0
  | c :: cs => c.utf8Size + size cs

@[simp]
theorem size_nil : size [] = 0 := rfl

@[simp]
theorem size_cons (c : Char) (cs : List Char) : size (c :: cs) = c.utf8Size + size cs := rfl

@[simp]
theorem size_append (a b : List Char) : size (a ++ b) = size a + size b := by
  induction a with
  | nil => simp
  | cons c cs ih => simp [ih, Nat.add_assoc]

/-- The characters from byte offset `n` on. An offset inside a character drops that character. -/
def dropBytes : Nat → List Char → List Char
  | _, [] => []
  | n, c :: cs => if n = 0 then c :: cs else dropBytes (n - c.utf8Size) cs

/-- The characters before byte offset `n`. An offset inside a character keeps that character. -/
def takeBytes : Nat → List Char → List Char
  | _, [] => []
  | n, c :: cs => if n = 0 then [] else c :: takeBytes (n - c.utf8Size) cs

/-- Cutting at any offset loses nothing. -/
theorem takeBytes_append_dropBytes (n : Nat) (cs : List Char) :
    takeBytes n cs ++ dropBytes n cs = cs := by
  fun_induction takeBytes n cs with
  | case1 => rfl
  | case2 => simp [dropBytes]
  | case3 n c cs h ih => simpa [dropBytes, h] using ih

/-- Whether `n` is the size of some initial part of the text. -/
def isBoundary : Nat → List Char → Bool
  | n, [] => n == 0
  | n, c :: cs => n == 0 || (c.utf8Size ≤ n && isBoundary (n - c.utf8Size) cs)

/-- The characters from byte offset `start` up to byte offset `stop`. -/
def slice (cs : List Char) (start stop : Nat) : List Char :=
  takeBytes (stop - start) (dropBytes start cs)

/-- The slice between two offsets, unless they are out of order, out of range or inside a character. -/
def slice? (cs : List Char) (start stop : Nat) : Option (List Char) :=
  if start ≤ stop ∧ isBoundary start cs = true ∧ isBoundary stop cs = true then some (slice cs start stop) else none

end ServiceLint.Text
