import ServiceLint.Command.Report
import ServiceLint.Proofs.Text.Replace

/-!
# Messages in workflow commands

A message stands at the end of a workflow command, which is one line, so percent signs and line breaks are
written as codes. Percent signs are replaced first: later replacements write percent signs but find none of the
characters that earlier ones have written. So replacing three times is the same as writing one code for each
character (`escapeMessage_eq_flatMap`), and one pass over the codes gives the message back
(`escapeMessage_reversible`).
-/
namespace ServiceLint

namespace Command

/-- How a character of a message is written in a command. -/
def messageCode (c : Char) : List Char :=
  if c = '%' then ['%', '2', '5']
  else if c = '\r' then ['%', '0', 'D']
  else if c = '\n' then ['%', '0', 'A']
  else [c]

/-- Reads a message from a command: each code is replaced by its character, in one pass from left to right. -/
def unescapeMessage : List Char → List Char
  | '%' :: '2' :: '5' :: cs => '%' :: unescapeMessage cs
  | '%' :: '0' :: 'D' :: cs => '\r' :: unescapeMessage cs
  | '%' :: '0' :: 'A' :: cs => '\n' :: unescapeMessage cs
  | c :: cs => c :: unescapeMessage cs
  | [] => []

/-- The three replacements write each character as its code. -/
theorem escapeMessage_eq_flatMap (message : List Char) : escapeMessage message = message.flatMap messageCode := by
  simp only [escapeMessage, Text.replace_char, List.flatMap_assoc]
  refine List.flatMap_congr fun c _ => ?_
  by_cases hpercent : c = '%'
  · subst hpercent
    rfl
  · by_cases hreturn : c = '\r'
    · subst hreturn
      rfl
    · simp [messageCode, hpercent, hreturn]

theorem lineBreak_notMem_messageCode (c : Char) : '\r' ∉ messageCode c ∧ '\n' ∉ messageCode c := by
  unfold messageCode
  split_ifs with _ hreturn hfeed
  · decide
  · decide
  · decide
  · simp [Ne.symm hreturn, Ne.symm hfeed]

/-- A code is read as its character, whatever follows. -/
theorem unescapeMessage_messageCode (c : Char) (rest : List Char) :
    unescapeMessage (messageCode c ++ rest) = c :: unescapeMessage rest := by
  unfold messageCode
  split_ifs with hpercent hreturn hfeed
  · subst hpercent
    rfl
  · subst hreturn
    rfl
  · subst hfeed
    rfl
  · -- no code starts with another character than the percent sign
    simp [unescapeMessage, hpercent]

theorem unescapeMessage_escapeMessage (message : List Char) : unescapeMessage (escapeMessage message) = message := by
  rw [escapeMessage_eq_flatMap]
  induction message with
  | nil => rfl
  | cons c cs ih => rw [List.flatMap_cons, unescapeMessage_messageCode, ih]

theorem lineBreak_notMem_escapeMessage (message : List Char) :
    '\r' ∉ escapeMessage message ∧ '\n' ∉ escapeMessage message := by
  simp only [escapeMessage_eq_flatMap, List.mem_flatMap, not_exists, not_and]
  exact ⟨fun c _ => (lineBreak_notMem_messageCode c).1, fun c _ => (lineBreak_notMem_messageCode c).2⟩

theorem escapeMessage_injective : Function.Injective escapeMessage :=
  Function.LeftInverse.injective unescapeMessage_escapeMessage

/-- A line that ends with a message tells the message. -/
theorem messageLine_inj {front message message' : String} :
    front ++ String.ofList (escapeMessage message.toList) ++ "\n" =
        front ++ String.ofList (escapeMessage message'.toList) ++ "\n" ↔ message = message' := by
  constructor
  · intro h
    have hchars := congrArg String.toList h
    simp only [String.toList_append, String.toList_ofList, List.append_cancel_right_eq,
      List.append_cancel_left_eq] at hchars
    exact String.toList_inj.1 (escapeMessage_injective hchars)
  · rintro rfl
    rfl

/-- A message is written without line breaks and can be read back from what is written, so different messages are
written differently; and commands that differ in their messages are different lines. -/
theorem escapeMessage_reversible :
    (∀ message, '\r' ∉ escapeMessage message ∧ '\n' ∉ escapeMessage message ∧
      unescapeMessage (escapeMessage message) = message) ∧
    Function.Injective escapeMessage ∧
    (∀ path d message, diagnosticCommand path d = diagnosticCommand path { d with message } ↔ d.message = message) ∧
    (∀ path position e e', parseErrorCommand path ⟨position, e⟩ = parseErrorCommand path ⟨position, e'⟩ ↔
      e.message = e'.message) := by
  refine ⟨fun message => ?_, escapeMessage_injective, fun path d message => messageLine_inj,
    fun path position e e' => messageLine_inj⟩
  obtain ⟨hreturn, hfeed⟩ := lineBreak_notMem_escapeMessage message
  exact ⟨hreturn, hfeed, unescapeMessage_escapeMessage message⟩

/-- A message that has a code in it already comes back as it is. -/
example : escapeMessage "100%25\r\n".toList = "100%2525%0D%0A".toList ∧
    unescapeMessage "100%2525%0D%0A".toList = "100%25\r\n".toList := by decide +kernel

end Command

end ServiceLint
