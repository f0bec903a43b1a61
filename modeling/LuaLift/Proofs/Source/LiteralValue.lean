import LuaLift.Number.Power
import LuaLift.Proofs.Expression.Reader
import LuaLift.Proofs.Source.Literal
import LuaLift.Proofs.Text.Neighbours

/-! What a literal stands for in the language. Behind a backslash up to three digits are read as the
number of a character, so the digits behind a zero of a string are read together with the digit that
stands for it. A literal is read to its closing quote in every case, and as the string it was made
from just where no digit stands behind a zero. -/
namespace LuaLift

open Text

private theorem Symbol.isDigit_eq_true {symbol : Symbol} :
    symbol.isDigit = true ↔ ∃ value, symbol = .char value ∧ value.isDigit = true := by
  cases symbol <;> simp [isDigit]

namespace Source

/-- The letters that stand for a character behind a backslash, each behind its character. -/
def letters : List (Char × Char) :=
  [(backslash, backslash), (doubleQuote, doubleQuote), ('\n', 'n'), ('\r', 'r'), ('\t', 't')]

/-- The digits that a text begins with, up to some number of them. -/
def leadingDigits : Nat → Text → List Char
  | count + 1, .char value :: rest =>
    if value.isDigit then value :: leadingDigits count rest else []
  | _, _ => []

/-- The character with a number, which is a single byte from 128 on. -/
def numbered? (number : Nat) : Option Symbol :=
  if number < 128 then some (.char (Char.ofNat number))
  else if number < 256 then some (.stray (UInt8.ofNat number))
  else none

/-- What a text behind a backslash stands for, and how many symbols say so. -/
def escape? (text : Text) : Option (Symbol × Nat) :=
  match leadingDigits 3 text with
  | [] => do
    let letter ← text.head?
    let entry ← letters.find? (letter = .char ·.2)
    pure (.char entry.1, 1)
  | digit :: rest => do
    let symbol ← numbered? (Nat.ofDigitChars 10 (digit :: rest) 0)
    pure (symbol, rest.length + 1)

/-- The string in the rest of a literal, behind some symbols that were read already, and the text
behind the closing quote. -/
def valueAfter? : Nat → Text → Option (Text × Text)
  | _, [] => none
  | taken + 1, _ :: rest => valueAfter? taken rest
  | 0, symbol :: rest =>
    if symbol = .char doubleQuote then some ([], rest)
    else if symbol = .char backslash then do
      let (value, taken) ← escape? rest
      let (text, after) ← valueAfter? taken rest
      pure (value :: text, after)
    else do
      let (text, after) ← valueAfter? 0 rest
      pure (symbol :: text, after)

/-- The string that the literal at the front of a text stands for, and the text behind it. -/
def value? : Text → Option (Text × Text)
  | [] => none
  | symbol :: rest => if symbol = .char doubleQuote then valueAfter? 0 rest else none

/-- A string behind some symbols, with every zero and up to two digits behind it made one
character. -/
def mergedAfter : Nat → Text → Text
  | _, [] => []
  | taken + 1, _ :: rest => mergedAfter taken rest
  | 0, symbol :: rest =>
    if symbol = .char '\x00' then
      let digits := leadingDigits 2 rest
      .char (Char.ofNat (Nat.ofDigitChars 10 digits 0)) :: mergedAfter digits.length rest
    else symbol :: mergedAfter 0 rest

def merged (text : Text) : Text := mergedAfter 0 text

/-- The digits that a text begins with are as many when no more of them are asked for. -/
theorem leadingDigits_length (count : Nat) (text : Text) :
    leadingDigits (leadingDigits count text).length text = leadingDigits count text := by
  induction count, text using leadingDigits.induct with
  | case1 count value rest digit ih =>
    rw [leadingDigits, if_pos digit, List.length_cons, leadingDigits, if_pos digit, ih]
  | case2 count value rest letter =>
    rw [leadingDigits, if_neg letter, List.length_nil, leadingDigits]
    simp
  | case3 count text other =>
    rw [leadingDigits.eq_2 count text other]
    exact leadingDigits.eq_2 _ _ (by simp)

private theorem leadingDigits_length_le (count : Nat) (text : Text) :
    (leadingDigits count text).length ≤ count := by
  induction count, text using leadingDigits.induct with
  | case1 count value rest digit ih =>
    rw [leadingDigits, if_pos digit, List.length_cons]
    omega
  | case2 count value rest letter =>
    rw [leadingDigits, if_neg letter]
    exact Nat.zero_le _
  | case3 count text other =>
    rw [leadingDigits.eq_2 count text other]
    exact Nat.zero_le _

/-- Digits stand for a number that has no more digits. -/
theorem ofDigitChars_lt {digits : List Char} (known : ∀ digit ∈ digits, digit.isDigit = true)
    (start : Nat) :
    Nat.ofDigitChars 10 digits start < (start + 1) * 10 ^ digits.length := by
  induction digits generalizing start with
  | nil => simp
  | cons digit rest ih =>
    obtain ⟨own, others⟩ := List.forall_mem_cons.mp known
    have small : digit.toNat - '0'.toNat ≤ 9 := by
      have bounds : digit.toNat ≤ 57 := by
        simp only [Char.isDigit, Bool.and_eq_true, decide_eq_true_eq] at own
        exact own.2
      have zero : '0'.toNat = 48 := rfl
      omega
    calc Nat.ofDigitChars 10 (digit :: rest) start
      _ = Nat.ofDigitChars 10 rest (10 * start + (digit.toNat - '0'.toNat)) :=
          Nat.ofDigitChars_cons
      _ < (10 * start + (digit.toNat - '0'.toNat) + 1) * 10 ^ rest.length := ih others _
      _ ≤ ((start + 1) * 10) * 10 ^ rest.length := Nat.mul_le_mul_right _ (by omega)
      _ = (start + 1) * 10 ^ (digit :: rest).length := by
          rw [List.length_cons, Nat.pow_succ', Nat.mul_assoc]

private theorem leadingDigits_of_not_digit {symbol : Symbol} (other : symbol.isDigit = false)
    (count : Nat) (rest : Text) : leadingDigits count (symbol :: rest) = [] := by
  cases count with
  | zero => rw [leadingDigits]; simp
  | succ count =>
    cases symbol with
    | stray byte => rw [leadingDigits]; simp
    | char value =>
      rw [leadingDigits, if_neg]
      exact Bool.eq_false_iff.mp other

private theorem mem_leadingDigits {count : Nat} {text : Text} :
    ∀ digit ∈ leadingDigits count text, digit.isDigit = true := by
  induction count, text using leadingDigits.induct with
  | case1 count value rest digit ih =>
    rw [leadingDigits, if_pos digit]
    exact List.forall_mem_cons.mpr ⟨digit, ih⟩
  | case2 count value rest letter =>
    rw [leadingDigits, if_neg letter]
    exact List.forall_mem_nil _
  | case3 count text other =>
    rw [leadingDigits.eq_2 count text other]
    exact List.forall_mem_nil _

/-- All escapes but that of a zero are letters. -/
theorem escapes_eq : escapes = letters ++ [('\x00', '0')] := rfl

private theorem escape_not_digit : ∀ escape ∈ escapes, (Symbol.char escape.1).isDigit = false := by
  decide

private theorem escaped_of_isDigit {symbol : Symbol} (digit : symbol.isDigit = true) :
    escaped symbol = [symbol] := by
  generalize same : escaped symbol = piece
  obtain written : Written symbol piece := same ▸ written_escaped symbol
  cases written with
  | letter stands => cases (escape_not_digit _ stands).symm.trans digit
  | itself plain => rfl

/-- What is written for a string begins with the digits of the string. -/
theorem leadingDigits_escaped (count : Nat) (text rest : Text) :
    leadingDigits count (text.flatMap escaped ++ .char doubleQuote :: rest) =
      leadingDigits count text := by
  induction text generalizing count with
  | nil =>
    have quote : (Symbol.char doubleQuote).isDigit = false := by decide
    rw [List.flatMap_nil, List.nil_append, leadingDigits_of_not_digit quote]
    cases count <;> rfl
  | cons symbol others ih =>
    rw [List.flatMap_cons, List.append_assoc]
    cases digit : symbol.isDigit with
    | true =>
      obtain ⟨value, rfl, known⟩ := Symbol.isDigit_eq_true.mp digit
      rw [escaped_of_isDigit digit, List.cons_append, List.nil_append]
      cases count with
      | zero => rfl
      | succ count => rw [leadingDigits, leadingDigits, if_pos known, if_pos known, ih]
    | false =>
      rw [leadingDigits_of_not_digit digit]
      generalize same : escaped symbol = piece
      obtain written : Written symbol piece := same ▸ written_escaped symbol
      cases written with
      | letter stands =>
        have slash : (Symbol.char backslash).isDigit = false := by decide
        rw [List.cons_append, leadingDigits_of_not_digit slash]
      | itself plain => rw [List.cons_append, leadingDigits_of_not_digit digit]

private theorem escape?_letter {value letter : Char} (stands : (value, letter) ∈ letters)
    (rest : Text) :
    escape? (.char letter :: rest) = some (.char value, 1) := by
  have known : ∀ entry ∈ letters, (Symbol.char entry.2).isDigit = false ∧
      letters.find? (Symbol.char entry.2 = .char ·.2) = some entry := by decide
  obtain ⟨other, found⟩ := known _ stands
  rw [escape?, leadingDigits_of_not_digit other]
  change (letters.find? (Symbol.char letter = .char ·.2) >>= _) = _
  rw [found]
  rfl

/-- Digits behind a zero belong to its number. -/
theorem escape?_zero (rest : Text) :
    let digits := leadingDigits 2 rest
    escape? (.char '0' :: rest) =
      some (.char (Char.ofNat (Nat.ofDigitChars 10 digits 0)), digits.length + 1) := by
  intro digits
  have all : leadingDigits 3 (.char '0' :: rest) = '0' :: digits := by
    rw [leadingDigits, if_pos (by decide)]
  have number : Nat.ofDigitChars 10 ('0' :: digits) 0 = Nat.ofDigitChars 10 digits 0 :=
    Nat.ofDigitChars_cons
  have small : Nat.ofDigitChars 10 digits 0 < 128 := by
    have few : digits.length ≤ 2 := leadingDigits_length_le 2 rest
    calc Nat.ofDigitChars 10 digits 0
      _ < (0 + 1) * 10 ^ digits.length := ofDigitChars_lt mem_leadingDigits 0
      _ ≤ (0 + 1) * 10 ^ 2 := Nat.mul_le_mul_left _ (Nat.pow_le_pow_right (by decide) few)
      _ < 128 := by decide
  rw [escape?, all]
  simp only [number, numbered?, if_pos small]
  rfl

/-- What is written for a string is read as the string with its zeros merged. -/
theorem valueAfter?_escaped {taken : Nat} {text : Text}
    (digits : (leadingDigits taken text).length = taken) (rest : Text) :
    valueAfter? taken (text.flatMap escaped ++ .char doubleQuote :: rest) =
      some (mergedAfter taken text, rest) := by
  induction text generalizing taken with
  | nil =>
    cases taken with
    | zero => rfl
    | succ taken => cases digits
  | cons symbol others ih =>
    rw [List.flatMap_cons, List.append_assoc]
    cases taken with
    | succ taken =>
      -- a digit that was read before
      cases digit : symbol.isDigit with
      | false =>
        rw [leadingDigits_of_not_digit digit] at digits
        cases digits
      | true =>
        obtain ⟨value, rfl, known⟩ := Symbol.isDigit_eq_true.mp digit
        rw [leadingDigits, if_pos known, List.length_cons] at digits
        rw [escaped_of_isDigit digit]
        exact ih (Nat.succ.inj digits)
    | zero =>
      generalize same : escaped symbol = piece
      obtain written : Written symbol piece := same ▸ written_escaped symbol
      cases written with
      | @letter value letter stands =>
        have other : Symbol.char backslash ≠ .char doubleQuote := by decide
        rw [List.cons_append, valueAfter?, if_neg other, if_pos rfl, List.cons_append,
          List.nil_append]
        rw [escapes_eq, List.mem_append] at stands
        rcases stands with named | zero
        · have nonzero : ∀ entry ∈ letters, Symbol.char entry.1 ≠ .char '\x00' := by decide
          rw [escape?_letter named, mergedAfter, if_neg (nonzero _ named)]
          change (valueAfter? 0 _ >>= _) = _
          rw [ih rfl]
          rfl
        · obtain ⟨rfl, rfl⟩ := Prod.mk.inj (List.mem_singleton.mp zero)
          rw [escape?_zero, leadingDigits_escaped, mergedAfter, if_pos rfl]
          change (valueAfter? (leadingDigits 2 others).length _ >>= _) = _
          rw [ih (congrArg List.length (leadingDigits_length 2 others))]
          rfl
      | itself plain =>
        have quote : symbol ≠ .char doubleQuote := plain (doubleQuote, doubleQuote) (by decide)
        have slash : symbol ≠ .char backslash := plain (backslash, backslash) (by decide)
        have nonzero : symbol ≠ .char '\x00' := plain ('\x00', '0') (by decide)
        rw [List.cons_append, List.nil_append, valueAfter?, if_neg quote, if_neg slash, ih rfl,
          mergedAfter, if_neg nonzero]
        rfl

private theorem length_mergedAfter (taken : Nat) (text : Text) :
    (mergedAfter taken text).length ≤ text.length - taken := by
  induction text generalizing taken with
  | nil =>
    rw [mergedAfter]
    exact Nat.zero_le _
  | cons symbol rest ih =>
    cases taken with
    | succ taken =>
      have below := ih taken
      rw [mergedAfter, List.length_cons]
      omega
    | zero =>
      rw [mergedAfter]
      split
      · have below := ih (leadingDigits 2 rest).length
        rw [List.length_cons, List.length_cons]
        omega
      · have below := ih 0
        rw [List.length_cons, List.length_cons]
        omega

/-- A string is kept just where no digit stands behind a zero. -/
theorem merged_eq_self_iff {text : Text} : merged text = text ↔
    List.IsChain (fun first second => first = .char '\x00' → second.isDigit = false) text := by
  induction text with
  | nil => exact iff_of_true rfl .nil
  | cons symbol rest ih =>
    rw [List.isChain_cons, ← ih, merged, mergedAfter]
    by_cases zero : symbol = .char '\x00'
    · subst symbol
      rw [if_pos rfl]
      cases rest with
      | nil => exact iff_of_true rfl ⟨nofun, rfl⟩
      | cons next others =>
        cases digit : next.isDigit with
        | true =>
          -- what is merged is shorter than the string
          refine iff_of_false (fun same => ?_) fun both => ?_
          · have taken : 0 < (leadingDigits 2 (next :: others)).length := by
              obtain ⟨value, rfl, known⟩ := Symbol.isDigit_eq_true.mp digit
              rw [leadingDigits, if_pos known]
              exact Nat.succ_pos _
            have below := length_mergedAfter (leadingDigits 2 (next :: others)).length
              (next :: others)
            have length := congrArg List.length same
            simp only [List.length_cons] at length below
            omega
          · cases digit.symm.trans (both.1 next rfl rfl)
        | false =>
          rw [leadingDigits_of_not_digit digit]
          change .char '\x00' :: merged (next :: others) = _ ↔ _
          rw [List.cons.injEq, and_iff_right rfl]
          refine (and_iff_right fun other here _ => ?_).symm
          obtain rfl := Option.some.inj here
          exact digit
    · rw [if_neg zero, List.cons.injEq, and_iff_right rfl, ← merged]
      exact (and_iff_right fun _ _ same => absurd same zero).symm

/-- What is written for a string is one literal, which stands for the string with its zeros merged,
and so for the string itself just where no digit stands behind a zero. -/
theorem value?_quoted (text rest : Text) :
    value? (quoted text ++ rest) = some (merged text, rest) ∧
      (merged text = text ↔
        ∀ digit, digit.isDigit = true → ¬ [.char '\x00', .char digit] <:+: text) := by
  constructor
  · rw [quoted, List.append_assoc, List.cons_append, value?, if_pos rfl]
    exact valueAfter?_escaped rfl rest
  · rw [merged_eq_self_iff, isChain_iff_neighbours]
    constructor
    · intro apart digit known beside
      cases known.symm.trans (apart _ _ beside rfl)
    · rintro none first second beside rfl
      cases digit : second.isDigit with
      | false => rfl
      | true =>
        obtain ⟨value, rfl, known⟩ := Symbol.isDigit_eq_true.mp digit
        exact absurd beside (none value known)

/-- A zero before a letter, and a digit that stands elsewhere. -/
theorem value?_quoted_of_letter :
    let text : Text := [.char '\x00', .char 'a', .char '1', .char backslash]
    (∀ digit : Char, digit.isDigit = true → ¬ [.char '\x00', .char digit] <:+: text) ∧
      value? (quoted text) = some (text, []) := by
  intro text
  obtain ⟨read, same⟩ := value?_quoted text []
  have kept : merged text = text := by decide
  rw [List.append_nil, kept] at read
  exact ⟨same.mp kept, read⟩

/-- A zero and the digit one are written as a backslash and two digits, which stand for the
character with the number one. -/
theorem value?_quoted_ne_of_digit :
    let text : Text := [.char '\x00', .char '1']
    quoted text = "\"\\01\"" ∧ value? (quoted text) = some ([.char '\x01'], []) ∧
      ¬ value? (quoted text) = some (text, []) := by
  intro text
  exact ⟨by decide, by decide, by decide⟩

end Source

end LuaLift
