import LuaLift.Proofs.Number.Digits
import LuaLift.Number.Double
import LuaLift.Number.Notation

/-! Numerals of the text of numbers: digits, perhaps a point with digits behind it, perhaps an
exponent. They are read back from their text, so a text stands for at most one number. What decimal
digits are written as is read as the number that they stand for. -/
namespace LuaLift

/-- A sign, the digits on both sides of the point, and the digits of an exponent with its sign. -/
structure Numeral where
  negative : Bool
  whole : List Char
  part : List Char
  mark : Option (Bool × List Char)
deriving DecidableEq, Repr

namespace Numeral

/-- The sign of an exponent and its digits, at the end of a numeral. -/
def readMark? : List Char → Option (Option (Bool × List Char))
  | [] => some none
  | 'e' :: sign :: digits =>
    if (sign = '+' ∨ sign = '-') ∧ digits ≠ [] ∧ digits.all Char.isDigit then
      some (some (sign = '-', digits))
    else none
  | _ => none

/-- The digits behind a point, of which there is at least one, and what stands behind them. -/
def readPart? : List Char → Option (List Char × List Char)
  | '.' :: rest =>
    if rest.takeWhile Char.isDigit = [] then none
    else some (rest.takeWhile Char.isDigit, rest.dropWhile Char.isDigit)
  | rest => some ([], rest)

def readUnsigned? (negative : Bool) (chars : List Char) : Option Numeral :=
  if chars.takeWhile Char.isDigit = [] then none
  else do
    let found ← readPart? (chars.dropWhile Char.isDigit)
    let mark ← readMark? found.2
    pure ⟨negative, chars.takeWhile Char.isDigit, found.1, mark⟩

/-- The numeral that a whole text is. -/
def read? (text : Text) : Option Numeral := do
  match ← text.mapM Symbol.char? with
  | '-' :: rest => readUnsigned? true rest
  | chars => readUnsigned? false chars

/-- The number that the exponent stands for; without one it is zero. -/
def exponent (numeral : Numeral) : Int :=
  match numeral.mark with
  | none => 0
  | some (below, digits) =>
    if below then -(Nat.ofDigitChars 10 digits 0) else Nat.ofDigitChars 10 digits 0

def size (numeral : Numeral) : Rat :=
  Nat.ofDigitChars 10 (numeral.whole ++ numeral.part) 0 *
    10 ^ (numeral.exponent - numeral.part.length)

/-- The number that a numeral stands for. -/
def value (numeral : Numeral) : Rat := if numeral.negative then -numeral.size else numeral.size

theorem abs_value (numeral : Numeral) : |numeral.value| = numeral.size := by
  have least : 0 ≤ numeral.size := mul_nonneg (Nat.cast_nonneg _) (tenPow_pos _).le
  rw [value]
  split
  · rw [abs_neg, abs_of_nonneg least]
  · exact abs_of_nonneg least

def partChars (numeral : Numeral) : List Char :=
  if numeral.part = [] then [] else '.' :: numeral.part

def markChars (numeral : Numeral) : List Char :=
  match numeral.mark with
  | none => []
  | some (below, digits) => 'e' :: (if below then '-' else '+') :: digits

def chars (numeral : Numeral) : List Char :=
  numeral.whole ++ (numeral.partChars ++ numeral.markChars)

/-- The text of a numeral. -/
def text (numeral : Numeral) : Text :=
  Text.ofChars (if numeral.negative then '-' :: numeral.chars else numeral.chars)

/-- There are digits wherever some must stand, and nothing else. -/
structure Valid (numeral : Numeral) : Prop where
  whole_ne_nil : numeral.whole ≠ []
  whole : ∀ digit ∈ numeral.whole, digit.isDigit = true
  part : ∀ digit ∈ numeral.part, digit.isDigit = true
  mark : ∀ mark ∈ numeral.mark, mark.2 ≠ [] ∧ ∀ digit ∈ mark.2, digit.isDigit = true

section Digits

variable {digits rest : List Char} (known : ∀ digit ∈ digits, digit.isDigit = true)
  (other : ∀ mark ∈ rest.head?, mark.isDigit = false)

include known other

private theorem takeWhile_digits : (digits ++ rest).takeWhile Char.isDigit = digits := by
  rw [List.takeWhile_append_of_pos known]
  cases rest with
  | nil => simp
  | cons first more =>
    have letter := other first rfl
    rw [List.takeWhile_cons_of_neg (by rw [letter]; decide), List.append_nil]

private theorem dropWhile_digits : (digits ++ rest).dropWhile Char.isDigit = rest := by
  rw [List.dropWhile_append_of_pos known]
  cases rest with
  | nil => rfl
  | cons first more =>
    have letter := other first rfl
    rw [List.dropWhile_cons_of_neg (by rw [letter]; decide)]

end Digits

variable {numeral : Numeral}

private theorem readMark?_markChars (valid : numeral.Valid) :
    readMark? numeral.markChars = some numeral.mark := by
  unfold markChars
  cases marked : numeral.mark with
  | none => rfl
  | some mark =>
    obtain ⟨below, digits⟩ := mark
    obtain ⟨present, known⟩ := valid.mark _ marked
    have filled : digits ≠ [] := present
    have all : digits.all Char.isDigit = true := List.all_eq_true.mpr known
    cases below <;> simp [readMark?, all, filled]

private theorem not_isDigit_markChars : ∀ mark ∈ numeral.markChars.head?, mark.isDigit = false := by
  unfold markChars
  split
  · exact nofun
  · intro mark member
    obtain rfl := Option.some.inj member
    rfl

private theorem not_isDigit_partChars :
    ∀ mark ∈ (numeral.partChars ++ numeral.markChars).head?, mark.isDigit = false := by
  unfold partChars
  split
  · exact not_isDigit_markChars
  · intro mark member
    obtain rfl := Option.some.inj member
    rfl

private theorem readPart?_partChars (valid : numeral.Valid) :
    readPart? (numeral.partChars ++ numeral.markChars) = some (numeral.part, numeral.markChars) := by
  unfold partChars
  split
  · rename_i empty
    rw [empty, List.nil_append, markChars]
    split <;> rfl
  · rename_i present
    rw [List.cons_append, readPart?, takeWhile_digits valid.part not_isDigit_markChars,
      dropWhile_digits valid.part not_isDigit_markChars, if_neg present]

private theorem readUnsigned?_chars (valid : numeral.Valid) :
    readUnsigned? numeral.negative numeral.chars = some numeral := by
  rw [readUnsigned?, chars, takeWhile_digits valid.whole not_isDigit_partChars,
    dropWhile_digits valid.whole not_isDigit_partChars, if_neg valid.whole_ne_nil,
    readPart?_partChars valid, Option.bind_eq_bind, Option.bind_some]
  dsimp only
  rw [readMark?_markChars valid]
  rfl

private theorem mapM_ofChars (chars : List Char) :
    (Text.ofChars chars).mapM Symbol.char? = some chars := by
  induction chars with
  | nil => rfl
  | cons first rest ih =>
    have same : Text.ofChars (first :: rest) = .char first :: Text.ofChars rest := rfl
    rw [same, List.mapM_cons, ih]
    rfl

/-- A numeral is read back from its text. -/
theorem read?_text (valid : numeral.Valid) : read? numeral.text = some numeral := by
  have whole := readUnsigned?_chars valid
  rw [read?, text, mapM_ofChars, Option.bind_eq_bind, Option.bind_some]
  cases sign : numeral.negative with
  | true =>
    rw [sign] at whole
    exact whole
  | false =>
    rw [sign] at whole
    obtain ⟨first, rest, digits⟩ := List.exists_cons_of_ne_nil valid.whole_ne_nil
    have known := valid.whole first (digits ▸ List.mem_cons_self)
    have front : numeral.chars = first :: (rest ++ (numeral.partChars ++ numeral.markChars)) := by
      rw [chars, digits, List.cons_append]
    have other : first ≠ '-' := by
      rintro rfl
      exact absurd known (by decide)
    rw [front] at whole ⊢
    split
    · rename_i same
      exact absurd (List.cons.inj same).1 other
    · exact whole

/-- No needless zeros, and an exponent just where the first digit is far from the point: then it is
that of the first digit, which stands alone before the point, and it has two digits or more. -/
structure Trimmed (numeral : Numeral) (exponent : Int) : Prop where
  first : numeral.whole.head? = some '0' → numeral.whole = ['0']
  last : numeral.part.getLast? ≠ some '0'
  marked : numeral.mark.isSome ↔ exponent < -4 ∨ 16 ≤ exponent
  scientific : ∀ mark ∈ numeral.mark, numeral.whole.length = 1 ∧ numeral.whole ≠ ['0'] ∧
    numeral.exponent = exponent ∧ 2 ≤ mark.2.length

end Numeral

/-! ### Decimal digits as numerals -/

namespace Decimal

/-- The numeral that decimal digits are written as. -/
def numeral (negative : Bool) (number : Decimal) : Numeral :=
  let size := number.exponent.toNat + 1
  let places := Nat.toDigits 10 number.exponent.natAbs
  if number.isPositional then
    if number.exponent < 0 then
      ⟨negative, ['0'], List.replicate (number.exponent.natAbs - 1) '0' ++ number.digits, none⟩
    else
      ⟨negative, number.digits.take size ++ List.replicate (size - number.digits.length) '0',
        number.digits.drop size, none⟩
  else
    ⟨negative, number.digits.take 1, number.digits.drop 1,
      some (number.exponent < 0, List.replicate (2 - places.length) '0' ++ places)⟩

theorem negative_numeral (negative : Bool) (number : Decimal) :
    (number.numeral negative).negative = negative := by
  rw [numeral]
  split
  · split <;> rfl
  · rfl

private theorem withPoint_eq (numeral : Numeral) :
    withPoint numeral.whole numeral.part = numeral.whole ++ numeral.partChars := by
  rw [withPoint, Numeral.partChars]
  by_cases empty : numeral.part = []
  · rw [if_pos (List.isEmpty_iff.mpr empty), if_pos empty, List.append_nil]
  · rw [if_neg (mt List.isEmpty_iff.mp empty), if_neg empty]

variable {number : Decimal}

theorem chars_numeral (negative : Bool) (number : Decimal) :
    (number.numeral negative).chars = number.written := by
  rw [Numeral.chars, ← List.append_assoc, ← withPoint_eq, numeral, written]
  by_cases plain : number.isPositional = true
  · rw [if_pos plain, if_pos plain, positional]
    by_cases small : number.exponent < 0
    · rw [if_pos small, if_pos small]
      exact List.append_nil _
    · rw [if_neg small, if_neg small]
      exact List.append_nil _
  · rw [if_neg plain, if_neg plain, scientific, exponentMark]
    by_cases small : number.exponent < 0
    · simp [Numeral.markChars, small]
    · simp [Numeral.markChars, small]

theorem valid_numeral (normal : number.Normal) (negative : Bool) :
    (number.numeral negative).Valid := by
  have zeros (count : Nat) : ∀ digit ∈ List.replicate count '0', digit.isDigit = true := by
    intro digit member
    rw [List.eq_of_mem_replicate member]
    rfl
  have taken (count : Nat) : ∀ digit ∈ number.digits.take count, digit.isDigit = true :=
    fun digit member => normal.known digit (List.mem_of_mem_take member)
  have dropped (count : Nat) : ∀ digit ∈ number.digits.drop count, digit.isDigit = true :=
    fun digit member => normal.known digit (List.mem_of_mem_drop member)
  have places : ∀ digit ∈ Nat.toDigits 10 number.exponent.natAbs, digit.isDigit = true :=
    fun digit member => Nat.isDigit_of_mem_toDigits (by decide) (by decide) member
  have beginning (count : Nat) : number.digits.take (count + 1) ≠ [] := by
    rw [Ne, List.take_eq_nil_iff]
    exact not_or.mpr ⟨count.succ_ne_zero, normal.present⟩
  rw [numeral]
  split
  · split
    · refine ⟨List.cons_ne_nil _ _, zeros 1, ?_, nofun⟩
      exact List.forall_mem_append.mpr ⟨zeros _, normal.known⟩
    · refine ⟨List.append_ne_nil_of_left_ne_nil (beginning _) _, ?_, dropped _, nofun⟩
      exact List.forall_mem_append.mpr ⟨taken _, zeros _⟩
  · refine ⟨beginning 0, taken 1, dropped 1, ?_⟩
    intro mark same
    obtain rfl := Option.some.inj same
    refine ⟨List.append_ne_nil_of_right_ne_nil _ Nat.toDigits_ne_nil, ?_⟩
    exact List.forall_mem_append.mpr ⟨zeros _, places⟩

private theorem ofDigitChars_zeros (count : Nat) (digits : List Char) :
    Nat.ofDigitChars 10 (List.replicate count '0' ++ digits) 0 = Nat.ofDigitChars 10 digits 0 := by
  rw [Nat.ofDigitChars_append, Nat.ofDigitChars_replicate_zero, Nat.mul_zero]

private theorem exponent_numeral (wide : ¬ number.isPositional = true) (negative : Bool) :
    (number.numeral negative).exponent = number.exponent := by
  rw [numeral, if_neg wide]
  simp only [Numeral.exponent, ofDigitChars_zeros, Nat.ofDigitChars_ten_toDigits, decide_eq_true_eq]
  split <;> omega

/-- The digits in their places, whatever zeros fill them up. -/
theorem size_numeral (normal : number.Normal) (negative : Bool) :
    (number.numeral negative).size = number.value := by
  have count := List.length_pos_iff.mpr normal.present
  rw [numeral, value]
  split
  · split
    · rename_i small
      have digits : ['0'] ++ (List.replicate (number.exponent.natAbs - 1) '0' ++ number.digits) =
          List.replicate number.exponent.natAbs '0' ++ number.digits := by
        rw [← List.append_assoc, List.singleton_append, ← List.replicate_succ]
        congr 2
        omega
      have place : (0 : Int) - (number.exponent.natAbs - 1 + number.digits.length : Nat) =
          number.exponent + 1 - number.digits.length := by omega
      simp only [Numeral.size, Numeral.exponent, digits, ofDigitChars_zeros, List.length_append,
        List.length_replicate, place]
    · rename_i large
      simp only [Numeral.size, Numeral.exponent, List.length_drop]
      rcases Nat.lt_or_ge (number.exponent.toNat + 1) number.digits.length with inside | filled
      · have place : (0 : Int) - (number.digits.length - (number.exponent.toNat + 1) : Nat) =
            number.exponent + 1 - number.digits.length := by omega
        rw [place, Nat.sub_eq_zero_of_le inside.le, List.replicate_zero, List.append_nil,
          List.take_append_drop]
      · have place : number.exponent + 1 - number.digits.length =
            (number.exponent.toNat + 1 - number.digits.length : Nat) := by omega
        rw [place, List.take_of_length_le filled, List.drop_of_length_le filled, List.append_nil,
          Nat.sub_eq_zero_of_le filled, Nat.ofDigitChars_append, Nat.ofDigitChars_replicate_zero,
          zpow_natCast]
        push_cast
        ring
  · rename_i wide
    have exponent := exponent_numeral wide negative
    have place : number.exponent - (number.digits.length - 1 : Nat) =
        number.exponent + 1 - number.digits.length := by omega
    rw [numeral, if_neg wide] at exponent
    rw [Numeral.size, exponent, List.take_append_drop, List.length_drop, place]

theorem trimmed_numeral (normal : number.Normal) (negative : Bool) :
    (number.numeral negative).Trimmed number.exponent := by
  obtain ⟨first, rest, digits⟩ := List.exists_cons_of_ne_nil normal.present
  have other : first ≠ '0' := by
    intro zero
    have head := normal.first
    rw [digits, zero] at head
    exact head rfl
  have dropped (count : Nat) : (number.digits.drop count).getLast? ≠ some '0' := by
    rw [List.getLast?_drop]
    split
    · exact nofun
    · exact normal.last
  rw [numeral]
  split
  · rename_i plain
    have inside : ¬ (number.exponent < -4 ∨ 16 ≤ number.exponent) := by
      simp only [isPositional, Bool.and_eq_true, decide_eq_true_eq] at plain
      omega
    split
    · refine ⟨fun _ => rfl, ?_, iff_of_false nofun inside, nofun⟩
      rw [List.getLast?_append_of_ne_nil _ normal.present]
      exact normal.last
    · refine ⟨?_, dropped _, iff_of_false nofun inside, nofun⟩
      intro zero
      rw [digits, List.take_succ_cons, List.cons_append] at zero
      exact absurd (Option.some.inj zero) other
  · rename_i wide
    have outside : number.exponent < -4 ∨ 16 ≤ number.exponent := by
      simp only [isPositional, Bool.and_eq_true, decide_eq_true_eq] at wide
      omega
    have alone : number.digits.take 1 = [first] := by
      rw [digits, List.take_succ_cons, List.take_zero]
    have shown : [first] ≠ ['0'] := fun same => other (List.cons.inj same).1
    have exponent := exponent_numeral wide negative
    rw [numeral, if_neg wide] at exponent
    rw [alone] at exponent ⊢
    refine ⟨?_, dropped 1, iff_of_true rfl outside, ?_⟩
    · intro zero
      exact absurd (Option.some.inj zero) other
    · intro mark same
      obtain rfl := Option.some.inj same
      refine ⟨rfl, shown, exponent, ?_⟩
      rw [List.length_append, List.length_replicate]
      omega

end Decimal

end LuaLift
