import LuaLift.Preamble
import LuaLift.Prototype
import LuaLift.Proofs.Number.Notation
import LuaLift.Proofs.Text.Numeral
import LuaLift.Text.Blank
import LuaLift.Text.Shown

/-! Texts that can be shown on one line: numerals, numbers and quoted texts are, whatever they stand
for, and a text they are put into is as far as the names in it are. -/
namespace LuaLift

/-- Whether the symbol is a character that can be shown as itself. -/
def Symbol.isVisible : Symbol → Bool
  | char value => Text.isPrintable value
  | stray _ => false

/-- Whether the symbol is a visible character of the oldest alphabet, or a space. -/
def Symbol.isAscii : Symbol → Bool
  | char value => 0x20 ≤ value.toNat && value.toNat < 0x7F
  | stray _ => false

namespace Text

private theorem hiddenRanges_apart : ∀ range ∈ hiddenRanges, range.2 < 0x20 ∨ 0x7F ≤ range.1 := by
  decide +kernel

/-- Every symbol of the text can be shown as itself, or else is one that names may have. -/
def Legible (names : Symbol → Prop) (text : Text) : Prop :=
  ∀ symbol ∈ text, symbol.isVisible = true ∨ names symbol

variable {names : Symbol → Prop} {text : Text} {chars : List Char}

@[simp] theorem legible_nil : Legible names [] := nofun

@[simp] theorem legible_cons {symbol : Symbol} :
    Legible names (symbol :: text) ↔
      (symbol.isVisible = true ∨ names symbol) ∧ text.Legible names := List.forall_mem_cons

@[simp] theorem legible_append {left right : Text} :
    Legible names (left ++ right) ↔ left.Legible names ∧ right.Legible names :=
  List.forall_mem_append

private theorem isVisible_of_isAscii {symbol : Symbol} (ascii : symbol.isAscii = true) :
    symbol.isVisible = true := by
  cases symbol with
  | stray byte => cases ascii
  | char value =>
    simp only [Symbol.isAscii, Bool.and_eq_true, decide_eq_true_eq] at ascii
    simp only [Symbol.isVisible, isPrintable, Bool.not_eq_true', List.any_eq_false,
      Bool.and_eq_true, decide_eq_true_eq]
    intro range member
    have apart := hiddenRanges_apart range member
    omega

theorem legible_of_ascii (ascii : text.all Symbol.isAscii = true) : text.Legible names :=
  fun symbol member => .inl (isVisible_of_isAscii (List.all_eq_true.mp ascii symbol member))

private theorem legible_replicate {symbol : Symbol} (ascii : symbol.isAscii = true) (count : Nat) :
    Legible names (List.replicate count symbol) := by
  refine legible_of_ascii (List.all_eq_true.mpr fun other member => ?_)
  rwa [List.eq_of_mem_replicate member]

@[simp] theorem legible_padLeft (width : Nat) :
    (padLeft width text).Legible names ↔ text.Legible names := by
  rw [padLeft, legible_append]
  exact and_iff_right (legible_replicate (by decide) _)

@[simp] theorem legible_padRight (width : Nat) :
    (padRight width text).Legible names ↔ text.Legible names := by
  rw [padRight, legible_append]
  exact and_iff_left (legible_replicate (by decide) _)

private theorem mem_of_mem_trimEnd {symbol : Symbol} (member : symbol ∈ trimEnd text) :
    symbol ∈ text := by
  induction text with
  | nil => cases member
  | cons first rest ih =>
    rw [trimEnd] at member
    split at member
    · split at member
      · cases member
      · exact List.mem_cons.mpr (.inl (List.mem_singleton.mp member))
    · rename_i kept _
      rcases List.mem_cons.mp member with here | behind
      · exact List.mem_cons.mpr (.inl here)
      · exact List.mem_cons_of_mem _ (ih behind)

theorem legible_trimEnd (legible : text.Legible names) : (trimEnd text).Legible names :=
  fun symbol member => legible symbol (mem_of_mem_trimEnd member)

/-! ### Numerals and numbers -/

@[simp] theorem legible_sign (value : Int) : (sign value).Legible names := by
  rw [sign]
  split <;> exact legible_of_ascii (by decide)

private theorem isAscii_digitChar :
    ∀ place < 16, (Symbol.char (Nat.digitChar place)).isAscii = true ∧
    (Symbol.char (Nat.digitChar place).toUpper).isAscii = true := by
  decide

private theorem legible_toDigits {base : Nat} (large : 1 < base) (small : base ≤ 16) (value : Nat) :
    (ofChars (Nat.toDigits base value)).Legible names := by
  intro symbol member
  obtain ⟨digit, among, rfl⟩ := List.mem_map.mp member
  obtain ⟨place, below, rfl⟩ := exists_digit_of_mem_toDigits large small among
  exact .inl (isVisible_of_isAscii (isAscii_digitChar place below).1)

@[simp] theorem legible_decimal (value : Int) : (decimal value).Legible names :=
  legible_append.mpr ⟨legible_sign value, legible_toDigits (by decide) (by decide) _⟩

@[simp] theorem legible_hexDigits (value : Nat) : (hexDigits value).Legible names := by
  intro symbol member
  obtain ⟨place, below, rfl⟩ := mem_hexDigits member
  exact .inl (isVisible_of_isAscii (isAscii_digitChar place below).2)

@[simp] theorem legible_paddedHex (width : Nat) (value : Int) :
    (paddedHex width value).Legible names := by
  simp [paddedHex, legible_replicate (by decide : (Symbol.char '0').isAscii = true)]

private theorem legible_paddedDigits (width value : Nat) :
    (ofChars (paddedDigits 16 width value)).Legible names := by
  rw [paddedDigits, ofChars_append, legible_append, ofChars, List.map_replicate]
  exact ⟨legible_replicate (by decide) _, legible_toDigits (by decide) (by decide) value⟩

/-! ### Quoted texts -/

private theorem legible_strayMark (byte : UInt8) : (ofChars (strayMark byte)).Legible names := by
  have mark : Legible names (ofChars [backslash, 'u', 'd', 'c']) := legible_of_ascii (by decide)
  exact legible_append.mpr ⟨mark, legible_paddedDigits 2 byte.toNat⟩

/-- Inside quotes nothing is left that cannot be shown. -/
theorem legible_shownSymbol {quote : Char} (ascii : (Symbol.char quote).isAscii = true)
    (symbol : Symbol) : (shownSymbol quote symbol).Legible names := by
  have escape {kind : Char} (letter : (Symbol.char kind).isAscii = true) (rest : List Char)
      (behind : (ofChars rest).Legible names) :
      (ofChars (backslash :: kind :: rest)).Legible names :=
    legible_cons.mpr ⟨.inl (isVisible_of_isAscii (by decide)),
      legible_cons.mpr ⟨.inl (isVisible_of_isAscii letter), behind⟩⟩
  cases symbol with
  | stray byte => exact legible_strayMark byte
  | char value =>
    rw [shownSymbol]
    split
    · rename_i known
      refine escape ?_ [] legible_nil
      rcases known with rfl | rfl
      · exact ascii
      · decide
    iterate 3
      split
      · exact legible_of_ascii (by decide)
    split
    · exact legible_cons.mpr ⟨.inl ‹_›, legible_nil⟩
    · repeat' split
      all_goals exact escape (by decide) _ (legible_paddedDigits _ value.toNat)

private theorem isAscii_quoteFor (text : Text) : (Symbol.char (quoteFor text)).isAscii = true := by
  rw [quoteFor]
  split <;> decide

@[simp] theorem legible_shown (text : Text) : (shown text).Legible names := by
  have ascii := isAscii_quoteFor text
  have quote := isVisible_of_isAscii ascii
  have inside : Legible names (text.flatMap (shownSymbol (quoteFor text))) := by
    intro symbol member
    obtain ⟨source, _, shown⟩ := List.mem_flatMap.mp member
    exact legible_shownSymbol ascii source symbol shown
  simp [shown, quote, inside]

end Text

open Text

variable {names : Symbol → Prop}

/-- The characters of a number's text are digits, a point, and the mark of an exponent. -/
theorem Decimal.mem_written {number : Decimal} {mark : Char} (member : mark ∈ number.written) :
    mark ∈ number.digits ∨ mark.isDigit = true ∨ mark ∈ ['.', 'e', '-', '+'] := by
  by_contra other
  simp only [not_or, List.mem_cons, Bool.not_eq_true] at other
  obtain ⟨absent, digit, point, letter, minus, plus, _⟩ := other
  have zero := ne_zero_of_not_isDigit digit
  revert member
  rw [imp_false, written]
  split
  · exact not_mem_positional zero point absent
  · have figures := not_mem_toDigits digit number.exponent.natAbs
    rw [scientific, exponentMark, List.mem_append, not_or]
    refine ⟨not_mem_mantissa point absent, ?_⟩
    split <;> simp [figures, letter, minus, plus, zero, List.mem_replicate]

private theorem isAscii_of_isDigit {digit : Char} (known : digit.isDigit = true) :
    (Symbol.char digit).isAscii = true := by
  simp only [Char.isDigit, Bool.and_eq_true, decide_eq_true_eq, UInt32.le_iff_toNat_le] at known
  simp only [Symbol.isAscii, Bool.and_eq_true, decide_eq_true_eq]
  change 48 ≤ digit.toNat ∧ digit.toNat ≤ 57 at known
  omega

@[simp] theorem Double.legible_general (number : Double) : number.general.Legible names := by
  have mark : number.signMark.Legible names := by
    rw [signMark]
    split <;> exact legible_of_ascii (by decide)
  have figures (place : Int) (digits : List Char) (known : ∀ digit ∈ digits, digit.isDigit = true) :
      (ofChars (Decimal.written ⟨digits, place⟩)).Legible names := by
    intro symbol member
    obtain ⟨value, among, rfl⟩ := List.mem_map.mp member
    refine .inl (isVisible_of_isAscii ?_)
    rcases Decimal.mem_written among with own | digit | other
    · exact isAscii_of_isDigit (known value own)
    · exact isAscii_of_isDigit digit
    · simp only [List.mem_cons, List.not_mem_nil, or_false] at other
      rcases other with rfl | rfl | rfl | rfl <;> rfl
  rw [general, written]
  split
  · exact legible_of_ascii (by decide)
  · split
    · exact legible_append.mpr ⟨mark, legible_of_ascii (by decide)⟩
    · refine legible_append.mpr ⟨mark, ?_⟩
      split
      · exact figures _ _ (List.forall_mem_singleton.mpr rfl)
      · refine figures _ _ fun digit member => ?_
        by_contra other
        exact Decimal.not_mem_round (Bool.not_eq_true _ ▸ other) _ _ member

/-! ### Summaries -/

@[simp] theorem Preamble.legible_summary (preamble : Preamble) :
    preamble.summary.Legible names := by
  have order : (ofString preamble.orderName).Legible names := by
    rw [orderName]
    rcases ByteOrder.ofFlag? preamble.orderFlag with _ | _ | _ <;>
      exact legible_of_ascii (by decide)
  simp only [summary, legible_append, legible_decimal, order, and_true]
  and_intros <;> exact legible_of_ascii (by decide)

/-- The source name of a prototype and the names of its locals are as names may be. -/
structure Prototype.Legible (names : Symbol → Prop) (prototype : Prototype) : Prop where
  source : prototype.source.Legible names
  locals : ∀ entry ∈ prototype.locals, entry.name.Legible names

theorem Prototype.Legible.summary {prototype : Prototype} (legible : prototype.Legible names) :
    prototype.summary.Legible names := by
  have named : Text.Legible names (if prototype.source.isEmpty then Text.ofString "?"
      else prototype.source) := by
    split
    · exact legible_of_ascii (by decide)
    · exact legible.source
  have mark : Text.Legible names (Text.ofString (if prototype.isVararg then "+" else "")) := by
    split <;> exact legible_of_ascii (by decide)
  simp only [Prototype.summary, legible_append, legible_decimal, named, mark, and_true]
  and_intros <;> exact legible_of_ascii (by decide)

end LuaLift
