/-! Text as chunks hold it: characters, and single bytes that belong to no character.
Lines are the pieces between line feeds, so joining them gives the text back. -/
namespace LuaLift

/-- One unit of text: a character, or a byte outside every well-formed character. -/
inductive Symbol where
  | char (value : Char)
  | stray (byte : UInt8)
deriving DecidableEq, Repr, Inhabited

/-- Whether the symbol is a byte outside every well-formed character. -/
def Symbol.isStray : Symbol → Bool
  | char _ => false
  | stray _ => true

def Symbol.char? : Symbol → Option Char
  | char value => some value
  | stray _ => none

abbrev Text := List Symbol

namespace Text

def ofChars (chars : List Char) : Text := chars.map Symbol.char

def ofString (string : String) : Text := ofChars string.toList

instance : Coe String Text := ⟨ofString⟩

/-- The characters of a text without stray bytes. -/
def toString? (text : Text) : Option String :=
  (text.mapM Symbol.char?).map String.ofList

def space : Symbol := .char ' '

def lineFeed : Symbol := .char '\n'

/-- The pieces between line feeds; there is always at least one. -/
def lines : Text → List Text
  | [] => [[]]
  | symbol :: rest =>
    if symbol = lineFeed then [] :: lines rest
    else match lines rest with
      | [] => [[symbol]]
      | line :: others => (symbol :: line) :: others

/-- Texts in order with a separator between neighbours. -/
def join (separator : Text) (pieces : List Text) : Text :=
  List.intercalate separator pieces

theorem join_singleton (separator piece : Text) : join separator [piece] = piece := by
  simp [join, List.intercalate]

theorem join_cons_cons (separator piece next : Text) (rest : List Text) :
    join separator (piece :: next :: rest) = piece ++ separator ++ join separator (next :: rest) := by
  simp [join, List.intercalate]

def unlines (pieces : List Text) : Text := join [lineFeed] pieces

/-- A text written a number of times in a row. -/
def times (count : Nat) (text : Text) : Text := (List.replicate count text).flatten

/-- Symbols after the text until it is as wide as asked; a wider text is kept. -/
def padRight (width : Nat) (text : Text) : Text :=
  text ++ List.replicate (width - text.length) space

/-- Symbols before the text until it is as wide as asked; a wider text is kept. -/
def padLeft (width : Nat) (text : Text) : Text :=
  List.replicate (width - text.length) space ++ text

@[simp] theorem ofChars_append (left right : List Char) :
    ofChars (left ++ right) = ofChars left ++ ofChars right := List.map_append

theorem lines_ne_nil (text : Text) : lines text ≠ [] := by
  cases text with
  | nil => simp [lines]
  | cons symbol rest => simp only [lines]; split <;> (try split) <;> simp

theorem unlines_lines (text : Text) : unlines (lines text) = text := by
  induction text with
  | nil => rfl
  | cons symbol rest ih =>
    have present := lines_ne_nil rest
    unfold lines
    split
    · subst symbol
      cases found : lines rest with
      | nil => exact absurd found present
      | cons line others =>
        rw [found] at ih
        simpa [unlines, join, List.intercalate, List.intersperse] using ih
    · cases found : lines rest with
      | nil => exact absurd found present
      | cons line others =>
        rw [found] at ih
        cases others <;> simpa [unlines, join, List.intercalate, List.intersperse] using ih

end Text

end LuaLift
