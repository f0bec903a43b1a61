import LuaLift.Text.Numeral
import LuaLift.Text.Printable

/-! Text shown on one line between quotes: a symbol that cannot be shown as itself is written by
its number, so the line never breaks and never ends early. -/
namespace LuaLift.Text

def singleQuote : Char := '\x27'

def doubleQuote : Char := '\x22'

def backslash : Char := '\x5c'

/-- Double quotes only around a text that holds single quotes and no double ones. -/
def quoteFor (text : Text) : Char :=
  if text.contains (.char singleQuote) && !text.contains (.char doubleQuote) then doubleQuote
  else singleQuote

/-- A stray byte by its number. -/
def strayMark (byte : UInt8) : List Char :=
  backslash :: 'u' :: 'd' :: 'c' :: paddedDigits 16 2 byte.toNat

/-- A symbol inside quotes: backslash, line feed, carriage return, tab and the quote itself by
a short escape, what cannot be shown by two, four or eight digits. -/
def shownSymbol (quote : Char) : Symbol → Text
  | .stray byte => ofChars (strayMark byte)
  | .char value =>
    if value = quote ∨ value = backslash then ofChars [backslash, value]
    else if value = '\n' then "\\n"
    else if value = '\r' then "\\r"
    else if value = '\t' then "\\t"
    else if isPrintable value then [.char value]
    else if value.toNat < 0x100 then ofChars (backslash :: 'x' :: paddedDigits 16 2 value.toNat)
    else if value.toNat < 0x10000 then ofChars (backslash :: 'u' :: paddedDigits 16 4 value.toNat)
    else ofChars (backslash :: 'U' :: paddedDigits 16 8 value.toNat)

def shown (text : Text) : Text :=
  let quote := quoteFor text
  .char quote :: text.flatMap (shownSymbol quote) ++ [.char quote]

/-- The characters of a text, stray bytes by their numbers. -/
def marked (text : Text) : List Char :=
  text.flatMap fun
    | .char value => [value]
    | .stray byte => strayMark byte

end LuaLift.Text
