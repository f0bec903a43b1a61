import LuaLift.Text.Shown

/-! String literals of the source language. Only the characters that would end or break the
literal are escaped, so every other byte of a string stays as it is. -/
namespace LuaLift.Source

open Text in
def escaped : Symbol → Text
  | .char value =>
    if value = backslash then ofChars [backslash, backslash]
    else if value = doubleQuote then ofChars [backslash, doubleQuote]
    else if value = '\n' then ofChars [backslash, 'n']
    else if value = '\r' then ofChars [backslash, 'r']
    else if value = '\t' then ofChars [backslash, 't']
    else if value = '\x00' then ofChars [backslash, '0']
    else [.char value]
  | .stray byte => [.stray byte]

def quoted (text : Text) : Text :=
  .char Text.doubleQuote :: text.flatMap escaped ++ [.char Text.doubleQuote]

end LuaLift.Source
