import LuaLift.Text.Basic

/-! Whole numbers in text: decimal and upper-case hexadecimal, a minus sign in front of the
digits of the absolute value, widths that count the sign. -/
namespace LuaLift.Text

def sign (value : Int) : Text := if value < 0 then "-" else ""

def digits (value : Nat) : Text := ofChars (Nat.toDigits 10 value)

def hexDigits (value : Nat) : Text := ofChars ((Nat.toDigits 16 value).map Char.toUpper)

def decimal (value : Int) : Text := sign value ++ digits value.natAbs

def hex (value : Int) : Text := sign value ++ hexDigits value.natAbs

/-- Hexadecimal digits filled up with zeros between the sign and the first digit. -/
def paddedHex (width : Nat) (value : Int) : Text :=
  sign value ++ List.replicate (width - (hex value).length) (.char '0') ++
    hexDigits value.natAbs

/-- A number of a given base in lower-case digits, filled up with zeros. -/
def paddedDigits (base width value : Nat) : List Char :=
  let written := Nat.toDigits base value
  List.replicate (width - written.length) '0' ++ written

end LuaLift.Text
