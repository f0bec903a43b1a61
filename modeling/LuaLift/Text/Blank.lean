import LuaLift.Text.Basic

/-! White space at the end of a line. -/
namespace LuaLift

namespace Text

/-- White space of any script: the controls used for layout and separation, and every character
of the space and line separator categories. -/
def isBlank (value : Char) : Bool :=
  let code := value.toNat
  (0x09 ≤ code && code ≤ 0x0D) || (0x1C ≤ code && code ≤ 0x20) || code = 0x85 ||
    code = 0xA0 || code = 0x1680 || (0x2000 ≤ code && code ≤ 0x200A) || code = 0x2028 ||
    code = 0x2029 || code = 0x202F || code = 0x205F || code = 0x3000

end Text

def Symbol.isBlank : Symbol → Bool
  | .char value => Text.isBlank value
  | .stray _ => false

namespace Text

/-- The text up to its last symbol that is not white space. -/
def trimEnd : Text → Text
  | [] => []
  | symbol :: rest =>
    match trimEnd rest with
    | [] => if symbol.isBlank then [] else [symbol]
    | kept => symbol :: kept

end Text

end LuaLift
