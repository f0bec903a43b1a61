import LuaLift.Number.Power

/-! The order of the bytes of a number, and whole numbers read and written in it. Reading and
writing undo each other for every number that fits the width. -/
namespace LuaLift

inductive ByteOrder where
  | big
  | little
deriving DecidableEq, Repr, Inhabited

/-- The number of some bytes, the most significant one first. -/
def bigNat : List UInt8 → Nat
  | [] => 0
  | byte :: rest => byte.toNat * 256 ^ rest.length + bigNat rest

/-- The low bytes of a number, as many as asked, the most significant one first. -/
def bigBytes (value : Nat) : Nat → List UInt8
  | 0 => []
  | width + 1 => UInt8.ofNat (value / 256 ^ width) :: bigBytes value width

@[simp] theorem length_bigBytes (value width : Nat) : (bigBytes value width).length = width := by
  induction width with
  | zero => rfl
  | succ width ih => simp [bigBytes, ih]

theorem bigNat_lt (bytes : List UInt8) : bigNat bytes < 256 ^ bytes.length := by
  induction bytes with
  | nil => simp [bigNat]
  | cons byte rest ih =>
    have small := byte.toNat_lt
    have most : byte.toNat * 256 ^ rest.length ≤ 255 * 256 ^ rest.length :=
      Nat.mul_le_mul_right _ (by omega)
    simp only [bigNat, List.length_cons, Nat.pow_succ]
    omega

theorem bigNat_bigBytes (value width : Nat) :
    bigNat (bigBytes value width) = value % 256 ^ width := by
  induction width with
  | zero => simp [bigBytes, bigNat, Nat.mod_one]
  | succ width ih =>
    have split : value % 256 ^ (width + 1) =
        value % 256 ^ width + 256 ^ width * (value / 256 ^ width % 256) := by
      rw [Nat.pow_succ, Nat.mod_mul]
    have byte : (UInt8.ofNat (value / 256 ^ width)).toNat = value / 256 ^ width % 256 :=
      UInt8.toNat_ofNat'
    rw [bigBytes, bigNat, length_bigBytes, ih, byte, split, Nat.mul_comm, Nat.add_comm]

theorem bigBytes_mod (value width : Nat) :
    bigBytes (value % 256 ^ width) width = bigBytes value width := by
  suffices every : ∀ above, width ≤ above →
      bigBytes (value % 256 ^ above) width = bigBytes value width from every width (Nat.le_refl _)
  induction width with
  | zero => intros; rfl
  | succ width ih =>
    intro above inside
    simp only [bigBytes, ih above (by omega), List.cons.injEq, and_true]
    apply UInt8.toNat_inj.mp
    have split : above = width + (above - width - 1) + 1 := by omega
    rw [split, Nat.pow_succ, Nat.pow_add]
    simp only [UInt8.toNat_ofNat']
    rw [Nat.mul_assoc, Nat.mod_mul_right_div_self, Nat.mod_mul_left_mod]

theorem bigBytes_bigNat (bytes : List UInt8) : bigBytes (bigNat bytes) bytes.length = bytes := by
  induction bytes with
  | nil => rfl
  | cons byte rest ih =>
    have low := bigNat_lt rest
    have top : (byte.toNat * 256 ^ rest.length + bigNat rest) / 256 ^ rest.length = byte.toNat := by
      rw [Nat.mul_comm, Nat.mul_add_div (Nat.pow_pos (by decide)), Nat.div_eq_of_lt low]
      rfl
    have bottom : (byte.toNat * 256 ^ rest.length + bigNat rest) % 256 ^ rest.length =
        bigNat rest := by
      rw [Nat.mul_comm, Nat.mul_add_mod, Nat.mod_eq_of_lt low]
    simp only [bigNat, List.length_cons, bigBytes, top, UInt8.ofNat_toNat]
    rw [← bigBytes_mod, bottom, ih]

namespace ByteOrder

/-- A chunk's order flag: zero puts the most significant byte first, one puts it last. -/
def ofFlag? (flag : Int) : Option ByteOrder :=
  if flag = 0 then some big else if flag = 1 then some little else none

def flag : ByteOrder → Int
  | big => 0
  | little => 1

def name : ByteOrder → String
  | big => "big"
  | little => "little"

/-- Bytes with the most significant one first, and back. -/
def arrange : ByteOrder → List UInt8 → List UInt8
  | big, bytes => bytes
  | little, bytes => bytes.reverse

def natOf (order : ByteOrder) (bytes : List UInt8) : Nat := bigNat (order.arrange bytes)

/-- The upper half of the range stands for the negative numbers. -/
def intOf (order : ByteOrder) (bytes : List UInt8) : Int :=
  let value := order.natOf bytes
  if 2 * value < 256 ^ bytes.length then value else value - 256 ^ bytes.length

def bytesOfNat (order : ByteOrder) (width value : Nat) : List UInt8 :=
  order.arrange (bigBytes value width)

def bytesOfInt (order : ByteOrder) (width : Nat) (value : Int) : List UInt8 :=
  order.bytesOfNat width (value % 256 ^ width).toNat

@[simp] theorem ofFlag?_flag (order : ByteOrder) : ofFlag? order.flag = some order := by
  cases order <;> rfl

theorem ofFlag?_eq_some_iff {flag : Int} {order : ByteOrder} :
    ofFlag? flag = some order ↔ flag = order.flag := by
  cases order <;> simp only [ofFlag?, ByteOrder.flag] <;> split <;> simp_all

@[simp] theorem arrange_arrange (order : ByteOrder) (bytes : List UInt8) :
    order.arrange (order.arrange bytes) = bytes := by
  cases order <;> simp [arrange]

@[simp] theorem length_arrange (order : ByteOrder) (bytes : List UInt8) :
    (order.arrange bytes).length = bytes.length := by
  cases order <;> simp [arrange]

@[simp] theorem length_bytesOfNat (order : ByteOrder) (width value : Nat) :
    (order.bytesOfNat width value).length = width := by
  simp [bytesOfNat]

theorem natOf_bytesOfNat (order : ByteOrder) (width value : Nat) :
    order.natOf (order.bytesOfNat width value) = value % 256 ^ width := by
  simp [natOf, bytesOfNat, bigNat_bigBytes]

theorem bytesOfNat_natOf (order : ByteOrder) (bytes : List UInt8) :
    order.bytesOfNat bytes.length (order.natOf bytes) = bytes := by
  have whole := bigBytes_bigNat (order.arrange bytes)
  rw [length_arrange] at whole
  simp [bytesOfNat, natOf, whole]

theorem natOf_lt (order : ByteOrder) (bytes : List UInt8) :
    order.natOf bytes < 256 ^ bytes.length := by
  simpa [natOf] using bigNat_lt (order.arrange bytes)

end ByteOrder

end LuaLift
