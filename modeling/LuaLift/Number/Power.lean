/-! Powers of whole numbers. -/
namespace LuaLift

/-- Powers are those of the core library, also where monoids are in sight and bring powers of their
own, so that a statement about a power means the same with and without them. -/
@[default_instance 20000]
instance (priority := 2000) wholePow [NatPow α] : Pow α Nat := instPowNat

end LuaLift
