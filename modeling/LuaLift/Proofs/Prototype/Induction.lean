import LuaLift.Chunk.Bytes
import LuaLift.Proofs.Nested

/-! Prototypes by the ones inside them: what holds of a prototype wherever it holds of its functions
holds of every prototype. -/
namespace LuaLift.Prototype

@[elab_as_elim]
theorem induct {motive : Prototype → Prop}
    (step : ∀ prototype, (∀ inner ∈ prototype.functions, motive inner) → motive prototype)
    (prototype : Prototype) : motive prototype := by
  refine Nested.induct (fun outer => ?_) step prototype
  cases outer
  simp only [mk.sizeOf_spec]
  omega

private theorem allOf_eq_flatMap (prototypes : List Prototype) :
    allOf prototypes = prototypes.flatMap all :=
  Nested.eq_flatMap (by rw [allOf]) (fun _ _ => by rw [allOf]) prototypes

theorem all_eq (prototype : Prototype) :
    prototype.all = prototype :: prototype.functions.flatMap all := by
  cases prototype
  rw [all, allOf_eq_flatMap]

/-- All prototypes from one on are the prototype itself and all from each of its functions on. -/
theorem forall_mem_all_iff {property : Prototype → Prop} {prototype : Prototype} :
    (∀ part ∈ prototype.all, property part) ↔
      property prototype ∧ ∀ inner ∈ prototype.functions, ∀ part ∈ inner.all, property part := by
  rw [all_eq, List.forall_mem_cons, List.forall_mem_flatMap]

theorem toBytesAll_eq_flatMap (encoding : Encoding) (prototypes : List Prototype) :
    toBytesAll encoding prototypes = prototypes.flatMap (toBytes encoding) :=
  Nested.eq_flatMap (by rw [toBytesAll]) (fun _ _ => by rw [toBytesAll]) prototypes

end LuaLift.Prototype
