import LuaLift.Proofs.Text.Legible

/-! Texts without stray bytes and texts without line feeds. Neither can be shown as itself, so a
legible text has them only from the names in it. -/
namespace LuaLift

namespace Text

/-- No symbol of the text is a stray byte. -/
def Plain (text : Text) : Prop := ∀ symbol ∈ text, symbol.isStray = false

instance decidablePlain (text : Text) : Decidable text.Plain :=
  inferInstanceAs (Decidable (∀ symbol ∈ text, symbol.isStray = false))

variable {text separator : Text}

theorem plain_join {pieces : List Text} (between : separator.Plain)
    (each : ∀ piece ∈ pieces, piece.Plain) : (join separator pieces).Plain := by
  induction pieces with
  | nil => exact nofun
  | cons piece rest ih =>
    obtain ⟨own, others⟩ := List.forall_mem_cons.mp each
    cases rest with
    | nil => rwa [join_singleton]
    | cons next more =>
      rw [join_cons_cons]
      exact List.forall_mem_append.mpr ⟨List.forall_mem_append.mpr ⟨own, between⟩, ih others⟩

theorem Legible.plain (legible : text.Legible fun symbol => symbol.isStray = false) :
    text.Plain := by
  intro symbol member
  rcases legible symbol member with visible | kept
  · cases symbol with
    | char value => rfl
    | stray byte => cases visible
  · exact kept

private theorem isVisible_lineFeed : lineFeed.isVisible = false := by decide +kernel

theorem Legible.unbroken (legible : text.Legible (· ≠ lineFeed)) : lineFeed ∉ text := by
  intro member
  rcases legible lineFeed member with visible | other
  · rw [isVisible_lineFeed] at visible
    cases visible
  · exact other rfl

private theorem legible_of_unbroken (unbroken : lineFeed ∉ text) : text.Legible (· ≠ lineFeed) :=
  fun _ member => .inr fun same => unbroken (same ▸ member)

end Text

/-- The source name of a prototype and the names of its locals hold no stray byte. -/
structure Prototype.Plain (prototype : Prototype) : Prop where
  source : prototype.source.Plain
  locals : ∀ entry ∈ prototype.locals, entry.name.Plain

instance Prototype.decidablePlain (prototype : Prototype) : Decidable prototype.Plain :=
  decidable_of_iff (prototype.source.Plain ∧ ∀ entry ∈ prototype.locals, entry.name.Plain)
    ⟨fun plain => ⟨plain.1, plain.2⟩, fun plain => ⟨plain.source, plain.locals⟩⟩

theorem Prototype.Plain.legible {prototype : Prototype} (plain : prototype.Plain) :
    prototype.Legible fun symbol => symbol.isStray = false :=
  ⟨fun _ member => .inr (plain.source _ member),
    fun entry among _ member => .inr (plain.locals entry among _ member)⟩

/-- The source name of a prototype and the names of its locals stand on one line each. -/
structure Prototype.Unbroken (prototype : Prototype) : Prop where
  source : Text.lineFeed ∉ prototype.source
  locals : ∀ entry ∈ prototype.locals, Text.lineFeed ∉ entry.name

instance Prototype.decidableUnbroken (prototype : Prototype) : Decidable prototype.Unbroken :=
  decidable_of_iff
    (Text.lineFeed ∉ prototype.source ∧ ∀ entry ∈ prototype.locals, Text.lineFeed ∉ entry.name)
    ⟨fun unbroken => ⟨unbroken.1, unbroken.2⟩, fun unbroken => ⟨unbroken.source, unbroken.locals⟩⟩

theorem Prototype.Unbroken.legible {prototype : Prototype} (unbroken : prototype.Unbroken) :
    prototype.Legible (· ≠ Text.lineFeed) :=
  ⟨Text.legible_of_unbroken unbroken.source,
    fun entry among => Text.legible_of_unbroken (unbroken.locals entry among)⟩

end LuaLift
