import LuaLift.Instruction.Assemble
import LuaLift.Proofs.Instruction.Fields

/-! Putting words together and taking them apart. A word is the number above the opcode and the
number of the opcode; which values the one may have says which operands an instruction can hold. -/
namespace LuaLift

namespace Operands

/-- The operands of a mode, but for the low one of a pair, have room in their field. -/
def Fits (operands : Operands) (widths : FieldWidths) : Mode → Prop
  | .unsigned => 0 ≤ operands.u ∧ operands.u < 2 ^ widths.upper
  | .signed => -(2 ^ (widths.upper - 1) - 1) ≤ operands.s ∧ operands.s ≤ 2 ^ (widths.upper - 1)
  | .pair => 0 ≤ operands.a ∧ operands.a < 2 ^ (widths.upper - widths.low.toNat)
  | .plain => True

/-- The low operand of a pair has room in its field. -/
def LowFits (operands : Operands) (widths : FieldWidths) : Mode → Prop
  | .pair => 0 ≤ operands.b ∧ operands.b < 2 ^ widths.low.toNat
  | _ => True

/-- Every operand of a mode has room in its field. -/
def InRange (operands : Operands) (widths : FieldWidths) (mode : Mode) : Prop :=
  operands.Fits widths mode ∧ operands.LowFits widths mode

instance (operands : Operands) (widths : FieldWidths) :
    (mode : Mode) → Decidable (operands.Fits widths mode)
  | .unsigned | .signed | .pair => inferInstanceAs (Decidable (_ ∧ _))
  | .plain => isTrue trivial

instance (operands : Operands) (widths : FieldWidths) :
    (mode : Mode) → Decidable (operands.LowFits widths mode)
  | .pair => inferInstanceAs (Decidable (_ ∧ _))
  | .unsigned | .signed | .plain => isTrue trivial

instance (operands : Operands) (widths : FieldWidths) (mode : Mode) :
    Decidable (operands.InRange widths mode) := inferInstanceAs (Decidable (_ ∧ _))

/-- The operands with only those bits of the low one that its field holds. -/
def cut (operands : Operands) (widths : FieldWidths) : Operands :=
  { operands with b := operands.b % 2 ^ widths.low.toNat }

/-- The number above the opcode that stands for the operands of a mode. -/
def upperBits (operands : Operands) (widths : FieldWidths) : Mode → Int
  | .unsigned => operands.u
  | .signed => operands.s + (2 ^ widths.upper - 1) / 2
  | .pair => operands.a * 2 ^ widths.low.toNat + operands.b % 2 ^ widths.low.toNat
  | .plain => 0

variable (operands : Operands) (widths : FieldWidths) (mode : Mode)

private theorem upperBits_cut :
    (operands.cut widths).upperBits widths mode = operands.upperBits widths mode := by
  cases mode with
  | unsigned | signed | plain => rfl
  | pair => simp only [upperBits, cut, Int.emod_emod_of_dvd, Int.dvd_refl]

private theorem fits_cut : (operands.cut widths).Fits widths mode ↔ operands.Fits widths mode := by
  cases mode <;> exact Iff.rfl

private theorem lowFits_cut : (operands.cut widths).LowFits widths mode := by
  cases mode with
  | unsigned | signed | plain => trivial
  | pair =>
    have place : (0 : Int) < 2 ^ widths.low.toNat := Int.pow_pos (by decide)
    exact ⟨Int.emod_nonneg _ (Int.ne_of_gt place), Int.emod_lt_of_pos _ place⟩

end Operands

namespace Instruction

/-- The operands of a mode are those that the instruction is read with. -/
def Shows (instruction : Instruction) (operands : Operands) : Mode → Prop
  | .unsigned => instruction.u = .ok operands.u
  | .signed => instruction.s = .ok operands.s
  | .pair => instruction.a = .ok operands.a ∧ instruction.b = .ok operands.b
  | .plain => True

/-- The instruction is read as an opcode with the operands of its mode. -/
structure Carries (instruction : Instruction) (opcode : Opcode) (operands : Operands) : Prop where
  known : instruction.opcode = .ok opcode
  shows : instruction.Shows operands opcode.mode

/-- An opcode with operands in one word, which may have bits too many. -/
def joined (opcode : Opcode) (operands : Operands) (widths : FieldWidths) : Instruction :=
  ⟨withOpcode (operands.upperBits widths opcode.mode * 2 ^ widths.opcode.toNat) opcode, widths⟩

section Word

/-- The bits of an opcode number are set in a number by themselves. -/
theorem withOpcode_natCast (value : Nat) (opcode : Opcode) :
    withOpcode value opcode = ((value ||| opcode.number : Nat) : Int) := by
  have small : opcode.number < 2 ^ 6 := by
    have := opcode.number_lt
    omega
  have low : value % 64 < 2 ^ 6 := Nat.mod_lt _ (by decide)
  have split : value = 2 ^ 6 * (value / 64) ||| value % 64 := by
    rw [← Nat.two_pow_add_eq_or_of_lt low]
    exact (Nat.div_add_mod value 64).symm
  have joined : value ||| opcode.number = 2 ^ 6 * (value / 64) + (value % 64 ||| opcode.number) := by
    conv => lhs; rw [split, Nat.or_assoc]
    exact (Nat.two_pow_add_eq_or_of_lt (Nat.or_lt_two_pow low small) _).symm
  have whole : ((value : Int) % 64).toNat = value % 64 := by omega
  rw [joined, withOpcode, whole]
  omega

private theorem withOpcode_neg {value : Int} (negative : value < 0) (opcode : Opcode) :
    withOpcode value opcode < 0 := by
  have low : (value % 64).toNat < 2 ^ 6 := by omega
  have small : opcode.number < 2 ^ 6 := by
    have := opcode.number_lt
    omega
  have joined := Nat.or_lt_two_pow low small
  rw [withOpcode]
  omega

private theorem natCast_lt_two_pow_iff {value width : Nat} :
    (value : Int) < 2 ^ width ↔ value < 2 ^ width := by
  rw [← Int.ofNat_lt, Int.natCast_pow]
  rfl

private theorem natCast_shifted (value width : Nat) :
    (value : Int) * 2 ^ width = ((2 ^ width * value : Nat) : Int) := by
  rw [Int.natCast_mul, Int.natCast_pow, Int.mul_comm]
  rfl

/-- Where the opcode number has room below it, the number above stays as it is. -/
theorem withOpcode_of_fits {opcode : Opcode} {width : Nat} (room : opcode.number < 2 ^ width)
    {upper : Int} (nonneg : 0 ≤ upper) :
    withOpcode (upper * 2 ^ width) opcode = upper * 2 ^ width + opcode.number := by
  obtain ⟨value, rfl⟩ := Int.eq_ofNat_of_zero_le nonneg
  rw [natCast_shifted, withOpcode_natCast, ← Nat.two_pow_add_eq_or_of_lt room, Int.natCast_add]

/-- A word has no bits beyond its width just if neither the number above the opcode nor the number
of the opcode has any. -/
theorem withOpcode_narrow_iff {opcode : Opcode} {width above : Nat} {upper : Int} :
    withOpcode (upper * 2 ^ width) opcode / 2 ^ (width + above) = 0 ↔
      (0 ≤ upper ∧ upper < 2 ^ above) ∧ opcode.number < 2 ^ (width + above) := by
  have range : (0 : Int) < 2 ^ (width + above) := Int.pow_pos (by decide)
  rw [Int.ediv_eq_iff_of_pos range, Int.zero_mul, Int.zero_add]
  by_cases negative : upper < 0
  -- The bits above the word of a negative number are all set, whatever is set below them.
  · have scale : (0 : Int) < 2 ^ width := Int.pow_pos (by decide)
    have below := withOpcode_neg (Int.mul_neg_of_neg_of_pos negative scale) opcode
    constructor
    · rintro ⟨nonneg, -⟩
      omega
    · rintro ⟨⟨nonneg, -⟩, -⟩
      omega
  · obtain ⟨value, rfl⟩ := Int.eq_ofNat_of_zero_le (Int.not_lt.mp negative)
    rw [natCast_shifted, withOpcode_natCast]
    rw [natCast_lt_two_pow_iff, natCast_lt_two_pow_iff]
    constructor
    · rintro ⟨-, narrow⟩
      have high : 2 ^ width * value < 2 ^ width * 2 ^ above := by
        rw [← Nat.pow_add]
        exact Nat.lt_of_le_of_lt Nat.left_le_or narrow
      exact ⟨⟨Int.natCast_nonneg _, Nat.lt_of_mul_lt_mul_left high⟩,
        Nat.lt_of_le_of_lt Nat.right_le_or narrow⟩
    · rintro ⟨⟨-, small⟩, low⟩
      refine ⟨Int.natCast_nonneg _, Nat.or_lt_two_pow ?_ low⟩
      rw [Nat.pow_add]
      exact Nat.mul_lt_mul_of_pos_left small (Nat.two_pow_pos width)

end Word

/-- Which operands an instruction is read with says what the number above its opcode is. -/
theorem shows_iff {widths : FieldWidths} (fit : widths.Fit) {raw : Int} {operands : Operands}
    {mode : Mode} (holds : mode ≠ .plain) :
    Shows ⟨raw, widths⟩ operands mode ↔
      raw / 2 ^ widths.opcode.toNat = operands.upperBits widths mode ∧
        operands.LowFits widths mode := by
  cases mode with
  | unsigned =>
    simp only [Shows, u_eq fit, Except.ok.injEq, Operands.upperBits, Operands.LowFits, and_true]
  | signed =>
    simp only [Shows, s_eq fit, Except.ok.injEq, Operands.upperBits, Operands.LowFits, and_true]
    omega
  | pair =>
    have place : (0 : Int) < 2 ^ widths.low.toNat := Int.pow_pos (by decide)
    simp only [Shows, a_eq fit, b_eq fit, Except.ok.injEq, Operands.upperBits, Operands.LowFits]
    rw [Int.ediv_emod_unique place]
    constructor
    · rintro ⟨whole, nonneg, small⟩
      refine ⟨?_, nonneg, small⟩
      rw [Int.emod_eq_of_lt nonneg small, ← whole, Int.mul_comm, Int.add_comm]
    · rintro ⟨whole, nonneg, small⟩
      refine ⟨?_, nonneg, small⟩
      rw [whole, Int.emod_eq_of_lt nonneg small, Int.mul_comm, Int.add_comm]
  | plain => exact absurd rfl holds

section Assembling

variable {widths : FieldWidths} (fit : widths.Fit) (opcode : Opcode) (operands : Operands)

include fit

private theorem packed_eq (mode : Mode) :
    packed widths operands mode = .ok (operands.upperBits widths mode) := by
  cases mode with
  | unsigned => rfl
  | signed =>
    simp only [packed, bias_eq fit]
    rfl
  | pair =>
    have up : shiftUp operands.a widths.low = .ok _ :=
      if_neg (Int.not_lt.mpr (Int.le_of_lt fit.low_pos))
    have low : lowBits operands.b widths.low = .ok _ :=
      if_neg (Int.not_lt.mpr (Int.le_of_lt fit.low_pos))
    simp only [packed, up, low]
    rfl
  | plain => rfl

/-- A word is put together unless it has bits too many. -/
theorem assemble_eq : assemble opcode operands widths =
    if (joined opcode operands widths).raw / 2 ^ widths.word.toNat = 0 then
      .ok (joined opcode operands widths)
    else .error (.operandTooWide widths.word) := by
  obtain ⟨opcode_pos, low_pos, lt_word⟩ := id fit
  have up (value : Int) :
      shiftUp value widths.opcode = .ok (value * 2 ^ widths.opcode.toNat) := if_neg (by omega)
  have down (value : Int) :
      shiftDown value widths.word = .ok (value / 2 ^ widths.word.toNat) := if_neg (by omega)
  simp only [assemble, packed_eq fit, up, down]
  rfl

/-- The operands of a mode fit just if the number above the opcode is not too large. -/
theorem fits_iff (mode : Mode) : operands.Fits widths mode ↔
    0 ≤ operands.upperBits widths mode ∧ operands.upperBits widths mode < 2 ^ widths.upper := by
  obtain ⟨opcode_pos, low_pos, lt_word⟩ := fit
  have room : widths.low.toNat < widths.upper := by
    rw [FieldWidths.upper]
    omega
  cases mode with
  | unsigned => exact Iff.rfl
  | signed =>
    have double : (2 : Int) ^ widths.upper = 2 ^ (widths.upper - 1) * 2 := by
      rw [← Int.pow_succ]
      congr
      omega
    simp only [Operands.Fits, Operands.upperBits]
    omega
  | pair =>
    have place : (0 : Int) < 2 ^ widths.low.toNat := Int.pow_pos (by decide)
    have split : (2 : Int) ^ widths.upper =
        2 ^ (widths.upper - widths.low.toNat) * 2 ^ widths.low.toNat := by
      rw [← Int.pow_add]
      congr
      omega
    have high : operands.upperBits widths .pair / 2 ^ widths.low.toNat = operands.a := by
      refine ((Int.ediv_emod_unique place).mpr ⟨?_, Int.emod_nonneg _ (Int.ne_of_gt place),
        Int.emod_lt_of_pos operands.b place⟩).1
      rw [Operands.upperBits, Int.mul_comm, Int.add_comm]
    rw [split, ← Int.ediv_lt_iff_lt_mul place, ← Int.ediv_nonneg_iff_of_pos place, high]
    exact Iff.rfl
  | plain =>
    have above : (0 : Int) < 2 ^ widths.upper := Int.pow_pos (by decide)
    exact ⟨fun _ => ⟨Int.le_refl 0, above⟩, fun _ => trivial⟩

private theorem word_eq : widths.word.toNat = widths.opcode.toNat + widths.upper := by
  obtain ⟨opcode_pos, low_pos, lt_word⟩ := fit
  rw [FieldWidths.upper]
  omega

private theorem joined_narrow_iff :
    (joined opcode operands widths).raw / 2 ^ widths.word.toNat = 0 ↔
      operands.Fits widths opcode.mode ∧ opcode.number < 2 ^ widths.word.toNat := by
  rw [fits_iff fit, word_eq fit]
  exact withOpcode_narrow_iff

private theorem assemble_eq_ok_iff {instruction : Instruction} :
    assemble opcode operands widths = .ok instruction ↔
      (operands.Fits widths opcode.mode ∧ opcode.number < 2 ^ widths.word.toNat) ∧
        joined opcode operands widths = instruction := by
  rw [assemble_eq fit, ← joined_narrow_iff fit]
  by_cases narrow : (joined opcode operands widths).raw / 2 ^ widths.word.toNat = 0
  · rw [if_pos narrow, Except.ok.injEq, and_iff_right narrow]
  · rw [if_neg narrow]
    exact ⟨nofun, fun both => absurd both.1 narrow⟩

private theorem assemble_eq_error_iff {fault : Fault} :
    assemble opcode operands widths = .error fault ↔
      ¬ (operands.Fits widths opcode.mode ∧ opcode.number < 2 ^ widths.word.toNat) ∧
        .operandTooWide widths.word = fault := by
  rw [assemble_eq fit, ← joined_narrow_iff fit]
  by_cases narrow : (joined opcode operands widths).raw / 2 ^ widths.word.toNat = 0
  · rw [if_pos narrow]
    exact ⟨nofun, fun both => absurd narrow both.1⟩
  · rw [if_neg narrow, Except.error.injEq, and_iff_right narrow]

variable {opcode operands}

/-- Where the opcode number has room in its field, the word falls apart into what it was put
together from. -/
theorem fields_joined (room : opcode.number < 2 ^ widths.opcode.toNat)
    (fits : operands.Fits widths opcode.mode) :
    (joined opcode operands widths).raw / 2 ^ widths.opcode.toNat =
        operands.upperBits widths opcode.mode ∧
      (joined opcode operands widths).raw % 2 ^ widths.opcode.toNat = opcode.number := by
  have place : (0 : Int) < 2 ^ widths.opcode.toNat := Int.pow_pos (by decide)
  have nonneg := ((fits_iff fit operands opcode.mode).mp fits).1
  rw [joined, withOpcode_of_fits room nonneg, Int.ediv_emod_unique place]
  refine ⟨?_, Int.natCast_nonneg _, natCast_lt_two_pow_iff.mpr room⟩
  rw [Int.mul_comm, Int.add_comm]

/-- A word is read as it was put together just if the opcode number and the low operand of a pair
have room in their fields. -/
theorem carries_joined_iff (fits : operands.Fits widths opcode.mode) :
    (joined opcode operands widths).Carries opcode operands ↔
      opcode.number < 2 ^ widths.opcode.toNat ∧ operands.LowFits widths opcode.mode := by
  constructor
  · rintro ⟨known, shows⟩
    have place : (0 : Int) < 2 ^ widths.opcode.toNat := Int.pow_pos (by decide)
    have field := (opcode_eq_ok_iff fit).mp known
    have small := Int.emod_lt_of_pos (joined opcode operands widths).raw place
    refine ⟨?_, ?_⟩
    · exact natCast_lt_two_pow_iff.mp (field ▸ small)
    · by_cases plain : opcode.mode = .plain
      · rw [plain]
        trivial
      · exact ((shows_iff fit plain).mp shows).2
  · rintro ⟨room, low⟩
    obtain ⟨upper, field⟩ := fields_joined fit room fits
    refine ⟨(opcode_eq_ok_iff fit).mpr field, ?_⟩
    by_cases plain : opcode.mode = .plain
    · rw [plain]
      trivial
    · exact (shows_iff fit plain).mpr ⟨upper, low⟩

/-- What a word of its width is read with has room in its fields. -/
theorem inRange_of_shows {raw : Int} (nonneg : 0 ≤ raw) (small : raw < 2 ^ widths.word.toNat)
    {mode : Mode} (shows : Shows ⟨raw, widths⟩ operands mode) : operands.InRange widths mode := by
  by_cases plain : mode = .plain
  · rw [plain]
    exact ⟨trivial, trivial⟩
  · obtain ⟨upper, low⟩ := (shows_iff fit plain).mp shows
    have place : (0 : Int) < 2 ^ widths.opcode.toNat := Int.pow_pos (by decide)
    refine ⟨(fits_iff fit operands mode).mpr ?_, low⟩
    rw [← upper, Int.ediv_nonneg_iff_of_pos place, Int.ediv_lt_iff_lt_mul place, ← Int.pow_add,
      Nat.add_comm, ← word_eq fit]
    exact ⟨nonneg, small⟩

/-- The word put together from what a word is read with is that word, as long as there is nothing
above an opcode that has no operands. -/
theorem joined_eq_iff {raw : Int} (nonneg : 0 ≤ raw)
    (room : opcode.number < 2 ^ widths.opcode.toNat)
    (field : raw % 2 ^ widths.opcode.toNat = opcode.number)
    (shows : Shows ⟨raw, widths⟩ operands opcode.mode) :
    joined opcode operands widths = ⟨raw, widths⟩ ↔
      (opcode.mode = .plain → u ⟨raw, widths⟩ = .ok 0) := by
  have place : (0 : Int) < 2 ^ widths.opcode.toNat := Int.pow_pos (by decide)
  have split := Int.ediv_mul_add_emod raw (2 ^ widths.opcode.toNat)
  rw [field] at split
  rw [joined, Instruction.mk.injEq, and_iff_left rfl, u_eq fit, Except.ok.injEq]
  by_cases plain : opcode.mode = .plain
  · have none : operands.upperBits widths opcode.mode = 0 := by
      rw [plain]
      rfl
    rw [none, withOpcode_of_fits room (Int.le_refl 0)]
    constructor
    · rintro rfl -
      refine Int.ediv_eq_zero_of_lt (by omega) ?_
      rw [Int.zero_mul, Int.zero_add]
      exact natCast_lt_two_pow_iff.mpr room
    · intro above
      rw [above plain] at split
      exact split
  · obtain ⟨upper, -⟩ := (shows_iff fit plain).mp shows
    have above : 0 ≤ operands.upperBits widths opcode.mode := by
      rw [← upper, Int.ediv_nonneg_iff_of_pos place]
      exact nonneg
    rw [withOpcode_of_fits room above, ← upper]
    exact ⟨fun _ holds => absurd holds plain, fun _ => split⟩

end Assembling

/-- Words and operands determine each other. An opcode that has room in its field is put together
with any operands in range, and read back with them; and a word with a known opcode is read with
operands in range from which it is put together again, as long as there is nothing above an opcode
that has no operands. -/
theorem assemble_inverse {widths : FieldWidths} (fit : widths.Fit) (opcode : Opcode) :
    (opcode.number < 2 ^ widths.opcode.toNat → ∀ operands : Operands,
      operands.InRange widths opcode.mode →
        ∃ instruction, assemble opcode operands widths = .ok instruction ∧
          instruction.Carries opcode operands ∧ instruction.widths = widths ∧
            0 ≤ instruction.raw ∧ instruction.raw < 2 ^ widths.word.toNat) ∧
    ∀ raw : Int, 0 ≤ raw → raw < 2 ^ widths.word.toNat →
      Instruction.opcode ⟨raw, widths⟩ = .ok opcode →
        (∃ operands, Carries ⟨raw, widths⟩ opcode operands) ∧
        ∀ operands, Carries ⟨raw, widths⟩ opcode operands →
          operands.InRange widths opcode.mode ∧
          (assemble opcode operands widths = .ok ⟨raw, widths⟩ ↔
            (opcode.mode = .plain → u ⟨raw, widths⟩ = .ok 0)) := by
  have place : (0 : Int) < 2 ^ widths.opcode.toNat := Int.pow_pos (by decide)
  have range : (0 : Int) < 2 ^ widths.word.toNat := Int.pow_pos (by decide)
  have wider {number : Nat} (room : number < 2 ^ widths.opcode.toNat) :
      number < 2 ^ widths.word.toNat := by
    refine Nat.lt_of_lt_of_le room (Nat.pow_le_pow_right (by decide) ?_)
    rw [word_eq fit]
    exact Nat.le_add_right _ _
  refine ⟨fun room operands inRange => ?_, fun raw nonneg small known => ⟨?_, ?_⟩⟩
  · obtain ⟨fits, low⟩ := inRange
    have narrow := (joined_narrow_iff fit opcode operands).mpr ⟨fits, wider room⟩
    rw [Int.ediv_eq_iff_of_pos range, Int.zero_mul, Int.zero_add] at narrow
    exact ⟨_, (assemble_eq_ok_iff fit opcode operands).mpr ⟨⟨fits, wider room⟩, rfl⟩,
      (carries_joined_iff fit fits).mpr ⟨room, low⟩, rfl, narrow⟩
  · refine ⟨⟨raw / 2 ^ widths.opcode.toNat,
      raw / 2 ^ widths.opcode.toNat - (2 ^ widths.upper - 1) / 2,
      raw / 2 ^ widths.opcode.toNat / 2 ^ widths.low.toNat,
      raw / 2 ^ widths.opcode.toNat % 2 ^ widths.low.toNat⟩, known, ?_⟩
    cases opcode.mode with
    | unsigned => exact u_eq fit
    | signed => exact s_eq fit
    | pair => exact ⟨a_eq fit, b_eq fit⟩
    | plain => trivial
  · rintro operands ⟨-, shows⟩
    have field := (opcode_eq_ok_iff fit).mp known
    have room : opcode.number < 2 ^ widths.opcode.toNat := by
      rw [← natCast_lt_two_pow_iff, ← field]
      exact Int.emod_lt_of_pos raw place
    have inRange := inRange_of_shows fit nonneg small shows
    refine ⟨inRange, ?_⟩
    rw [assemble_eq_ok_iff fit, and_iff_right ⟨inRange.1, wider room⟩]
    exact joined_eq_iff fit nonneg room field shows

/-- The default widths, a backward jump, and a call word. -/
theorem assemble_inverse_of_jump :
    (∃ instruction, assemble .jump { s := -4 } {} = .ok instruction ∧
      instruction.Carries .jump { s := -4 } ∧ instruction.widths = {} ∧
        0 ≤ instruction.raw ∧ instruction.raw < 2 ^ (32 : Int).toNat) ∧
    ∀ operands, Carries ⟨98434, {}⟩ .call operands →
      operands.InRange {} .pair ∧
        (assemble .call operands {} = .ok ⟨98434, {}⟩ ↔
          (Opcode.call.mode = .plain → u ⟨98434, {}⟩ = .ok 0)) :=
  have fit : FieldWidths.Fit {} := ⟨by decide, by decide, by decide⟩
  ⟨(assemble_inverse fit .jump).1 (by decide) { s := -4 } (by decide),
    ((assemble_inverse fit .call).2 98434 (by decide) (by decide) rfl).2⟩

/-- A word is refused just if the operands above the lowest one, or the opcode number, have more bits
than the word has room for. What comes back is read as it was put together just if the opcode number
and the low operand of a pair keep to their fields, which is not checked: of the low operand only the
bits of its field remain, and an opcode number reaches into the operands above it. -/
theorem assemble_refuses {widths : FieldWidths} (fit : widths.Fit) (opcode : Opcode)
    (operands : Operands) :
    (∀ fault, assemble opcode operands widths = .error fault ↔
      ¬ (operands.Fits widths opcode.mode ∧ opcode.number < 2 ^ widths.word.toNat) ∧
        .operandTooWide widths.word = fault) ∧
    ∀ instruction, assemble opcode operands widths = .ok instruction →
      (instruction.Carries opcode operands ↔
        opcode.number < 2 ^ widths.opcode.toNat ∧ operands.LowFits widths opcode.mode) ∧
      (opcode.number < 2 ^ widths.opcode.toNat →
        instruction.Carries opcode (operands.cut widths)) := by
  refine ⟨fun fault => assemble_eq_error_iff fit opcode operands, fun instruction assembled => ?_⟩
  obtain ⟨⟨fits, -⟩, rfl⟩ := (assemble_eq_ok_iff fit opcode operands).mp assembled
  refine ⟨carries_joined_iff fit fits, fun room => ?_⟩
  have same : joined opcode operands widths = joined opcode (operands.cut widths) widths := by
    rw [joined, joined, operands.upperBits_cut]
  rw [same, carries_joined_iff fit ((operands.fits_cut widths _).mpr fits)]
  exact ⟨room, operands.lowFits_cut widths _⟩

/-- A call with a low operand of too many bits, which loses some of them. -/
theorem assemble_refuses_of_wide_low :
    ∃ instruction, assemble .call { a := 1, b := 513 } {} = .ok instruction ∧
      instruction.Carries .call { a := 1, b := 1 } :=
  have fit : FieldWidths.Fit {} := ⟨by decide, by decide, by decide⟩
  ⟨_, rfl, ((assemble_refuses fit .call { a := 1, b := 513 }).2 _ rfl).2 (by decide)⟩

/-- A low operand with a bit too many is not refused, and no more is an opcode number with bits too
many for its field; neither can be read again. -/
theorem assemble_of_too_wide :
    (¬ ({ a := 1, b := 512 } : Operands).InRange {} Opcode.call.mode ∧
      assemble .call { a := 1, b := 512 } {} = .ok ⟨32770, {}⟩ ∧
      ¬ Carries ⟨32770, {}⟩ .call { a := 1, b := 512 }) ∧
    ({} : Operands).InRange { opcode := 3 } Opcode.closure.mode ∧
      assemble .closure {} { opcode := 3 } = .ok ⟨48, { opcode := 3 }⟩ ∧
      Instruction.opcode ⟨48, { opcode := 3 }⟩ = .ok .endCode :=
  ⟨⟨by decide, rfl, fun carries => absurd (Except.ok.inj carries.shows.2) (by decide)⟩,
    by decide, rfl, rfl⟩

end Instruction

end LuaLift
