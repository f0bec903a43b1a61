import LuaLift.Number.Notation

/-! The characters of a number's text. Apart from its digits there is a point, and in front of an
exponent a letter and a sign. -/
namespace LuaLift.Decimal

variable {mark : Char} {digits : List Char} {number : Decimal}

theorem ne_zero_of_not_isDigit (other : mark.isDigit = false) : mark ≠ '0' := by
  rintro rfl
  exact absurd other (by decide)

theorem not_mem_toDigits (other : mark.isDigit = false) (value : Nat) :
    mark ∉ Nat.toDigits 10 value := fun member => by
  rw [Nat.isDigit_of_mem_toDigits (by decide) (by decide) member] at other
  cases other

private theorem not_mem_dropZeros (zero : mark ≠ '0') (absent : mark ∉ digits) :
    mark ∉ dropZeros digits := by
  rw [dropZeros]
  split
  · rwa [List.mem_singleton]
  · intro member
    rw [List.mem_reverse] at member
    exact absent (List.mem_reverse.mp ((List.dropWhile_suffix _).subset member))

theorem not_mem_round (other : mark.isDigit = false) (count : Nat) (value : Rat) :
    mark ∉ (round count value).digits :=
  not_mem_dropZeros (ne_zero_of_not_isDigit other) (not_mem_toDigits other _)

private theorem not_mem_withPoint {whole part : List Char} (point : mark ≠ '.')
    (front : mark ∉ whole) (back : mark ∉ part) : mark ∉ withPoint whole part := by
  rw [withPoint]
  split
  · exact front
  · simp [front, back, point]

theorem not_mem_positional (zero : mark ≠ '0') (point : mark ≠ '.')
    (absent : mark ∉ number.digits) : mark ∉ number.positional := by
  have taken (count : Nat) : mark ∉ number.digits.take count := mt List.mem_of_mem_take absent
  have dropped (count : Nat) : mark ∉ number.digits.drop count := mt List.mem_of_mem_drop absent
  rw [positional]
  split
  · exact not_mem_withPoint point (by simpa using zero) (by simp [absent, List.mem_replicate, zero])
  · exact not_mem_withPoint point (by simp [taken, List.mem_replicate, zero]) (dropped _)

theorem not_mem_mantissa (point : mark ≠ '.') (absent : mark ∉ number.digits) :
    mark ∉ withPoint (number.digits.take 1) (number.digits.drop 1) :=
  not_mem_withPoint point (mt List.mem_of_mem_take absent) (mt List.mem_of_mem_drop absent)

end LuaLift.Decimal
