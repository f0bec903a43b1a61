import LuaLift.Text.Basic
import Mathlib.Data.List.Chain

/-! Neighbours in a text. What is forbidden to stand side by side is nowhere in a text if it is in
none of the parts that the text is put together from, nor at a place where two of them meet. A
comment begins with two minus signs side by side. -/
namespace LuaLift.Text

/-- Two symbols are neighbours where they stand in the text one right behind the other. -/
theorem isChain_iff_neighbours {allowed : Symbol → Symbol → Prop} {text : Text} :
    List.IsChain allowed text ↔
      ∀ first second, [first, second] <:+: text → allowed first second := by
  rw [List.isChain_iff_forall_rel_of_append_cons_cons]
  constructor
  · rintro chain first second ⟨before, after, same⟩
    have split : text = before ++ first :: second :: after := by simpa using same.symm
    exact chain split
  · intro each first second before after same
    exact each first second ⟨before, after, by simp [same]⟩

def minus : Symbol := .char '-'

/-- No two minus signs are neighbours. -/
def Commentless (text : Text) : Prop :=
  List.IsChain (fun first second => ¬ (first = minus ∧ second = minus)) text

variable {text left right : Text}

theorem commentless_iff : text.Commentless ↔ ¬ ofString "--" <:+: text := by
  rw [Commentless, isChain_iff_neighbours]
  constructor
  · intro each inside
    exact each minus minus inside ⟨rfl, rfl⟩
  · rintro none first second inside ⟨rfl, rfl⟩
    exact none inside

private theorem commentless_append : (left ++ right).Commentless ↔
    left.Commentless ∧ right.Commentless ∧
      ¬ (left.getLast? = some minus ∧ right.head? = some minus) := by
  rw [Commentless, List.isChain_append]
  refine and_congr_right fun _ => and_congr_right fun _ => ⟨?_, ?_⟩
  · rintro apart ⟨last, head⟩
    exact apart minus last minus head ⟨rfl, rfl⟩
  · rintro apart first last second head ⟨rfl, rfl⟩
    exact apart ⟨last, head⟩

theorem commentless_of_not_mem (absent : minus ∉ text) : text.Commentless := by
  rw [commentless_iff]
  intro inside
  exact absent (inside.subset List.mem_cons_self)

theorem Commentless.within (whole : text.Commentless) (inside : left <:+: text) :
    left.Commentless := by
  rw [commentless_iff] at whole ⊢
  exact fun comment => whole (comment.trans inside)

/-- What may stand before any text without a comment. -/
structure Leads (text : Text) : Prop where
  whole : text.Commentless
  closed : text.getLast? ≠ some minus

/-- What may stand behind any text without a comment. -/
structure Trails (text : Text) : Prop where
  whole : text.Commentless
  opened : text.head? ≠ some minus

theorem leads_of_not_mem (absent : minus ∉ text) : text.Leads :=
  ⟨commentless_of_not_mem absent, fun last => absent (List.mem_of_getLast? last)⟩

theorem trails_of_not_mem (absent : minus ∉ text) : text.Trails :=
  ⟨commentless_of_not_mem absent, fun head => absent (List.mem_of_head? head)⟩

theorem Leads.append (leads : left.Leads) (whole : right.Commentless) :
    (left ++ right).Commentless :=
  commentless_append.mpr ⟨leads.whole, whole, fun meet => leads.closed meet.1⟩

theorem Trails.append (trails : right.Trails) (whole : left.Commentless) :
    (left ++ right).Commentless :=
  commentless_append.mpr ⟨whole, trails.whole, fun meet => trails.opened meet.2⟩

theorem commentless_cons (first : Symbol) (absent : minus ∉ right) :
    Commentless (first :: right) :=
  (trails_of_not_mem absent).append (List.isChain_singleton first)

theorem leads_append (whole : left.Commentless) (absent : minus ∉ right) (filled : right ≠ []) :
    (left ++ right).Leads := by
  refine ⟨(trails_of_not_mem absent).append whole, fun last => ?_⟩
  rw [List.getLast?_append_of_ne_nil left filled] at last
  exact absent (List.mem_of_getLast? last)

theorem trails_append (absent : minus ∉ left) (filled : left ≠ []) (whole : right.Commentless) :
    (left ++ right).Trails := by
  refine ⟨(leads_of_not_mem absent).append whole, fun head => ?_⟩
  rw [List.head?_append_of_ne_nil left filled] at head
  exact absent (List.mem_of_head? head)

theorem minus_mem_ofChars {chars : List Char} : minus ∈ ofChars chars ↔ '-' ∈ chars := by
  simp [ofChars, minus]

end LuaLift.Text
