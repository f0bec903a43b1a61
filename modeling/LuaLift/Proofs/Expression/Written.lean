import LuaLift.Proofs.Expression.Reader
import LuaLift.Proofs.Text.Numeral
import Mathlib.Data.List.Basic

/-! Texts that are read as expressions. Whatever stands before a text and behind it, its reading leads
from one place to another, and each way to put texts together has its rule. -/
namespace LuaLift

namespace Symbol

/-- There are ten digits. -/
theorem exists_of_isDigit {symbol : Symbol} (digit : symbol.isDigit = true) :
    ∃ place : Fin 10, symbol = .char (Char.ofNat (48 + place)) := by
  cases symbol with
  | stray byte => cases digit
  | char value =>
    obtain ⟨low, high⟩ := Char.isDigit_iff_toNat.mp digit
    have least : 48 ≤ value.toNat := low
    have most : value.toNat ≤ 57 := high
    refine ⟨⟨value.toNat - 48, by omega⟩, ?_⟩
    rw [Nat.add_sub_cancel' least, Char.ofNat_toNat]

private theorem not_isLetter_of_isDigit {symbol : Symbol} (digit : symbol.isDigit = true) :
    symbol.isLetter = false := by
  obtain ⟨place, rfl⟩ := exists_of_isDigit digit
  revert place
  decide

end Symbol

namespace Text

/-- Numerals are written with digits, and the digits give the number back. -/
theorem isDigit_of_mem_digits {value : Nat} {symbol : Symbol} (member : symbol ∈ digits value) :
    symbol.isDigit = true := by
  obtain ⟨digit, known, rfl⟩ := mem_digits member
  exact known

private theorem ofDigitChars_digits (value : Nat) :
    Nat.ofDigitChars 10 ((digits value).filterMap Symbol.char?) 0 = value := by
  have chars : (digits value).filterMap Symbol.char? = Nat.toDigits 10 value := by
    rw [digits, ofChars, List.filterMap_map]
    exact List.filterMap_some
  rw [chars, Nat.ofDigitChars_ten_toDigits]

private theorem digits_ne_nil (value : Nat) : digits value ≠ [] := by
  rw [digits, ofChars, Ne, List.map_eq_nil_iff]
  exact Nat.toDigits_ne_nil

/-- Concatenated texts are parted by the mark of the operator between blanks. -/
theorem join_concat (piece next : Text) (rest : List Text) :
    join " .. " (piece :: next :: rest) =
      piece ++ " " ++ BinaryOperator.concat.mark ++ " " ++ join " .. " (next :: rest) := by
  rw [join_cons_cons]
  simp only [List.append_assoc]
  rfl

end Text

namespace Term

namespace Reading

variable {grip : Nat} {reading next : Reading} {symbol : Symbol} {text rest : Text}

private theorem readFrom_cons (stepped : step grip reading symbol = some next) (rest : Text) :
    readFrom grip reading (symbol :: rest) = readFrom grip next rest := by
  rw [readFrom, List.foldlM_cons, stepped]
  rfl

/-- A text that does not go on with a word before it. -/
def Separate (text : Text) : Prop := ∀ symbol ∈ text.head?, symbol.isWord = false

private theorem separate_cons (other : symbol.isWord = false) (rest : Text) :
    Separate (symbol :: rest) := by
  intro head found
  obtain rfl := Option.some.inj found
  exact other

private theorem close_close (closed : reading.close = some next) : next.close = some next := by
  obtain ⟨frames, focus⟩ := reading
  cases focus with
  | word text =>
    simp only [close] at closed
    split at closed
    · obtain rfl := Option.some.inj closed
      rfl
    · split at closed
      · obtain rfl := Option.some.inj closed
        rfl
      · split at closed
        · obtain rfl := Option.some.inj closed
          rfl
        · cases closed
  | _ =>
    obtain rfl := Option.some.inj closed
    rfl

/-- A word is over where the text does not go on with it. -/
theorem readFrom_close (closed : reading.close = some next) (separate : Separate rest) :
    readFrom grip reading rest = readFrom grip next rest := by
  have again := close_close closed
  cases rest with
  | nil =>
    change finish grip reading = finish grip next
    rw [finish, finish, closed, again]
  | cons symbol rest =>
    have same : step grip reading symbol = step grip next symbol := by
      have other : ¬ symbol.isWord = true := by simp [separate symbol rfl]
      rw [step, step, if_neg other, if_neg other, closed, again]
    rw [readFrom, readFrom, List.foldlM_cons, List.foldlM_cons, same]

/-- Whatever follows, the reading of a text leads from one place to another. -/
def Leads (grip : Nat) (text : Text) (reading next : Reading) : Prop :=
  ∀ rest, Separate rest → readFrom grip reading (text ++ rest) = readFrom grip next rest

/-- A word, or the name of a member, goes on with all letters and digits behind it. -/
theorem readFrom_spell {frames : List Frame} {focus : Text → Focus}
    (goes : ∀ got symbol, spell ⟨frames, focus got⟩ symbol = some ⟨frames, focus (got ++ [symbol])⟩)
    {more : Text} (word : more.all Symbol.isWord = true) (got rest : Text) :
    readFrom grip ⟨frames, focus got⟩ (more ++ rest) =
      readFrom grip ⟨frames, focus (got ++ more)⟩ rest := by
  induction more generalizing got with
  | nil => rw [List.nil_append, List.append_nil]
  | cons symbol more ih =>
    rw [List.all_cons, Bool.and_eq_true] at word
    have stepped : step grip ⟨frames, focus got⟩ symbol =
        some ⟨frames, focus (got ++ [symbol])⟩ := by
      rw [step, if_pos word.1, goes]
    rw [List.cons_append, readFrom_cons stepped, ih word.2, List.append_assoc,
      List.singleton_append]

/-- A whole word leads to what it stands for. -/
theorem leads_word {first : Symbol} {more : Text} (frames : List Frame) (dash : Bool)
    (word : (first :: more).all Symbol.isWord = true)
    (closed : close ⟨frames, .word (first :: more)⟩ = some next) :
    Leads grip (first :: more) ⟨frames, .start dash⟩ next := by
  intro rest separate
  rw [List.all_cons, Bool.and_eq_true] at word
  have begun : step grip ⟨frames, .start dash⟩ first = some ⟨frames, .word [first]⟩ := by
    rw [step, if_pos word.1]
    rfl
  rw [List.cons_append, readFrom_cons begun, readFrom_spell (fun _ _ => rfl) word.2,
    List.singleton_append, readFrom_close closed separate]

/-- The name of a member behind its dot. -/
theorem leads_member {field : Text} (frames : List Frame) (table : Term)
    (identifier : field.isIdentifier = true) :
    Leads grip ("." ++ field) ⟨frames, .operand table⟩ ⟨frames, .operand (.member table field)⟩ := by
  intro rest separate
  cases field with
  | nil => cases identifier
  | cons first more =>
    simp only [Text.isIdentifier, Bool.and_eq_true] at identifier
    obtain ⟨letter, word⟩ := identifier
    have begun : step grip ⟨frames, .dot table⟩ first = some ⟨frames, .member table [first]⟩ := by
      rw [step, if_pos (by rw [Symbol.isWord, letter, Bool.true_or])]
      exact if_pos letter
    have dotted : step grip ⟨frames, .operand table⟩ (.char '.') = some ⟨frames, .dot table⟩ := rfl
    change readFrom grip _ (.char '.' :: (first :: more ++ rest)) = _
    rw [readFrom_cons dotted, List.cons_append, readFrom_cons begun,
      readFrom_spell (fun _ _ => rfl) word]
    exact readFrom_close rfl separate

end Reading

open Reading

variable {grip priority : Nat} {text left right : Text} {term first second function table key : Term}

/-- A text that is a whole operand wherever one may begin. -/
def Closed (grip : Nat) (text : Text) (term : Term) : Prop :=
  ∀ frames dash, Leads grip text ⟨frames, .start dash⟩ ⟨frames, .operand term⟩

/-- A text that is read as an operand where one is drawn from behind with some priority. -/
def Drawn (grip priority : Nat) (text : Text) (term : Term) : Prop :=
  ∀ frames, ∃ inner last,
    Leads grip text ⟨frames, .start false⟩ ⟨inner, .operand last⟩ ∧
      settle grip priority last inner = settle grip priority term frames

/-- A text that is read as a term, as long as nothing before it takes an operand that is drawn from
behind with some priority. -/
def Flows (grip priority : Nat) (text : Text) (term : Term) : Prop :=
  ∀ frames, (∀ operand, settle grip priority operand frames = (operand, frames)) →
    ∃ inner last, Leads grip text ⟨frames, .start false⟩ ⟨inner, .operand last⟩ ∧
      settle grip 0 last inner = settle grip 0 term frames

/-- A text that is read as a term where nothing before it draws on it. -/
def Written (grip : Nat) (text : Text) (term : Term) : Prop :=
  ∃ priority, Flows grip priority text term

theorem closed_name (name : text.isIdentifier = true) (free : text ≠ Text.ofString "not") :
    Closed grip text (.name text) := by
  intro frames dash
  cases text with
  | nil => cases name
  | cons first more =>
    have word : (first :: more).all Symbol.isWord = true := by
      simp only [Text.isIdentifier, Bool.and_eq_true] at name
      rw [List.all_cons, Symbol.isWord, name.1, Bool.true_or, Bool.true_and]
      exact name.2
    exact leads_word frames dash word (by simp only [close, if_neg free, if_pos name])

theorem closed_digits (value : Nat) : Closed grip (Text.digits value) (.number value) := by
  intro frames dash
  have digits : ∀ symbol ∈ Text.digits value, symbol.isDigit = true := fun _ =>
    Text.isDigit_of_mem_digits
  have reads := Text.ofDigitChars_digits value
  cases written : Text.digits value with
  | nil => exact absurd written (Text.digits_ne_nil value)
  | cons first more =>
    rw [written] at digits reads
    have all : (first :: more).all Symbol.isDigit = true := List.all_eq_true.mpr digits
    have word : (first :: more).all Symbol.isWord = true := by
      refine List.all_eq_true.mpr fun symbol member => ?_
      rw [Symbol.isWord, digits symbol member, Bool.or_true]
    have other : ¬ Text.isIdentifier (first :: more) = true := by
      rw [Text.isIdentifier, Symbol.not_isLetter_of_isDigit (digits first List.mem_cons_self),
        Bool.false_and]
      exact Bool.false_ne_true
    have free : first :: more ≠ Text.ofString "not" := by
      intro same
      obtain ⟨rfl, _⟩ := List.cons.inj same
      exact absurd (digits _ List.mem_cons_self) (by decide)
    exact leads_word frames dash word
      (by simp only [close, if_neg free, if_neg other, if_pos all, reads])

theorem Closed.drawn (closed : Closed grip text term) (priority : Nat) :
    Drawn grip priority text term :=
  fun frames => ⟨frames, term, closed frames false, rfl⟩

/-- A sign in front of a closed text holds it. -/
theorem Closed.minus (closed : Closed grip text term) (held : priority ≤ grip) :
    Drawn grip priority ("-" ++ text) (.unary .minus term) := by
  intro frames
  refine ⟨.unary .minus :: frames, term, ?_, ?_⟩
  · intro rest separate
    have signed : step grip ⟨frames, .start false⟩ (.char '-') =
        some ⟨.unary .minus :: frames, .start true⟩ := rfl
    change readFrom grip _ (.char '-' :: (text ++ rest)) = _
    rw [readFrom_cons signed]
    exact closed _ _ rest separate
  · rw [settle, if_pos held]

theorem Drawn.not (drawn : Drawn grip 0 text term) :
    Drawn grip 0 ("not " ++ text) (.unary .not term) := by
  intro frames
  obtain ⟨inner, last, leads, settled⟩ := drawn (.unary .not :: frames)
  refine ⟨inner, last, ?_, ?_⟩
  · intro rest separate
    have word : Leads grip "not" ⟨frames, .start false⟩ ⟨.unary .not :: frames, .start false⟩ :=
      leads_word frames false (by decide) rfl
    have paused : step grip ⟨.unary .not :: frames, .start false⟩ Text.space =
        some ⟨.unary .not :: frames, .start false⟩ := rfl
    have whole : "not " ++ text ++ rest = "not" ++ Text.space :: (text ++ rest) := rfl
    rw [whole, word _ (separate_cons (by decide) _), readFrom_cons paused]
    exact leads rest separate
  · rw [settled, settle, if_pos (Nat.zero_le _)]

private theorem Drawn.flows (drawn : Drawn grip 0 text term) (priority : Nat) :
    Flows grip priority text term :=
  fun frames _ => drawn frames

theorem Drawn.written (drawn : Drawn grip 0 text term) : Written grip text term :=
  ⟨0, drawn.flows 0⟩

theorem Closed.written (closed : Closed grip text term) : Written grip text term :=
  (closed.drawn 0).written

/-- Behind a frame that holds nothing a text is read until the frame is met again. -/
theorem Written.leads (written : Written grip text term) (frame : Frame) (frames : List Frame)
    (stop : ∀ priority operand,
      settle grip priority operand (frame :: frames) = (operand, frame :: frames)) :
    ∃ inner last, Leads grip text ⟨frame :: frames, .start false⟩ ⟨inner, .operand last⟩ ∧
      settle grip 0 last inner = (term, frame :: frames) := by
  obtain ⟨priority, flows⟩ := written
  obtain ⟨inner, last, leads, settled⟩ := flows (frame :: frames) (stop priority)
  exact ⟨inner, last, leads, settled.trans (stop 0 term)⟩

theorem Written.parenthesized (written : Written grip text term) :
    Closed grip ("(" ++ text ++ ")") term := by
  intro frames dash rest _
  obtain ⟨inner, last, leads, settled⟩ :=
    written.leads .parenthesis frames fun _ _ => rfl
  have opened : step grip ⟨frames, .start dash⟩ (.char '(') =
      some ⟨.parenthesis :: frames, .start false⟩ := by cases dash <;> rfl
  have closed : step grip ⟨inner, .operand last⟩ (.char ')') = some ⟨frames, .operand term⟩ := by
    change meet grip ⟨inner, .operand last⟩ .closing = _
    simp only [meet, settled]
  have whole : "(" ++ text ++ ")" ++ rest = .char '(' :: (text ++ .char ')' :: rest) := by
    simp only [List.append_assoc]
    rfl
  rw [whole, readFrom_cons opened, leads _ (separate_cons (by decide) _), readFrom_cons closed]

/-- An operator between blanks, behind an operand that it draws. -/
theorem readFrom_mark {operator : BinaryOperator} {inner frames : List Frame} {last : Term}
    (settled : settle grip operator.leftPriority last inner = (first, frames)) (rest : Text) :
    readFrom grip ⟨inner, .operand last⟩ (Text.space :: (operator.mark ++ Text.space :: rest)) =
      readFrom grip ⟨.binary operator first :: frames, .start false⟩ rest := by
  have drawn : draw grip operator last inner =
      ⟨.binary operator first :: frames, .start (operator = .subtract)⟩ := by
    simp only [draw, settled]
  have before : step grip ⟨inner, .operand last⟩ Text.space = some ⟨inner, .operand last⟩ := rfl
  have behind : step grip ⟨.binary operator first :: frames, .start (operator = .subtract)⟩
      Text.space = some ⟨.binary operator first :: frames, .start false⟩ := rfl
  rw [readFrom_cons before]
  cases operator with
  | concat =>
    have dotted : step grip ⟨inner, .operand last⟩ (.char '.') = some ⟨inner, .dot last⟩ := rfl
    have marked : step grip ⟨inner, .dot last⟩ (.char '.') = some _ := congrArg some drawn
    exact (readFrom_cons dotted _).trans ((readFrom_cons marked _).trans (readFrom_cons behind _))
  | add | subtract | multiply | divide | power =>
    refine (readFrom_cons ?_ (Text.space :: rest)).trans (readFrom_cons behind rest)
    exact congrArg some drawn

/-- An operator takes all behind it that is drawn more strongly than it holds it. -/
theorem Drawn.binary {operator : BinaryOperator}
    (front : Drawn grip operator.leftPriority left first) (back : Flows grip priority right second)
    (stronger : operator.rightPriority < priority) :
    Flows grip operator.leftPriority (left ++ " " ++ operator.mark ++ " " ++ right)
      (.binary operator first second) := by
  intro frames free
  obtain ⟨inner, last, leads, settled⟩ := front frames
  have passes : ∀ operand, settle grip priority operand (.binary operator first :: frames) =
      (operand, .binary operator first :: frames) := by
    intro operand
    rw [settle, if_neg (by omega)]
  obtain ⟨deeper, final, follows, held⟩ := back (.binary operator first :: frames) passes
  refine ⟨deeper, final, ?_, ?_⟩
  · intro rest separate
    have whole : left ++ " " ++ operator.mark ++ " " ++ right ++ rest =
        left ++ Text.space :: (operator.mark ++ Text.space :: (right ++ rest)) := by
      simp only [List.append_assoc]
      rfl
    rw [whole, leads _ (separate_cons (by decide) _), readFrom_mark (settled.trans (free first))]
    exact follows rest separate
  · rw [held, settle, if_pos (Nat.zero_le _)]

/-- A text that may stand beside an operator: a whole operand, or a numeral with a sign. -/
def Operand (grip : Nat) (text : Text) (term : Term) : Prop :=
  Closed grip text term ∨
    ∃ value, text = "-" ++ Text.digits value ∧ term = .unary .minus (.number value)

theorem Operand.drawn (operand : Operand grip text term) (held : priority ≤ grip) :
    Drawn grip priority text term := by
  rcases operand with closed | ⟨value, rfl, rfl⟩
  · exact closed.drawn priority
  · exact (closed_digits value).minus held

theorem Operand.binary (operator : BinaryOperator)
    (front : Drawn grip operator.leftPriority left first) (back : Operand grip right second) :
    Written grip (left ++ " " ++ operator.mark ++ " " ++ right) (.binary operator first second) :=
  ⟨_, front.binary ((back.drawn (Nat.zero_le _)).flows _) (Nat.lt_succ_self _)⟩

theorem Operand.chain (held : BinaryOperator.concat.leftPriority ≤ grip) {texts : List Text}
    {terms : List Term} (front : Operand grip text term)
    (others : List.Forall₂ (Operand grip) texts terms) :
    Written grip (Text.join " .. " (text :: texts)) (Term.chain term terms) := by
  refine ⟨BinaryOperator.concat.leftPriority, ?_⟩
  induction others generalizing text term with
  | nil =>
    rw [Text.join_singleton]
    exact (front.drawn (Nat.zero_le _)).flows _
  | @cons next after texts terms here rest ih =>
    rw [Text.join_concat]
    exact (front.drawn held).binary (ih here) (by decide)

/-- Arguments, of which the last one is in front of the closing parenthesis. -/
theorem readFrom_arguments {texts : List Text} {terms : List Term} (here : Written grip text term)
    (others : List.Forall₂ (Written grip) texts terms) (before : Term) (frames : List Frame)
    (rest : Text) :
    readFrom grip ⟨.arguments before :: frames, .start false⟩
        (Text.join ", " (text :: texts) ++ .char ')' :: rest) =
      readFrom grip ⟨frames, .operand ((term :: terms).foldl passed before)⟩ rest := by
  induction others generalizing text term before with
  | nil =>
    obtain ⟨inner, last, leads, settled⟩ :=
      here.leads (.arguments before) frames fun _ _ => rfl
    have closed : step grip ⟨inner, .operand last⟩ (.char ')') =
        some ⟨frames, .operand (.passed before term)⟩ := by
      change meet grip ⟨inner, .operand last⟩ .closing = _
      simp only [meet, settled]
    rw [Text.join_singleton, leads _ (separate_cons (by decide) _), readFrom_cons closed]
    rfl
  | @cons next after texts terms more others ih =>
    obtain ⟨inner, last, leads, settled⟩ :=
      here.leads (.arguments before) frames fun _ _ => rfl
    have parted : step grip ⟨inner, .operand last⟩ (.char ',') =
        some ⟨.arguments (.passed before term) :: frames, .start false⟩ := by
      change meet grip ⟨inner, .operand last⟩ .comma = _
      simp only [meet, settled]
    have paused : step grip ⟨.arguments (.passed before term) :: frames, .start false⟩ Text.space =
        some ⟨.arguments (.passed before term) :: frames, .start false⟩ := rfl
    have joined : Text.join ", " (text :: next :: texts) ++ .char ')' :: rest =
        text ++ .char ',' :: Text.space :: (Text.join ", " (next :: texts) ++ .char ')' :: rest) := by
      rw [Text.join_cons_cons]
      simp only [List.append_assoc]
      rfl
    rw [joined, leads _ (separate_cons (by decide) _), readFrom_cons parted, readFrom_cons paused,
      ih more]
    rfl

theorem Closed.call {texts : List Text} {terms : List Term} (callee : Closed grip text function)
    (arguments : List.Forall₂ (Written grip) texts terms) :
    Closed grip (text ++ "(" ++ Text.join ", " texts ++ ")") (applied function terms) := by
  intro frames dash rest _
  have opened : step grip ⟨frames, .operand function⟩ (.char '(') =
      some ⟨.arguments (.call function) :: frames, .start false⟩ := rfl
  have whole : text ++ "(" ++ Text.join ", " texts ++ ")" ++ rest =
      text ++ .char '(' :: (Text.join ", " texts ++ .char ')' :: rest) := by
    simp only [List.append_assoc]
    rfl
  rw [whole, callee frames dash _ (separate_cons (by decide) _), readFrom_cons opened]
  cases arguments with
  | nil =>
    have closed : step grip ⟨.arguments (.call function) :: frames, .start false⟩ (.char ')') =
        some ⟨frames, .operand (.call function)⟩ := rfl
    exact readFrom_cons closed rest
  | cons here others => exact readFrom_arguments here others (.call function) frames rest

theorem Closed.index (item : Closed grip left table) (written : Written grip right key) :
    Closed grip (left ++ "[" ++ right ++ "]") (.index table key) := by
  intro frames dash rest _
  obtain ⟨inner, last, leads, settled⟩ :=
    written.leads (.key table) frames fun _ _ => rfl
  have opened : step grip ⟨frames, .operand table⟩ (.char '[') =
      some ⟨.key table :: frames, .start false⟩ := rfl
  have closed : step grip ⟨inner, .operand last⟩ (.char ']') =
      some ⟨frames, .operand (.index table key)⟩ := by
    change meet grip ⟨inner, .operand last⟩ .unbracket = _
    simp only [meet, settled]
  have whole : left ++ "[" ++ right ++ "]" ++ rest =
      left ++ .char '[' :: (right ++ .char ']' :: rest) := by
    simp only [List.append_assoc]
    rfl
  rw [whole, item frames dash _ (separate_cons (by decide) _), readFrom_cons opened,
    leads _ (separate_cons (by decide) _), readFrom_cons closed]

theorem Closed.member {field : Text} (item : Closed grip text table)
    (identifier : field.isIdentifier = true) :
    Closed grip (text ++ "." ++ field) (.member table field) := by
  intro frames dash rest separate
  have whole : text ++ "." ++ field ++ rest = text ++ .char '.' :: (field ++ rest) := by
    simp only [List.append_assoc]
    rfl
  rw [whole, item frames dash _ (separate_cons (by decide) _)]
  exact leads_member frames table identifier rest separate

/-- A dash in front of a whole operand would begin a comment behind another one. -/
theorem Closed.head (closed : Closed grip text term) : text.head? ≠ some (.char '-') := by
  intro same
  obtain ⟨rest, rfl⟩ := List.head?_eq_some_iff.mp same
  have read := closed [] true [] nofun
  cases read

/-- A whole text is read as the term that it was written for. -/
theorem Written.read? (written : Written grip text term) : Term.read? grip text = some term := by
  obtain ⟨priority, flows⟩ := written
  obtain ⟨inner, last, leads, settled⟩ := flows [] fun _ => rfl
  have ended : finish grip ⟨inner, .operand last⟩ = some term := by
    change _ = (term, []) at settled
    simp [finish, close, settled]
  have read := leads [] nofun
  rw [List.append_nil] at read
  exact read.trans ended

example : read? 7 "-a ^ 2 ^ b .. c .. d * e - f" =
    some (.binary .concat (.unary .minus (.binary .power (.name "a")
      (.binary .power (.number 2) (.name "b"))))
      (.binary .concat (.name "c")
        (.binary .subtract (.binary .multiply (.name "d") (.name "e")) (.name "f")))) := by
  decide

end Term

end LuaLift
