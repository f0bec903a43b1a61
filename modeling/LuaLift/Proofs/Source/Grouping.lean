import LuaLift.Proofs.Expression.Written
import LuaLift.Proofs.Forest.Ownership
import LuaLift.Proofs.Source.Operands

/-! Calls and items of tables among operators. A call stands behind what it calls, and an item behind
its table, both of them without parentheses. Where neither is an operator or a literal with a sign,
the text of a whole tree tells how it is grouped. -/
namespace LuaLift

/-- What is written right behind its first operand: a call, or an item of a table. -/
def Opcode.isSuffix : Opcode → Bool
  | call | getTable | getDotted | getIndexed => true
  | _ => false

/-- Only a power draws what is before it more strongly than a sign holds it. -/
theorem Opcode.power_of_binary {opcode : Opcode} {operator : BinaryOperator}
    (binary : opcode.binary? = some operator)
    (strong : UnaryOperator.minus.priority < operator.leftPriority) :
    opcode = .power ∧ operator = .power := by
  cases opcode <;> cases binary <;> first | exact ⟨rfl, rfl⟩ | exact absurd strong (by decide)

namespace Node

def IsOperator (node : Node) : Prop :=
  ∃ opcode, node.instruction.opcode = .ok opcode ∧ opcode.isCompound = true

instance (node : Node) : Decidable node.IsOperator := decidableOkAnd

/-- A literal below zero, which is written with a sign. -/
def IsNegative (node : Node) : Prop :=
  node.instruction.opcode = .ok .pushInt ∧ ∃ value, node.instruction.s = .ok value ∧ value < 0

instance (node : Node) : Decidable node.IsNegative :=
  inferInstanceAs (Decidable (node.instruction.opcode = .ok .pushInt ∧
    ∃ value, node.instruction.s = .ok value ∧ value < 0))

/-- What is called, and what an item is taken from, is neither an operator nor a negative literal. -/
def Grouped (node : Node) : Prop :=
  ∀ opcode, node.instruction.opcode = .ok opcode → opcode.isSuffix = true →
    ∀ first ∈ node.children.getLast?, ¬ first.IsOperator ∧ ¬ first.IsNegative

instance (node : Node) : Decidable node.Grouped :=
  inferInstanceAs (Decidable (∀ opcode, node.instruction.opcode = .ok opcode →
    opcode.isSuffix = true →
    ∀ first ∈ node.children.getLast?, ¬ first.IsOperator ∧ ¬ first.IsNegative))

/-- What is raised to a power is not a negative literal. -/
def Raised (node : Node) : Prop :=
  node.instruction.opcode = .ok .power → ∀ base ∈ node.children.getLast?, ¬ base.IsNegative

instance (node : Node) : Decidable node.Raised :=
  inferInstanceAs (Decidable (node.instruction.opcode = .ok .power →
    ∀ base ∈ node.children.getLast?, ¬ base.IsNegative))

end Node

namespace Scope

variable {scope : Scope} {node : Node} {opcode : Opcode} {grip : Nat}

/-- A tree of operators, calls with one result and items of tables over names and numerals, with the
term that it stands for. A literal below zero is a sign in front of a numeral. -/
inductive Denotes (scope : Scope) : Node → Term → Prop where
  | global {instruction : Instruction} {index place : Int} {name : Text}
      (opcode : instruction.opcode = .ok .getGlobal) (reads : instruction.u = .ok place)
      (found : itemAt? scope.strings place = some name)
      (identifier : name.isIdentifier = true) (free : name ≠ Text.ofString "not") :
    Denotes scope ⟨instruction, [], index⟩ (.name name)
  | slot {instruction : Instruction} {index place : Int} {name : Text}
      (opcode : instruction.opcode = .ok .getLocal) (reads : instruction.u = .ok place)
      (named : scope.localName place = .ok name)
      (identifier : name.isIdentifier = true) (free : name ≠ Text.ofString "not") :
    Denotes scope ⟨instruction, [], index⟩ (.name name)
  | numeral {instruction : Instruction} {index value : Int}
      (opcode : instruction.opcode = .ok .pushInt) (reads : instruction.s = .ok value)
      (nonneg : 0 ≤ value) :
    Denotes scope ⟨instruction, [], index⟩ (.number value.natAbs)
  | negative {instruction : Instruction} {index value : Int}
      (opcode : instruction.opcode = .ok .pushInt) (reads : instruction.s = .ok value)
      (below : value < 0) :
    Denotes scope ⟨instruction, [], index⟩ (.unary .minus (.number value.natAbs))
  | binary {instruction : Instruction} {index : Int} {opcode : Opcode} {operator : BinaryOperator}
      {earlier later : Node} {left right : Term}
      (known : instruction.opcode = .ok opcode) (binary : opcode.binary? = some operator)
      (first : Denotes scope earlier left) (second : Denotes scope later right) :
    Denotes scope ⟨instruction, [later, earlier], index⟩ (.binary operator left right)
  | sum {instruction : Instruction} {index amount : Int} {operand : Node} {term : Term}
      (opcode : instruction.opcode = .ok .addInt) (literal : instruction.s = .ok amount)
      (nonneg : 0 ≤ amount) (only : Denotes scope operand term) :
    Denotes scope ⟨instruction, [operand], index⟩ (.binary .add term (.number amount.natAbs))
  | difference {instruction : Instruction} {index amount : Int} {operand : Node} {term : Term}
      (opcode : instruction.opcode = .ok .addInt) (literal : instruction.s = .ok amount)
      (below : amount < 0) (only : Denotes scope operand term) :
    Denotes scope ⟨instruction, [operand], index⟩ (.binary .subtract term (.number amount.natAbs))
  | concat {instruction : Instruction} {index : Int} {operands : List Node}
      {first second : Term} {others : List Term}
      (opcode : instruction.opcode = .ok .concat) (count : instruction.u = .ok operands.length)
      (all : List.Forall₂ (Denotes scope) operands.reverse (first :: second :: others)) :
    Denotes scope ⟨instruction, operands, index⟩ (.chain first (second :: others))
  | minus {instruction : Instruction} {index : Int} {operand : Node} {term : Term}
      (opcode : instruction.opcode = .ok .minus) (only : Denotes scope operand term) :
    Denotes scope ⟨instruction, [operand], index⟩ (.unary .minus term)
  | not {instruction : Instruction} {index : Int} {operand : Node} {term : Term}
      (opcode : instruction.opcode = .ok .not) (only : Denotes scope operand term) :
    Denotes scope ⟨instruction, [operand], index⟩ (.unary .not term)
  | call {instruction : Instruction} {index : Int} {function : Node} {arguments : List Node}
      {callee : Term} {terms : List Term}
      (opcode : instruction.opcode = .ok .call) (count : instruction.a = .ok arguments.length)
      (result : instruction.b = .ok 1) (first : Denotes scope function callee)
      (all : List.Forall₂ (Denotes scope) arguments terms) :
    Denotes scope ⟨instruction, (function :: arguments).reverse, index⟩ (.applied callee terms)
  | item {instruction : Instruction} {index : Int} {table key : Node} {record place : Term}
      (opcode : instruction.opcode = .ok .getTable)
      (first : Denotes scope table record) (second : Denotes scope key place) :
    Denotes scope ⟨instruction, [key, table], index⟩ (.index record place)
  | member {instruction : Instruction} {index place : Int} {table : Node} {record : Term}
      {field : Text} (opcode : instruction.opcode = .ok .getDotted)
      (reads : instruction.u = .ok place) (found : itemAt? scope.strings place = some field)
      (identifier : field.isIdentifier = true) (only : Denotes scope table record) :
    Denotes scope ⟨instruction, [table], index⟩ (.member record field)
  | indexed {instruction : Instruction} {index place : Int} {table : Node} {record : Term}
      {name : Text} (opcode : instruction.opcode = .ok .getIndexed)
      (reads : instruction.u = .ok place) (named : scope.localName place = .ok name)
      (identifier : name.isIdentifier = true) (free : name ≠ Text.ofString "not")
      (only : Denotes scope table record) :
    Denotes scope ⟨instruction, [table], index⟩ (.index record (.name name))

/-- The text of the node is read as the term. It is a whole operand, unless the node is an operator
or a literal with a sign, and such a literal may at least stand beside an operator. -/
structure Shows (grip : Nat) (scope : Scope) (node : Node) (text : Text) (term : Term) : Prop
    extends scope.Gives node text where
  written : Term.Written grip text term
  operand : ¬ node.IsOperator → Term.Operand grip text term
  closed : ¬ node.IsOperator → ¬ node.IsNegative → Term.Closed grip text term

namespace Shows

variable {text left right : Text} {term first second : Term} {instruction : Instruction}
  {index place : Int} {operand earlier later table : Node}

/-- As an operand of an operator a node is whole, unless it is a literal with a sign. -/
theorem wraps (shows : Shows grip scope node text term) :
    ∃ shown, scope.Wraps node shown ∧ Term.Operand grip shown term ∧
      (¬ node.IsNegative → Term.Closed grip shown term) := by
  obtain ⟨opcode, known⟩ := Instruction.opcode_of_pushes shows.single
  have wraps := shows.toGives.wraps known
  cases compound : opcode.isCompound with
  | true =>
    rw [compound, if_pos rfl] at wraps
    have whole := shows.written.parenthesized
    exact ⟨"(" ++ text ++ ")", wraps, .inl whole, fun _ => whole⟩
  | false =>
    rw [compound, if_neg Bool.false_ne_true] at wraps
    have simple : ¬ node.IsOperator := by
      rintro ⟨other, also, compounds⟩
      obtain rfl := Except.ok.inj (known.symm.trans also)
      rw [compound] at compounds
      cases compounds
    exact ⟨text, wraps, shows.operand simple, shows.closed simple⟩

/-- A whole operand stands for its term wherever the node is. -/
theorem of_closed (single : node.instruction.pushes = .ok 1)
    (rendered : (scope.nodeText node).outcome = .ok text) (closed : Term.Closed grip text term) :
    Shows grip scope node text term :=
  ⟨⟨single, rendered⟩, closed.written, fun _ => .inl closed, fun _ _ => closed⟩

private theorem of_operator (known : node.instruction.opcode = .ok opcode)
    (single : opcode.pushes = .fixed 1) (compound : opcode.isCompound = true)
    (rendered : (scope.nodeText node).outcome = .ok text) (written : Term.Written grip text term) :
    Shows grip scope node text term := by
  have operator : node.IsOperator := ⟨opcode, known, compound⟩
  exact ⟨⟨Instruction.pushes_of_single known single, rendered⟩, written,
    fun other => absurd operator other, fun other => absurd operator other⟩

private theorem negative {value : Int} (scope : Scope)
    (known : node.instruction.opcode = .ok .pushInt)
    (reads : node.instruction.s = .ok value) (below : value < 0) :
    Shows grip scope node (Text.decimal value) (.unary .minus (.number value.natAbs)) := by
  have shown : Text.decimal value = "-" ++ Text.digits value.natAbs := Text.decimal_of_neg below
  have drawn := (Term.closed_digits value.natAbs).minus (Nat.zero_le grip)
  refine ⟨⟨Instruction.pushes_of_single known rfl, nodeText_pushInt scope known reads⟩, ?_,
    fun _ => .inr ⟨value.natAbs, shown, rfl⟩, fun _ other => absurd ⟨known, value, reads, below⟩ other⟩
  rw [shown]
  exact drawn.written

private theorem binary {operator : BinaryOperator} (index : Int)
    (known : instruction.opcode = .ok opcode) (binary : opcode.binary? = some operator)
    (held : UnaryOperator.minus.priority ≤ grip)
    (raised : BinaryOperator.power.leftPriority ≤ grip ∨
      Node.Raised ⟨instruction, [later, earlier], index⟩)
    (front : Shows grip scope earlier left first) (back : Shows grip scope later right second) :
    ∃ text, Shows grip scope ⟨instruction, [later, earlier], index⟩ text
      (.binary operator first second) := by
  obtain ⟨before, wrapsFront, operandFront, closedFront⟩ := front.wraps
  obtain ⟨behind, wrapsBack, operandBack, _⟩ := back.wraps
  have drawn : Term.Drawn grip operator.leftPriority before first := by
    by_cases weak : operator.leftPriority ≤ grip
    · exact operandFront.drawn weak
    · obtain ⟨rfl, rfl⟩ := Opcode.power_of_binary binary
        (Nat.lt_of_le_of_lt held (Nat.not_le.mp weak))
      have bare := raised.resolve_left weak known earlier rfl
      exact (closedFront bare).drawn _
  exact ⟨_, of_operator known (Opcode.pushes_of_binary binary)
    (Opcode.isCompound_of_binary binary) (nodeText_binary index known binary wrapsFront wrapsBack)
    (operandBack.binary operator drawn)⟩

private theorem addInt {amount : Int} (index : Int) (known : instruction.opcode = .ok .addInt)
    (literal : instruction.s = .ok amount) (held : UnaryOperator.minus.priority ≤ grip)
    (only : Shows grip scope operand text term) :
    ∃ text, Shows grip scope ⟨instruction, [operand], index⟩ text
      (.binary (if amount < 0 then .subtract else .add) term (.number amount.natAbs)) := by
  obtain ⟨shown, wraps, taken, _⟩ := only.wraps
  have digits : Term.Operand grip (Text.digits amount.natAbs) (.number amount.natAbs) :=
    .inl (Term.closed_digits amount.natAbs)
  refine ⟨_, of_operator known rfl rfl (nodeText_addInt index known literal wraps)
    (digits.binary _ (taken.drawn ?_))⟩
  split <;> exact Nat.le_trans (by decide) held

private theorem minus (index : Int) (known : instruction.opcode = .ok .minus)
    (only : Shows grip scope operand text term) :
    ∃ text, Shows grip scope ⟨instruction, [operand], index⟩ text (.unary .minus term) := by
  obtain ⟨shown, wraps, taken, _⟩ := only.wraps
  have rendered := nodeText_minus index known wraps
  rcases taken with closed | ⟨value, rfl, rfl⟩
  · rw [if_neg closed.head] at rendered
    exact ⟨_, of_operator known rfl rfl rendered (closed.minus (Nat.zero_le _)).written⟩
  · have signed : ("-" ++ Text.digits value : Text).head? = some (.char '-') := rfl
    rw [if_pos signed] at rendered
    have inner := ((Term.closed_digits value).minus (Nat.zero_le grip)).written.parenthesized
    exact ⟨_, of_operator known rfl rfl rendered (inner.minus (Nat.zero_le _)).written⟩

private theorem not (index : Int) (known : instruction.opcode = .ok .not)
    (only : Shows grip scope operand text term) :
    ∃ text, Shows grip scope ⟨instruction, [operand], index⟩ text (.unary .not term) := by
  obtain ⟨shown, wraps, taken, _⟩ := only.wraps
  exact ⟨_, of_operator known rfl rfl (nodeText_not index known wraps)
    (taken.drawn (Nat.zero_le _)).not.written⟩

private theorem concat {operands : List Node} {others : List Term} (index : Int)
    (known : instruction.opcode = .ok .concat) (count : instruction.u = .ok operands.length)
    (held : UnaryOperator.minus.priority ≤ grip)
    (all : List.Forall₂ (fun operand term => ∃ text, Shows grip scope operand text term)
      operands.reverse (first :: others)) :
    ∃ text, Shows grip scope ⟨instruction, operands, index⟩ text (.chain first others) := by
  have each : List.Forall₂ (fun operand term => ∃ text, scope.Wraps operand text ∧
      Term.Operand grip text term) operands.reverse (first :: others) := by
    refine all.imp fun operand term here => ?_
    obtain ⟨_, shows⟩ := here
    obtain ⟨text, wraps, taken, _⟩ := shows.wraps
    exact ⟨text, wraps, taken⟩
  obtain ⟨texts, wraps, taken⟩ := exists_forall₂ each
  have rendered := nodeText_concat index known count wraps
  obtain ⟨text, rest, front, others, rfl⟩ := List.forall₂_cons_right_iff.mp taken
  exact ⟨_, of_operator known rfl rfl rendered
    (front.chain (Nat.le_trans (by decide) held) others)⟩

/-- What a call or an item follows is a whole operand where it is grouped. -/
theorem closed_first {children : List Node} (front : Shows grip scope table text term)
    (grouped : Node.Grouped ⟨instruction, children, index⟩)
    (known : instruction.opcode = .ok opcode) (suffix : opcode.isSuffix = true)
    (head : children.getLast? = some table) :
    Term.Closed grip text term := by
  obtain ⟨simple, unsigned⟩ := grouped opcode known suffix table head
  exact front.closed simple unsigned

private theorem call {arguments : List Node} {terms : List Term} (index : Int)
    (known : instruction.opcode = .ok .call) (count : instruction.a = .ok arguments.length)
    (result : instruction.b = .ok 1)
    (grouped : Node.Grouped ⟨instruction, (table :: arguments).reverse, index⟩)
    (front : Shows grip scope table text term)
    (all : List.Forall₂ (fun argument term => ∃ text, Shows grip scope argument text term)
      arguments terms) :
    ∃ text, Shows grip scope ⟨instruction, (table :: arguments).reverse, index⟩ text
      (.applied term terms) := by
  have single : instruction.pushes = .ok 1 := by
    rw [Instruction.pushes_of_opcode known]
    change (instruction.b >>= fun value => pure (1 * value + 0)) = _
    rw [result]
    rfl
  have each : List.Forall₂ (fun argument term => ∃ text, scope.Gives argument text ∧
      Term.Written grip text term) arguments terms := by
    refine all.imp fun argument term here => ?_
    obtain ⟨text, shows⟩ := here
    exact ⟨text, shows.toGives, shows.written⟩
  obtain ⟨texts, given, written⟩ := exists_forall₂ each
  have whole := front.closed_first grouped known rfl (by simp)
  exact ⟨_, of_closed single (nodeText_call index known count front.toGives given)
    (whole.call written)⟩

end Shows

/-- A tree has a text that is read as its term where every call and every item in it is grouped, and
no sign is drawn away by a power. -/
theorem Denotes.shows {term : Term} (held : UnaryOperator.minus.priority ≤ grip)
    (denotes : scope.Denotes node term)
    (kept : ∀ inner ∈ node.preorder,
      inner.Grouped ∧ (BinaryOperator.power.leftPriority ≤ grip ∨ inner.Raised)) :
    ∃ text, Shows grip scope node text term := by
  induction node using Node.induct generalizing term with
  | step node ih =>
    rw [Node.preorder_eq, List.forall_mem_cons] at kept
    obtain ⟨⟨grouped, raised⟩, below⟩ := kept
    have shown : ∀ child ∈ node.children, ∀ term, scope.Denotes child term →
        ∃ text, Shows grip scope child text term := fun child member term denotes =>
      ih child member denotes fun inner inside =>
        below inner (Node.mem_preorderAll.mpr ⟨child, member, inside⟩)
    have shownAll : ∀ {nodes : List Node} {terms : List Term},
        (∀ child ∈ nodes, child ∈ node.children) → List.Forall₂ scope.Denotes nodes terms →
        List.Forall₂ (fun child term => ∃ text, Shows grip scope child text term) nodes terms :=
      fun among all => (forall₂_mem all).imp fun child term here =>
        shown child (among child here.1) term here.2.2
    clear ih below
    cases denotes with
    | global opcode reads found identifier free =>
      exact ⟨_, .of_closed (Instruction.pushes_of_single opcode rfl)
        (nodeText_getGlobal opcode reads found) (Term.closed_name identifier free)⟩
    | slot opcode reads named identifier free =>
      exact ⟨_, .of_closed (Instruction.pushes_of_single opcode rfl)
        (nodeText_getLocal opcode reads named) (Term.closed_name identifier free)⟩
    | @numeral instruction index value opcode reads nonneg =>
      refine ⟨Text.digits value.natAbs, .of_closed (Instruction.pushes_of_single opcode rfl) ?_
        (Term.closed_digits _)⟩
      rw [← Text.decimal_of_nonneg (Int.not_lt.mpr nonneg)]
      exact nodeText_pushInt scope opcode reads
    | negative opcode reads below =>
      exact ⟨_, .negative scope opcode reads below⟩
    | @binary instruction index opcode operator earlier later left right known binary first second =>
      obtain ⟨before, front⟩ := shown earlier (by simp) left first
      obtain ⟨behind, back⟩ := shown later (by simp) right second
      exact front.binary index known binary held raised back
    | @sum instruction index amount operand inner opcode literal nonneg only =>
      obtain ⟨text, shows⟩ := shown operand (by simp) inner only
      have whole := shows.addInt index opcode literal held
      rwa [if_neg (Int.not_lt.mpr nonneg)] at whole
    | @difference instruction index amount operand inner opcode literal below only =>
      obtain ⟨text, shows⟩ := shown operand (by simp) inner only
      have whole := shows.addInt index opcode literal held
      rwa [if_pos below] at whole
    | @concat instruction index operands first second others opcode count all =>
      exact Shows.concat index opcode count held (shownAll (fun _ => List.mem_reverse.mp) all)
    | @minus instruction index operand inner opcode only =>
      obtain ⟨text, shows⟩ := shown operand (by simp) inner only
      exact shows.minus index opcode
    | @not instruction index operand inner opcode only =>
      obtain ⟨text, shows⟩ := shown operand (by simp) inner only
      exact shows.not index opcode
    | @call instruction index function arguments callee terms opcode count result first all =>
      obtain ⟨text, front⟩ := shown function (by simp) callee first
      exact front.call index opcode count result grouped
        (shownAll (fun argument member => by simp [member]) all)
    | @item instruction index table key record place opcode first second =>
      obtain ⟨before, front⟩ := shown table (by simp) record first
      obtain ⟨behind, back⟩ := shown key (by simp) place second
      have whole := front.closed_first grouped opcode rfl rfl
      exact ⟨_, .of_closed (Instruction.pushes_of_single opcode rfl)
        (nodeText_getTable index opcode front.toGives back.toGives) (whole.index back.written)⟩
    | @member instruction index place table record field opcode reads found identifier only =>
      obtain ⟨text, front⟩ := shown table (by simp) record only
      have whole := front.closed_first grouped opcode rfl rfl
      exact ⟨_, .of_closed (Instruction.pushes_of_single opcode rfl)
        (nodeText_getDotted index opcode reads found front.toGives) (whole.member identifier)⟩
    | @indexed instruction index place table record name opcode reads named identifier free only =>
      obtain ⟨text, front⟩ := shown table (by simp) record only
      have whole := front.closed_first grouped opcode rfl rfl
      exact ⟨_, .of_closed (Instruction.pushes_of_single opcode rfl)
        (nodeText_getIndexed index opcode reads named front.toGives)
        (whole.index (Term.closed_name identifier free).written)⟩

/-- Two trees with the same text stand for the same term, as long as what is called and what an item
is taken from is neither an operator nor a negative literal. And where no such literal is raised to a
power either, the text is read as the term by the priorities of the language. -/
theorem nodeText_unambiguous {left right : Node} {first second : Term}
    (denotes : scope.Denotes left first) (other : scope.Denotes right second)
    (grouped : ∀ inner ∈ left.preorder ++ right.preorder, inner.Grouped) :
    ∃ text shown, (scope.nodeText left).outcome = .ok text ∧
      (scope.nodeText right).outcome = .ok shown ∧ (text = shown → first = second) ∧
      ((∀ inner ∈ left.preorder, inner.Raised) →
        Term.read? UnaryOperator.minus.priority text = some first) := by
  obtain ⟨mine, yours⟩ := List.forall_mem_append.mp grouped
  -- Signs that hold as strongly as a power draws tell the texts apart, whatever is raised.
  have strong : UnaryOperator.minus.priority ≤ BinaryOperator.power.leftPriority := by decide
  obtain ⟨text, shows⟩ := denotes.shows strong fun inner member =>
    ⟨mine inner member, .inl (Nat.le_refl _)⟩
  obtain ⟨shown, also⟩ := other.shows strong fun inner member =>
    ⟨yours inner member, .inl (Nat.le_refl _)⟩
  refine ⟨text, shown, shows.rendered, also.rendered, ?_, ?_⟩
  · rintro rfl
    exact Option.some.inj (shows.written.read?.symm.trans also.written.read?)
  · intro raised
    obtain ⟨same, reads⟩ := denotes.shows (Nat.le_refl _) fun inner member =>
      ⟨mine inner member, .inr (raised inner member)⟩
    obtain rfl := Except.ok.inj (reads.rendered.symm.trans shows.rendered)
    exact reads.written.read?

/-- A difference with a literal of its own, and one with a literal that is pushed. -/
theorem nodeText_unambiguous_of_call :
    let scope : Scope := ⟨{}, ["x"], ["t", "a"], [], [], []⟩
    let item : Node := ⟨⟨13, {}⟩, [⟨⟨11, {}⟩, [], 1⟩, ⟨⟨12, {}⟩, [], 0⟩], 2⟩
    let call : Node := ⟨⟨32834, {}⟩, [⟨⟨78, {}⟩, [item], 3⟩, ⟨⟨2147483718, {}⟩, [], 4⟩].reverse, 5⟩
    let left : Node := ⟨⟨2147483480, {}⟩, [call], 6⟩
    let right : Node := ⟨⟨25, {}⟩, [⟨⟨2147483718, {}⟩, [], 6⟩, call], 7⟩
    let term : Term := .binary .subtract (.applied (.member (.index (.name "t") (.name "x")) "a")
      [.number 2]) (.number 2)
    scope.Denotes left term ∧ scope.Denotes right term ∧
      (∀ inner ∈ left.preorder ++ right.preorder, inner.Grouped) ∧
      (∀ inner ∈ left.preorder, inner.Raised) ∧
      (scope.nodeText left).outcome = .ok "t[x].a(2) - 2" ∧
      (scope.nodeText right).outcome = .ok "t[x].a(2) - 2" ∧
      Term.read? 7 "t[x].a(2) - 2" = some term := by
  intro scope item call left right term
  have zeroth (raw : Int) (small : raw / 64 = 0) : (⟨raw, {}⟩ : Instruction).u = .ok 0 :=
    congrArg Except.ok small
  have t : scope.Denotes ⟨⟨12, {}⟩, [], 0⟩ (.name "t") :=
    .global (by cbv) (zeroth 12 rfl) rfl (by decide) (by decide)
  have x : scope.Denotes ⟨⟨11, {}⟩, [], 1⟩ (.name "x") :=
    .slot (by cbv) (zeroth 11 rfl) rfl (by decide) (by decide)
  have two : (⟨2147483718, {}⟩ : Instruction).s = .ok 2 := by cbv
  have pushed : (⟨2147483718, {}⟩ : Instruction).opcode = .ok .pushInt := by cbv
  have numeral (index : Int) : scope.Denotes ⟨⟨2147483718, {}⟩, [], index⟩ (.number 2) :=
    .numeral pushed two (by decide)
  have indexed : scope.Denotes item (.index (.name "t") (.name "x")) := .item (by cbv) t x
  have place : (⟨78, {}⟩ : Instruction).u = .ok 1 := by cbv
  have field : scope.Denotes ⟨⟨78, {}⟩, [item], 3⟩
      (.member (.index (.name "t") (.name "x")) "a") :=
    .member (by cbv) place rfl (by decide) indexed
  have count : (⟨32834, {}⟩ : Instruction).a = .ok 1 := by cbv
  have called : scope.Denotes call (.applied _ [_]) :=
    .call (by cbv) count (by cbv) field (.cons (numeral 4) .nil)
  have less : (⟨2147483480, {}⟩ : Instruction).s = .ok (-2) := by cbv
  have denotes : scope.Denotes left term := .difference (by cbv) less (by decide) called
  have taken : (⟨25, {}⟩ : Instruction).opcode = .ok .subtract := by cbv
  have other : scope.Denotes right term := .binary taken rfl called (numeral 6)
  have grouped : ∀ inner ∈ left.preorder ++ right.preorder, inner.Grouped := by decide
  have raised : ∀ inner ∈ left.preorder, inner.Raised := by decide
  obtain ⟨text, shown, mine, yours, same, read⟩ := nodeText_unambiguous denotes other grouped
  have rendered : (scope.nodeText left).outcome = .ok "t[x].a(2) - 2" := by cbv
  have also : (scope.nodeText right).outcome = .ok "t[x].a(2) - 2" := by cbv
  obtain rfl := Except.ok.inj (mine.symm.trans rendered)
  exact ⟨denotes, other, grouped, raised, rendered, also, read raised⟩

/-- What is called stands there without parentheses, so the call of a sum is written as a sum with a
call; and a negative literal raised to a power is written as the power with a sign in front. -/
theorem ambiguous_of_called_sum :
    let scope : Scope := ⟨{}, [], ["a", "b", "x"], [], [], []⟩
    let a : Node := ⟨⟨12, {}⟩, [], 0⟩
    let b : Node := ⟨⟨76, {}⟩, [], 1⟩
    let x : Node := ⟨⟨140, {}⟩, [], 2⟩
    let left : Node := ⟨⟨32834, {}⟩, [⟨⟨23, {}⟩, [b, a], 3⟩, x].reverse, 4⟩
    let right : Node := ⟨⟨23, {}⟩, [⟨⟨32834, {}⟩, [b, x].reverse, 3⟩, a], 4⟩
    let power : Node := ⟨⟨28, {}⟩, [x, ⟨⟨2147483462, {}⟩, [], 1⟩], 3⟩
    let called : Term := .applied (.binary .add (.name "a") (.name "b")) [.name "x"]
    let added : Term := .binary .add (.name "a") (.applied (.name "b") [.name "x"])
    let raised : Term := .binary .power (.unary .minus (.number 2)) (.name "x")
    (scope.Denotes left called ∧ scope.Denotes right added ∧ called ≠ added ∧
      (scope.nodeText left).outcome = .ok "a + b(x)" ∧
      (scope.nodeText right).outcome = .ok "a + b(x)") ∧
    scope.Denotes power raised ∧ (scope.nodeText power).outcome = .ok "-2 ^ x" ∧
      Term.read? 7 "-2 ^ x" = some (.unary .minus (.binary .power (.number 2) (.name "x"))) := by
  intro scope a b x left right power called added raised
  have first : scope.Denotes a (.name "a") := by
    have place : (⟨12, {}⟩ : Instruction).u = .ok 0 := by cbv
    exact .global (by cbv) place rfl (by decide) (by decide)
  have second : scope.Denotes b (.name "b") := by
    have place : (⟨76, {}⟩ : Instruction).u = .ok 1 := by cbv
    exact .global (by cbv) place rfl (by decide) (by decide)
  have third : scope.Denotes x (.name "x") := by
    have place : (⟨140, {}⟩ : Instruction).u = .ok 2 := by cbv
    exact .global (by cbv) place rfl (by decide) (by decide)
  have add : (⟨23, {}⟩ : Instruction).opcode = .ok .add := by cbv
  have count : (⟨32834, {}⟩ : Instruction).a = .ok 1 := by cbv
  have call : (⟨32834, {}⟩ : Instruction).opcode = .ok .call := by cbv
  have result : (⟨32834, {}⟩ : Instruction).b = .ok 1 := by cbv
  have whole : scope.Denotes left called :=
    .call call count result (.binary add rfl first second) (.cons third .nil)
  have part : scope.Denotes right added :=
    .binary add rfl first (.call call count result second (.cons third .nil))
  have less : (⟨2147483462, {}⟩ : Instruction).s = .ok (-2) := by cbv
  have literal : scope.Denotes ⟨⟨2147483462, {}⟩, [], 1⟩ (.unary .minus (.number 2)) :=
    .negative (by cbv) less (by decide)
  have raise : (⟨28, {}⟩ : Instruction).opcode = .ok .power := by cbv
  refine ⟨⟨whole, part, by decide, by cbv, by cbv⟩, .binary raise rfl literal third, by cbv, ?_⟩
  decide

end Scope

end LuaLift
