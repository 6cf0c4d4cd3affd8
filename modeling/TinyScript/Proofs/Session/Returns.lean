import TinyScript.Proofs.Run.Relation
import TinyScript.Proofs.Tree.Surroundings
import TinyScript.Session

namespace TinyScript

-- Every return stands in the body of a function. An expression holds statements only in a function of
-- its own, so it does not matter here.
mutual

def Stmt.Enclosed : Stmt → Prop
  | .giveBack _ _ => False
  | .expr _ _ | .print _ _ | .declare _ _ _ | .function _ _ _ _ => True
  | .block body => body.Enclosed
  | .branch _ _ yes none => yes.Enclosed
  | .branch _ _ yes (some no) => yes.Enclosed ∧ no.Enclosed
  | .loop _ _ body => body.Enclosed

def Stmt.EnclosedAll : List Stmt → Prop
  | [] => True
  | s :: ss => s.Enclosed ∧ Stmt.EnclosedAll ss

def Block.Enclosed : Block → Prop
  | .absent => True
  | .braces _ stmts => Stmt.EnclosedAll stmts

end

theorem Stmt.enclosedAll_iff {ss : List Stmt} : Stmt.EnclosedAll ss ↔ ∀ s ∈ ss, s.Enclosed := by
  induction ss with
  | nil => simp [Stmt.EnclosedAll]
  | cons s ss ih => simp [Stmt.EnclosedAll, ih]

namespace Parse

theorem enclosed_tree (clauses : ForClauses) (whole keyword : Span)
    (firstMade : IfAny Stmt.Enclosed clauses.first) (made : body.Enclosed) :
    (clauses.tree whole keyword body).Enclosed := by
  obtain ⟨first, condition, step⟩ := clauses
  cases first <;> cases step <;>
    simp_all [ForClauses.tree, forLoop, IfAny, Stmt.Enclosed, Stmt.EnclosedAll, Block.Enclosed]

def unreturning : Surroundings where
  before ctx _ := ctx.inFunction = false
  after c := ∀ d ∈ c.reported, d.code ≠ Code.strayReturn
  later _ outside := outside
  earlier ahead none d mem := none d (ahead.2.subset mem)
  braced outside := outside

structure Nested.Enclosing (nested : Nested) : Prop where
  statement : MakesIn unreturning Stmt.Enclosed nested.statement
  declaration : MakesIn unreturning (IfAny Stmt.Enclosed) nested.declaration

namespace MakesIn.Unreturning

-- A return that is read here is reported, so none is read.
theorem openReturn : MakesIn unreturning (fun _ => False) openReturn := by
  intro ctx c a next ran outside none
  rw [openReturn_eq] at ran
  cases ran
  rw [if_neg (by rw [outside]; decide)] at none
  exact none _ (List.mem_append_right _ List.mem_cons_self) rfl

theorem expressionStatement (expression : Reader Expr) :
    Makes Stmt.Enclosed (expressionStatement expression) :=
  .step fun _ => .step fun _ => .step fun _ => .pure trivial

theorem variableDeclaration (nested : Nested) : Makes Stmt.Enclosed (variableDeclaration nested) := by
  rw [variableDeclaration_eq]
  exact .step fun _ => .step fun _ => .step fun _ => .step fun _ => .step fun _ => .pure trivial

theorem forFirst (nested : Nested) : Makes (IfAny Stmt.Enclosed) (forFirst nested) := by
  have wrapped {r : Reader Stmt} (made : Makes Stmt.Enclosed r) : Makes (IfAny Stmt.Enclosed) (some <$> r) :=
    .map made fun _ enclosed _ isIt => Option.some.inj isIt ▸ enclosed
  refine .step fun _ => .ite _ (fun _ => .step fun _ => .pure ?_) (.ite _ (fun _ => ?_) ?_)
  · exact fun _ isIt => nomatch isIt
  · exact wrapped (variableDeclaration nested)
  · exact wrapped (expressionStatement nested.expression)

theorem forClauses (nested : Nested) :
    Makes (fun clauses => IfAny Stmt.Enclosed clauses.first) (forClauses nested) :=
  .step fun _ => .bind (forFirst nested) fun _ made => .step fun _ => .step fun _ => .step fun _ =>
    .step fun _ => .pure made

section

variable {nested : Nested} [nested.Stepwise @Forward] (inner : nested.Enclosing)
include inner

theorem declarations (braced : Bool) (bound : Nat) :
    MakesIn unreturning Stmt.EnclosedAll (declarations nested.declaration braced bound) := by
  induction bound with
  | zero => exact pure trivial
  | succ bound ih =>
    refine step fun _ => ite _ (pure trivial) (bind inner.declaration fun stmt each => ?_)
    refine bind ih fun stmts made => pure ?_
    cases stmt with
    | none => exact made
    | some s => exact ⟨each s rfl, made⟩

theorem block (size : Nat) : MakesIn unreturning Block.Enclosed (block size nested) :=
  step fun _ => bind (braced (declarations inner true size)) fun _ made =>
    step fun _ => step fun _ => pure made

theorem branchStatement : MakesIn unreturning Stmt.Enclosed (branchStatement nested) := by
  rw [branchStatement_eq]
  refine step fun _ => step fun _ => step fun _ => step fun _ => ?_
  refine bind inner.statement fun yes made => bind (behind _ inner.statement) fun no each => ?_
  refine step fun _ => pure ?_
  cases no with
  | none => exact made
  | some s => exact ⟨made, each s rfl⟩

theorem whileStatement : MakesIn unreturning Stmt.Enclosed (whileStatement nested) :=
  step fun _ => step fun _ => step fun _ => step fun _ =>
    bind inner.statement fun _ made => step fun _ => pure made

theorem forStatement : MakesIn unreturning Stmt.Enclosed (forStatement nested) := by
  rw [forStatement_clauses]
  refine step fun start => bind (of_makes (forClauses nested)) fun clauses firstMade => ?_
  exact bind inner.statement fun body made => step fun stop => pure (enclosed_tree clauses _ _ firstMade made)

theorem statement (size : Nat) : MakesIn unreturning Stmt.Enclosed (statement size nested) := by
  rw [statement_eq]
  refine step fun first => ?_
  unfold statementBy
  split
  · exact forStatement inner
  · exact branchStatement inner
  · exact of_makes (.step fun _ => .step fun _ => .step fun _ => .step fun _ => .pure trivial)
  · rw [returnStatement_eq]
    exact bind openReturn fun _ impossible => impossible.elim
  · exact whileStatement inner
  · exact map (block inner size) fun _ made => made
  · exact of_makes (expressionStatement _)

theorem declaration (size : Nat) : MakesIn unreturning Stmt.Enclosed (declaration size nested) := by
  intro ctx c a next ran here there
  rw [declaration_eq] at ran
  refine (?_ : MakesIn unreturning Stmt.Enclosed (declarationBy size nested _ _)) ctx c a next ran here there
  unfold declarationBy
  split
  · refine ite _ (of_makes ?_) (statement inner size)
    exact .step fun _ => .step fun _ => .step fun _ => .step fun _ => .pure trivial
  · exact of_makes (variableDeclaration nested)
  · exact failHere _
  · exact statement inner size

end

end MakesIn.Unreturning

theorem level_enclosing (n : Nat) : (level n).Enclosing := by
  induction n with
  | zero => exact ⟨.failHere .noExpression, .recovering (.failHere .noExpression)⟩
  | succ n ih => exact ⟨MakesIn.Unreturning.statement ih (n + 1),
      .recovering (MakesIn.Unreturning.declaration ih (n + 1))⟩

end Parse

theorem parse_enclosed {tokens : List Token} (none : ∀ d ∈ (parse tokens).2, d.code ≠ Code.strayReturn) :
    ∀ s ∈ (parse tokens).1, s.Enclosed := by
  rw [← Stmt.enclosedAll_iff]
  unfold parse at none ⊢
  dsimp only at none ⊢
  split at none
  · next ran =>
    exact Parse.MakesIn.Unreturning.declarations (Parse.level_enclosing _) false _ _ _ _ _ ran rfl none
  · trivial

def Node.Enclosed : Node → Prop
  | .expr _ => True
  | .stmt s => s.Enclosed
  | .block b => b.Enclosed

theorem Node.Enclosed.parts {node : Node} (enclosed : node.Enclosed) : ∀ part ∈ node.parts, part.Enclosed := by
  obtain ⟨e⟩ | ⟨s⟩ | ⟨b⟩ := node
  · cases e <;> simp [Node.parts, Node.children, Node.Enclosed]
  · cases s with
    | branch span c yes no => cases no <;> simp_all [Node.parts, Node.children, Node.Enclosed, Stmt.Enclosed]
    | _ => simp_all [Node.parts, Node.children, Node.Enclosed, Stmt.Enclosed]
  · cases b <;> simp_all [Node.parts, Node.children, Node.Enclosed, Block.Enclosed, Stmt.enclosedAll_iff]

theorem Outcome.of_adjust_done {o : Outcome α} (ended : o.adjust change = .done a m) :
    ∃ last, o = .done a last := by
  cases o with
  | done b last =>
    cases ended
    exact ⟨last, rfl⟩
  | failed e last => cases ended
  | unfinished => cases ended

namespace Interpret

def GoesOn (s : Step Signal) : Prop := ∀ m signal after, s m = .done signal after → signal = .next

def goingOn : Comparison Step Step where
  World := Unit
  later _ _ := True
  inside := id
  moved := id
  value _ := Eq
  signal _ s t := s = .next ∧ t = .next
  fits _ node := node.Enclosed
  binds _ := True
  holds _ s _ := ∀ m a after, s m = .done a after → Yield.Rel Eq (fun s t => s = .next ∧ t = .next) a a

namespace goingOn

theorem lawful : goingOn.Lawful where
  later_refl := trivial
  later_trans _ _ := trivial
  value_later _ same := same
  fits_later _ fit := fit
  binds_later _ _ := trivial
  like := .of_eq
  plain _ := rfl
  next := ⟨rfl, rfl⟩
  returned fit := fit.elim
  ended := by
    rintro _ _ _ ⟨rfl, rfl⟩
    exact .next
  part fit mem := fit.parts _ mem
  block fit := fit
  declares _ := trivial
  names _ := trivial
  pure same := by
    obtain rfl := Yield.eq_of id (fun both => both.1.trans both.2.symm) same
    rintro m _ _ ⟨⟩
    exact same
  bind first next m b after ran := by
    obtain ⟨a, middle, executed, ran⟩ := Step.of_bind_done ran
    exact next () a a trivial (first m a middle executed) middle b after ran

theorem repeating {round round' : Step (Option Signal)} (once : goingOn.holds () round round') (patience : Nat) :
    goingOn.holds () (repeating patience round) (repeating patience round') := by
  induction patience with
  | zero => exact fun _ _ _ ran => nomatch ran
  | succ patience ih =>
    rw [repeating_succ, repeating_succ]
    refine lawful.bind once fun _ signal signal' _ same => ?_
    cases same with
    | none => exact ih
    | some same => exact lawful.pure same

theorem steps (host : Host) : goingOn.Steps host host where
  toLawful := lawful
  equals := by
    rintro _ _ _ _ _ rfl rfl
    rfl
  fail _ _ _ := fun _ _ _ _ => rfl
  lookup _ := fun _ _ _ _ => rfl
  assign _ _ := fun _ _ _ _ => trivial
  define _ _ := fun _ _ _ _ => trivial
  makeFunction _ _ _ _ := fun _ _ _ _ => rfl
  print _ := fun _ _ _ _ => trivial
  readClock := fun _ _ _ _ => rfl
  tick _ _ := fun _ _ _ _ => trivial
  inside _ _ := fun _ _ _ _ => rfl
  call _ _ _ _ := fun _ _ _ _ => rfl
  inBlock inner m signal after ran := by
    unfold Machine.inBlock Machine.inNewScope at ran
    obtain ⟨last, executed⟩ := Outcome.of_adjust_done ran
    exact inner _ signal last executed
  loop _ test run := by
    refine repeating (lawful.round (fun _ _ => ?_) test run) host.patience
    exact fun _ _ _ _ => trivial

end goingOn

theorem GoesOn.exec (host : Host) {s : Stmt} (enclosed : s.Enclosed) : GoesOn (exec host s) :=
  fun m signal after ran =>
    ((goingOn.steps host).laws.exec_same rfl (w := ()) (s := s) enclosed m signal after ran).1

end Interpret

theorem returns_never_stray (source : Bytes)
    (none : ∀ d ∈ (analyse source).diagnostics, d.code ≠ Code.strayReturn) :
    ∀ s ∈ (analyse source).program, s.Enclosed ∧
      ∀ (host : Host) (m after : Machine) (signal : Signal),
        Interpret.exec host s m = .done signal after → signal = .next := by
  intro s mem
  have enclosed := parse_enclosed (fun d reported => none d (List.mem_append_right _ reported)) s mem
  exact ⟨enclosed, fun host m after signal ran =>
    Interpret.GoesOn.exec host enclosed m signal after ran⟩

-- A name is missing in the first statement, and the second returns from a function only.
def namelessText : Bytes := text "var = 1; if (a) \x7b fun () \x7b while (b) return a; \x7d; \x7d"

theorem returns_never_stray_nameless : ∃ s, (analyse namelessText).program = [s] ∧
    (analyse namelessText).diagnostics.map (·.code) = [Code.expectedToken] ∧ s.Enclosed ∧
    ∀ (host : Host) (m after : Machine) (signal : Signal),
      Interpret.exec host s m = .done signal after → signal = .next := by
  have one : (analyse namelessText).program.length = 1 := by decide +kernel
  have codes : (analyse namelessText).diagnostics.map (·.code) = [Code.expectedToken] := by decide +kernel
  obtain ⟨s, only⟩ := List.length_eq_one_iff.1 one
  have none : ∀ d ∈ (analyse namelessText).diagnostics, d.code ≠ Code.strayReturn := by
    intro d mem isStray
    have listed := List.mem_map_of_mem (f := (·.code)) mem
    rw [codes, isStray] at listed
    revert listed
    decide
  exact ⟨s, only, codes, returns_never_stray namelessText none s (only ▸ List.mem_singleton_self s)⟩

end TinyScript
