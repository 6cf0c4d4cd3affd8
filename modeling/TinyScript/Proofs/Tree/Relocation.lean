import TinyScript.Proofs.Token.Relocation
import TinyScript.Proofs.Tree.Acceptance

namespace TinyScript

namespace Parse

variable {g : Position → Position}

theorem relocate_forLoop (whole keyword : Span) (first : Option Stmt) (condition step : Option Expr)
    (body : Stmt) : (forLoop whole keyword first condition step body).relocate g =
      forLoop (whole.relocate g) (keyword.relocate g) (first.map (Stmt.relocate g))
        (condition.map (Expr.relocate g)) (step.map (Expr.relocate g)) (body.relocate g) := by
  cases first <;> cases condition <;> cases step <;>
    simp [forLoop, Stmt.relocate, Block.relocate, Stmt.relocateAll, Expr.relocate]

def Cursor.relocate (g : Position → Position) (c : Cursor) : Cursor :=
  ⟨c.rest.map (Token.relocate g), c.last.map (Token.relocate g), c.reported.map (Diagnostic.relocate g)⟩

def Context.relocate (g : Position → Position) (ctx : Context) : Context :=
  { ctx with ending := ctx.ending.relocate g }

def Reply.relocate (g : Position → Position) (φ : α → β) : Reply α → Reply β
  | .ok a next => .ok (φ a) (next.relocate g)
  | .fail t fault next => .fail (t.relocate g) fault (next.relocate g)

-- What the second reader makes of moved tokens is what the first one makes of them, moved.
def Moves (g : Position → Position) (φ : α → β) (r : Reader α) (r' : Reader β) : Prop :=
  ∀ ctx c, r' (ctx.relocate g) (c.relocate g) = (r ctx c).relocate g φ

theorem next_relocate (ctx : Context) (c : Cursor) :
    (c.relocate g).rest.headD (ctx.relocate g).ending = (c.rest.headD ctx.ending).relocate g := by
  obtain ⟨rest, last, reported⟩ := c
  cases rest <;> rfl

theorem nextKind_relocate (ctx : Context) (c : Cursor) :
    nextKind (ctx.relocate g) (c.relocate g).rest = nextKind ctx c.rest := by
  unfold nextKind
  rw [next_relocate]
  rfl

theorem advance_relocate (c : Cursor) : (c.relocate g).advance = c.advance.relocate g := by
  obtain ⟨rest, last, reported⟩ := c
  cases rest <;> rfl

theorem report_relocate (c : Cursor) (fault : Fault) (t : Token) :
    (c.relocate g).report (fault.diagnostic (t.relocate g)) =
      (c.report (fault.diagnostic t)).relocate g := by
  unfold Cursor.report Cursor.relocate
  rw [List.map_append]
  rfl

theorem resume_relocate (inBlock : Bool) (reported : List Diagnostic) (last : Option Token)
    (rest : List Token) :
    resume inBlock (reported.map (Diagnostic.relocate g)) (last.map (Token.relocate g))
      (rest.map (Token.relocate g)) = (resume inBlock reported last rest).relocate g := by
  induction rest generalizing last with
  | nil => rfl
  | cons t ts ih =>
    have same : (last.map (Token.relocate g)).any (·.kind = .semicolon) =
        last.any (·.kind = .semicolon) := by
      cases last <;> rfl
    rw [List.map_cons, resume, resume, same]
    show (if last.any _ || opensStatement t.kind || (inBlock && t.kind = .rightBrace) then _ else _) = _
    split
    · rfl
    · exact ih (some t)

namespace Moves

variable {φ : α → α'} {ψ : β → β'} {r : Reader α} {r' : Reader α'}

theorem pure {b : α'} (same : b = φ a) : Moves g φ (Pure.pure a) (Pure.pure b) := by
  intro ctx c
  rw [same]
  rfl

theorem bind {f : α → Reader β} {f' : α' → Reader β'} (first : Moves g φ r r')
    (second : ∀ a, Moves g ψ (f a) (f' (φ a))) : Moves g ψ (r >>= f) (r' >>= f') := by
  intro ctx c
  have moved := first ctx c
  cases read : r ctx c with
  | ok a next =>
    rw [read] at moved
    rw [Reader.bind_ok read, Reader.bind_ok moved]
    exact second a ctx next
  | fail t fault next =>
    rw [read] at moved
    rw [Reader.bind_fail read, Reader.bind_fail moved]
    rfl

theorem ite (p : Prop) [Decidable p] {s : Reader α} {s' : Reader α'} (yes : Moves g φ r r')
    (no : Moves g φ s s') : Moves g φ (if p then r else s) (if p then r' else s') := by
  split
  · exact yes
  · exact no

theorem map {h : α → β} {h' : α' → β'} (inner : Moves g φ r r') (same : ∀ a, h' (φ a) = ψ (h a)) :
    Moves g ψ (h <$> r) (h' <$> r') :=
  bind inner fun a => pure (same a)

theorem peek : Moves g (Token.relocate g) peek peek := by
  intro ctx c
  simp only [Parse.peek, Reader.plain_reply, next_relocate]
  rfl

theorem peekKind : Moves g id peekKind peekKind := by
  intro ctx c
  simp only [Parse.peekKind, Reader.plain_reply, next_relocate]
  rfl

theorem advance : Moves g (Token.relocate g) advance advance := by
  intro ctx c
  simp only [Parse.advance, Reader.plain_reply, next_relocate, advance_relocate]
  rfl

theorem lastStop : Moves g g lastStop lastStop := by
  intro ctx c
  simp only [Parse.lastStop, Reader.plain_reply, next_relocate]
  obtain ⟨rest, last, reported⟩ := c
  cases last <;> rfl

theorem failHere (fault : Fault) : Moves g φ (failHere fault) (failHere fault) := by
  intro ctx c
  simp only [Parse.failHere, Reader.plain_reply, next_relocate]
  rfl

theorem reportHere (fault : Fault) : Moves g id (reportHere fault) (reportHere fault) := by
  intro ctx c
  simp only [Parse.reportHere, Reader.plain_reply, next_relocate, report_relocate]
  rfl

theorem openReturn : Moves g (Token.relocate g) openReturn openReturn := by
  intro ctx c
  rw [openReturn_eq, openReturn_eq]
  dsimp only
  rw [next_relocate, advance_relocate, show (ctx.relocate g).inFunction = ctx.inFunction from rfl]
  cases ctx.inFunction with
  | false =>
    show Reply.ok _ ((c.advance.relocate g).report _) = _
    rw [report_relocate]
    rfl
  | true => rfl

theorem expect (kind : Kind) (place : Place) :
    Moves g (Token.relocate g) (expect kind place) (expect kind place) := by
  rw [expect_eq]
  exact bind peekKind fun k => ite _ advance (failHere _)

theorem unlessNext (kind : Kind) (inner : Moves g φ r r') :
    Moves g (Option.map φ) (unlessNext kind r) (unlessNext kind r') :=
  bind peekKind fun _ => ite _ (pure rfl) (map inner fun _ => rfl)

theorem behind (kind : Kind) (inner : Moves g φ r r') :
    Moves g (Option.map φ) (behind kind r) (behind kind r') := by
  rw [behind_eq, behind_eq]
  exact bind peekKind fun _ => ite _ (bind advance fun _ => map inner fun _ => rfl) (pure rfl)

theorem leaf {make : Token → α} {make' : Token → α'} (same : ∀ t, make' (t.relocate g) = φ (make t)) :
    Moves g φ (leaf make) (leaf make') :=
  bind advance fun t => pure (same t)

theorem countAgainst (count : Nat) (fault : Fault) :
    Moves g id (countAgainst count fault) (countAgainst count fault) :=
  ite _ (reportHere fault) (pure rfl)

theorem within (bracket : Bracket)
    (same : ∀ ctx : Context, bracket.enter (ctx.relocate g) = (bracket.enter ctx).relocate g) (inner : Moves g φ r r') :
    Moves g φ (within bracket r) (within bracket r') := by
  intro ctx c
  rw [within_eq, same]
  exact inner (bracket.enter ctx) c

theorem report (t : Token) (fault : Fault) : Moves g id (report t fault) (report (t.relocate g) fault) := by
  intro ctx c
  simp only [Parse.report, Reader.plain_reply, report_relocate]
  rfl

theorem assignTail {value value' : Reader Expr} (inner : Moves g (Expr.relocate g) value value')
    (left : Expr) :
    Moves g (Expr.relocate g) (assignTail value left) (assignTail value' (left.relocate g)) := by
  refine bind peek fun t => ?_
  refine ite _ (bind advance fun _ => bind inner fun v => ?_) (pure rfl)
  cases left with
  | name span x => exact pure (by simp [Expr.relocate, Span.upTo, Span.relocate])
  | _ => exact bind (report t .invalidTarget) fun _ => pure rfl

theorem recovering (inner : Moves g φ r r') :
    Moves g (Option.map φ) (recovering r) (recovering r') := by
  intro ctx c
  have moved := inner ctx c
  cases read : r ctx c with
  | ok a next =>
    rw [read] at moved
    rw [recovering_ok read, recovering_ok moved]
    rfl
  | fail t fault failed =>
    rw [read] at moved
    have notes : noted (failed.relocate g) (t.relocate g) fault = (noted failed t fault).relocate g := by
      unfold noted
      show (if t.kind = .illegal then _ else _) = _
      split
      · rfl
      · exact report_relocate failed fault t
    have goesOn (n : Cursor) : Parse.moved (c.relocate g) (n.relocate g) = (Parse.moved c n).relocate g := by
      unfold Parse.moved
      rw [advance_relocate]
      simp only [Cursor.relocate, List.length_map]
      split <;> rfl
    rw [recovering_resume read, recovering_resume moved, notes, goesOn]
    exact congrArg (Reply.ok none) (resume_relocate _ _ _ _)

section

variable {operand operand' : Reader Expr} (inner : Moves g (Expr.relocate g) operand operand')
include inner

theorem chain (tier : Tier) (bound : Nat) (left : Expr) :
    Moves g (Expr.relocate g) (chain tier operand bound left)
      (chain tier operand' bound (left.relocate g)) := by
  induction bound generalizing left with
  | zero => exact pure rfl
  | succ bound ih =>
    refine bind peekKind fun op => ite _ (bind advance fun _ => bind inner fun right => ?_) (pure rfl)
    have joined : tier.combine op (left.relocate g) (right.relocate g) =
        (tier.combine op left right).relocate g := by
      unfold Tier.combine
      dsimp only
      split <;> simp [Expr.relocate, Span.upTo, Span.relocate]
    rw [id, joined]
    exact ih _

theorem ladder (bound : Nat) (rungs : List Tier) :
    Moves g (Expr.relocate g) (ladder bound operand rungs) (ladder bound operand' rungs) := by
  induction rungs with
  | nil => exact inner
  | cons tier tighter ih => exact bind ih fun left => chain ih tier bound left

theorem unary (bound : Nat) :
    Moves g (Expr.relocate g) (unary operand bound) (unary operand' bound) := by
  induction bound with
  | zero => exact inner
  | succ bound ih =>
    refine bind peek fun t => ite _ (bind advance fun _ => bind ih fun e => pure ?_) inner
    simp [Expr.relocate, Span.upTo, Span.relocate, Token.relocate]

theorem arguments (bound count : Nat) :
    Moves g (Expr.relocateAll g) (arguments operand bound count) (arguments operand' bound count) := by
  induction bound generalizing count with
  | zero =>
    rw [arguments_zero, arguments_zero]
    exact bind (countAgainst count _) fun _ => bind inner fun e => pure rfl
  | succ bound ih =>
    rw [arguments_succ, arguments_succ]
    refine bind (countAgainst count _) fun _ => bind inner fun e => ?_
    refine bind (behind _ (ih _)) fun es => pure ?_
    cases es <;> rfl

theorem calls (size bound : Nat) (callee : Expr) :
    Moves g (Expr.relocate g) (calls operand size bound callee)
      (calls operand' size bound (callee.relocate g)) := by
  induction bound generalizing callee with
  | zero => exact pure rfl
  | succ bound ih =>
    rw [calls_succ, calls_succ]
    refine bind peekKind fun _ => ite _ (bind advance fun _ => ?_) (pure rfl)
    refine bind (unlessNext _ (arguments inner size 0)) fun args => bind (expect _ _) fun close => ?_
    have called : Expr.call ((callee.relocate g).span.upTo (close.relocate g).span) (callee.relocate g)
        ((args.map (Expr.relocateAll g)).getD []) =
        (Expr.call (callee.span.upTo close.span) callee (args.getD [])).relocate g := by
      cases args <;>
        simp [Expr.relocate, Expr.relocateAll, Span.upTo, Span.relocate, Token.relocate]
    rw [called]
    exact ih _

theorem expressionStatement :
    Moves g (Stmt.relocate g) (expressionStatement operand) (expressionStatement operand') := by
  refine bind inner fun e => bind (expect _ _) fun _ => bind lastStop fun stop => pure ?_
  simp [Stmt.relocate, Span.relocate]

end

theorem parameters (bound count : Nat) :
    Moves g id (parameters bound count) (parameters bound count) := by
  induction bound generalizing count with
  | zero =>
    rw [parameters_zero]
    exact bind (countAgainst count _) fun _ => bind (expect _ _) fun t => pure rfl
  | succ bound ih =>
    rw [parameters_succ]
    refine bind (countAgainst count _) fun _ => bind (expect _ _) fun t => ?_
    refine bind (behind _ (ih _)) fun ps => pure ?_
    cases ps <;> rfl

theorem declarations {item item' : Reader (Option Stmt)}
    (inner : Moves g (Option.map (Stmt.relocate g)) item item') (braced : Bool) (bound : Nat) :
    Moves g (Stmt.relocateAll g) (declarations item braced bound) (declarations item' braced bound) := by
  induction bound with
  | zero => exact pure rfl
  | succ bound ih =>
    refine bind peekKind fun _ => ite _ (pure rfl) ?_
    refine bind inner fun stmt => bind ih fun stmts => pure ?_
    cases stmt <;> rfl

end Moves

structure Nested.Moves (g : Position → Position) (nested : Nested) : Prop where
  expression : Parse.Moves g (Expr.relocate g) nested.expression nested.expression
  statement : Parse.Moves g (Stmt.relocate g) nested.statement nested.statement
  declaration : Parse.Moves g (Option.map (Stmt.relocate g)) nested.declaration nested.declaration

namespace Moves

section

variable {nested : Nested} (inner : nested.Moves g) (size : Nat)
include inner

theorem block : Moves g (Block.relocate g) (block size nested) (block size nested) := by
  refine bind (expect _ _) fun start => bind (within _ (fun _ => rfl) ?_) fun stmts =>
    bind (expect _ _) fun _ => bind lastStop fun stop => pure rfl
  exact declarations inner.declaration true size

theorem functionRest (afterName beforeBody : Place) :
    Moves g (Prod.map id (Block.relocate g)) (functionRest size nested afterName beforeBody)
      (functionRest size nested afterName beforeBody) := by
  rw [functionRest_eq]
  refine bind (expect _ _) fun _ => bind (unlessNext _ (parameters size 0)) fun params => ?_
  refine bind (expect _ _) fun _ => bind peekKind fun _ => ite _ ?_ (failHere _)
  refine bind (within _ (fun _ => rfl) (block inner size)) fun body => pure ?_
  rw [Option.map_id]
  rfl

theorem primaryBy (first : Kind) :
    Moves g (Expr.relocate g) (primaryBy size nested first) (primaryBy size nested first) := by
  unfold Parse.primaryBy
  cases first with
  | leftParen =>
    refine bind advance fun t => bind inner.expression fun e => bind (expect _ _) fun _ => ?_
    exact bind lastStop fun stop => pure rfl
  | kwFun =>
    refine bind advance fun t => bind (functionRest inner size _ _) fun f => ?_
    exact bind lastStop fun stop => pure rfl
  | _ => first | exact leaf fun t => rfl | exact failHere _

theorem primary : Moves g (Expr.relocate g) (primary size nested) (primary size nested) := by
  rw [primary_eq]
  exact bind peekKind fun first => primaryBy inner size first

theorem call : Moves g (Expr.relocate g) (call size nested) (call size nested) :=
  bind (primary inner size) fun callee => calls inner.expression size size callee

theorem expression : Moves g (Expr.relocate g) (expression size nested) (expression size nested) := by
  rw [expression_eq]
  exact bind (ladder (unary (call inner size) size) size tiers) fun left =>
    assignTail inner.expression left

omit size

theorem variableDeclaration :
    Moves g (Stmt.relocate g) (variableDeclaration nested) (variableDeclaration nested) := by
  rw [variableDeclaration_eq]
  refine bind advance fun start => bind (expect _ _) fun name => ?_
  refine bind (behind _ inner.expression) fun value => bind (expect _ _) fun _ => ?_
  refine bind lastStop fun stop => pure ?_
  rw [Stmt.relocate_declare]
  rfl

theorem branchStatement :
    Moves g (Stmt.relocate g) (branchStatement nested) (branchStatement nested) := by
  rw [branchStatement_eq]
  refine bind advance fun start => bind (expect _ _) fun _ => bind inner.expression fun condition => ?_
  refine bind (expect _ _) fun _ => bind inner.statement fun yes => ?_
  refine bind (behind _ inner.statement) fun no => bind lastStop fun stop => pure ?_
  rw [Stmt.relocate_branch]
  rfl

theorem whileStatement :
    Moves g (Stmt.relocate g) (whileStatement nested) (whileStatement nested) := by
  refine bind advance fun start => bind (expect _ _) fun _ => bind inner.expression fun condition => ?_
  refine bind (expect _ _) fun _ => bind inner.statement fun body => ?_
  exact bind lastStop fun stop => pure rfl

theorem forFirst : Moves g (Option.map (Stmt.relocate g)) (forFirst nested) (forFirst nested) := by
  refine bind peekKind fun _ => ite _ (leaf fun _ => rfl) (ite _ ?_ ?_)
  · exact map (variableDeclaration inner) fun _ => rfl
  · exact map (expressionStatement inner.expression) fun _ => rfl

theorem forStatement : Moves g (Stmt.relocate g) (forStatement nested) (forStatement nested) := by
  rw [forStatement_eq]
  refine bind advance fun start => bind (expect _ _) fun _ => bind (forFirst inner) fun first => ?_
  refine bind (unlessNext _ inner.expression) fun condition => bind (expect _ _) fun _ => ?_
  refine bind (unlessNext _ inner.expression) fun step => bind (expect _ _) fun _ => ?_
  refine bind inner.statement fun body => bind lastStop fun stop => pure ?_
  rw [relocate_forLoop]
  rfl

theorem printStatement : Moves g (Stmt.relocate g) (printStatement nested) (printStatement nested) := by
  refine bind advance fun start => bind inner.expression fun value => bind (expect _ _) fun _ => ?_
  exact bind lastStop fun stop => pure rfl

theorem returnStatement :
    Moves g (Stmt.relocate g) (returnStatement nested) (returnStatement nested) := by
  rw [returnStatement_eq]
  refine bind openReturn fun start => bind (unlessNext _ inner.expression) fun value => ?_
  refine bind (expect _ _) fun _ => bind lastStop fun stop => pure ?_
  rw [Stmt.relocate_giveBack]
  rfl

include size

theorem functionDeclaration :
    Moves g (Stmt.relocate g) (functionDeclaration size nested) (functionDeclaration size nested) := by
  refine bind advance fun start => bind advance fun name => ?_
  refine bind (functionRest inner size _ _) fun f => bind lastStop fun stop => pure rfl

theorem statement : Moves g (Stmt.relocate g) (statement size nested) (statement size nested) := by
  rw [statement_eq]
  refine bind peekKind fun first => ?_
  rw [id]
  unfold statementBy
  split
  · exact forStatement inner
  · exact branchStatement inner
  · exact printStatement inner
  · exact returnStatement inner
  · exact whileStatement inner
  · exact map (block inner size) fun _ => rfl
  · exact expressionStatement (expression inner size)

theorem declarationBy (first second : Kind) : Moves g (Stmt.relocate g)
    (declarationBy size nested first second) (declarationBy size nested first second) := by
  cases first with
  | kwFun => exact ite _ (functionDeclaration inner size) (statement inner size)
  | kwVar => exact variableDeclaration inner
  | kwClass => exact failHere _
  | _ => exact statement inner size

theorem declaration : Moves g (Stmt.relocate g) (declaration size nested) (declaration size nested) := by
  intro ctx c
  have second : secondKind (c.relocate g).rest = secondKind c.rest := by
    obtain ⟨rest, last, reported⟩ := c
    match rest with
    | [] | [_] | _ :: _ :: _ => rfl
  rw [declaration_eq, declaration_eq, nextKind_relocate, second]
  exact declarationBy inner size _ _ ctx c

end

end Moves

theorem level_moves (g : Position → Position) (n : Nat) : (level n).Moves g := by
  induction n with
  | zero => exact ⟨.failHere _, .failHere _, .recovering (.failHere _)⟩
  | succ n ih => exact ⟨.expression ih _, .statement ih _, .recovering (.declaration ih _)⟩

theorem parse_relocate (g : Position → Position) (ended : ending.kind = .eof)
    (inner : ∀ t ∈ body, t.kind ≠ .eof) :
    parse ((body ++ [ending]).map (Token.relocate g)) =
      ((parse (body ++ [ending])).1.map (Stmt.relocate g),
        (parse (body ++ [ending])).2.map (Diagnostic.relocate g)) := by
  obtain ⟨stmts, c, ran, eq⟩ := parse_body ended inner
  have inner' : ∀ t ∈ body.map (Token.relocate g), t.kind ≠ .eof := by
    intro t mem
    obtain ⟨u, here, rfl⟩ := List.mem_map.1 mem
    exact inner u here
  have ended' : (ending.relocate g).kind = .eof := ended
  obtain ⟨stmts', c', ran', eq'⟩ := parse_body ended' inner'
  rw [List.length_map] at ran'
  have moved := Moves.declarations (level_moves g body.length).declaration false body.length
    ⟨ending, 0, 0⟩ ⟨body, none, []⟩
  rw [ran] at moved
  cases moved.symm.trans ran'
  rw [List.map_append, List.map_singleton, eq, eq', Stmt.relocateAll_eq_map]
  rfl

end Parse

end TinyScript
