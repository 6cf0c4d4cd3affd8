import TinyScript.Proofs.Tree.Stepwise

namespace TinyScript.Parse

-- The reader reads a token, if there is one.
class Shrinks (r : Reader α) : Prop where
  shorter : r ctx c = .ok a next → c.rest ≠ [] → next.rest.length < c.rest.length

namespace Shrinks

instance advance : Shrinks advance where
  shorter {ctx c _ _} ran some := by
    obtain ⟨rest, last, reported⟩ := c
    cases ran
    cases rest with
    | nil => exact absurd rfl some
    | cons t ts => exact Nat.lt_succ_self _

instance failHere (fault : Fault) : Shrinks (@failHere α fault) where
  shorter ran := by cases ran

section

variable {r : Reader α} {f : α → Reader β}

instance first [Shrinks r] [∀ a, Stepwise @Forward (f a)] : Shrinks (r >>= f) where
  shorter ran some := by
    obtain ⟨a, mid, ran₁, ran₂⟩ := Reader.of_bind_ok ran
    have moved : _ := (Stepwise.forward : Forward (f a)).ok ran₂
    exact Nat.lt_of_le_of_lt moved.1.length_le (shorter ran₁ some)

instance second [Stepwise @Forward r] [∀ a, Shrinks (f a)] [∀ a, Stepwise @Forward (f a)] :
    Shrinks (r >>= f) where
  shorter {ctx c _ _} ran some := by
    obtain ⟨a, mid, ran₁, ran₂⟩ := Reader.of_bind_ok ran
    have moved₁ : mid.Ahead c := Stepwise.forward.ok ran₁
    have moved₂ : _ := (Stepwise.forward : Forward (f a)).ok ran₂
    by_cases nothing : mid.rest = []
    · have ended : _ ≤ mid.rest.length := moved₂.1.length_le
      rw [nothing, List.length_nil] at ended
      exact Nat.lt_of_le_of_lt ended (List.length_pos_iff.2 some)
    · exact Nat.lt_of_lt_of_le (shorter ran₂ nothing) moved₁.1.length_le

instance ite {s : Reader α} (p : Prop) [Decidable p] [Shrinks r] [Shrinks s] :
    Shrinks (if p then r else s) := by
  split <;> infer_instance

instance map (g : α → β) [Shrinks r] : Shrinks (g <$> r) :=
  inferInstanceAs (Shrinks (r >>= fun a => Pure.pure (g a)))

instance recovering [Stepwise @Forward r] [Shrinks r] : Shrinks (recovering r) where
  shorter {ctx c _ _} ran some := by
    cases read : r ctx c with
    | ok b mid =>
      rw [recovering_ok read] at ran
      cases ran
      exact shorter read some
    | fail t fault failed =>
      obtain ⟨last, eq, _, _, fewer⟩ := recovering_fail read
      rw [eq] at ran
      cases ran
      exact fewer (Stepwise.forward.fail read).1.1.length_le some

end

instance expect (kind : Kind) (place : Place) : Shrinks (expect kind place) := by
  rw [expect_eq]; infer_instance

instance openReturn : Shrinks openReturn := by
  unfold Parse.openReturn; infer_instance

section

variable (size : Nat) {nested : Nested} [nested.Stepwise @Forward]

instance statementBy (first : Kind) : Shrinks (statementBy size nested first) := by
  unfold Parse.statementBy
  split
  · rw [forStatement_eq]; infer_instance
  · rw [branchStatement_eq]; infer_instance
  · unfold printStatement; infer_instance
  · rw [returnStatement_eq]; infer_instance
  · unfold whileStatement; infer_instance
  · unfold block; infer_instance
  · unfold expressionStatement; infer_instance

instance declarationBy (first second : Kind) : Shrinks (declarationBy size nested first second) := by
  unfold Parse.declarationBy
  have : Shrinks (statement size nested) := by rw [statement_eq]; infer_instance
  have : Shrinks (functionDeclaration size nested) := by unfold functionDeclaration; infer_instance
  have : Shrinks (variableDeclaration nested) := by rw [variableDeclaration_eq]; infer_instance
  split <;> infer_instance

instance declaration : Shrinks (declaration size nested) where
  shorter ran some := by
    rw [declaration_eq] at ran
    exact shorter ran some

end

instance level (n : Nat) : Shrinks (level n).declaration := by
  cases n with
  | zero => exact inferInstanceAs (Shrinks (Parse.recovering (Parse.failHere .noExpression)))
  | succ n =>
    have : Stepwise @Forward (Parse.declaration (n + 1) (Parse.level n)) := .given (.declaration (n + 1))
    exact inferInstanceAs (Shrinks (Parse.recovering (Parse.declaration (n + 1) (Parse.level n))))

end Shrinks

class Agree (n : Nat) (r s : Reader α) : Prop where
  same : ctx.ending.kind = .eof → c.rest.length ≤ n → r ctx c = s ctx c

namespace Agree

instance refl (n : Nat) (r : Reader α) : Agree n r r := ⟨fun _ _ => rfl⟩

theorem mono {r s : Reader α} (agree : Agree n r s) (fewer : m ≤ n) : Agree m r s :=
  ⟨fun ended short => agree.same ended (Nat.le_trans short fewer)⟩

theorem symm {r s : Reader α} (agree : Agree n r s) : Agree n s r :=
  ⟨fun ended short => (agree.same ended short).symm⟩

theorem trans {r s t : Reader α} (first : Agree n r s) (second : Agree n s t) : Agree n r t :=
  ⟨fun ended short => (first.same ended short).trans (second.same ended short)⟩

section

variable {r s : Reader α} {f g : α → Reader β}

theorem sequence [Stepwise @Forward r] (first : Agree n r s) (rest : ∀ a, Agree n (f a) (g a)) :
    Agree n (r >>= f) (s >>= g) where
  same {ctx c} ended short := by
    have first : r ctx c = s ctx c := first.same ended short
    cases read : r ctx c with
    | ok a next =>
      have moved : next.Ahead c := Stepwise.forward.ok read
      rw [Reader.bind_ok read, Reader.bind_ok (first ▸ read)]
      exact (rest a).same ended (Nat.le_trans moved.1.length_le short)
    | fail t fault next => rw [Reader.bind_fail read, Reader.bind_fail (first ▸ read)]

instance bind [Stepwise @Forward r] [Agree n r s] [∀ a, Agree n (f a) (g a)] :
    Agree n (r >>= f) (s >>= g) := sequence inferInstance inferInstance

-- Behind a token that was read, the lists are shorter.
theorem behindToken [Stepwise @Forward r] [Shrinks r] (first : Agree (n + 1) r s)
    (rest : ∀ a, Agree n (f a) (g a)) : Agree (n + 1) (r >>= f) (s >>= g) where
  same {ctx c} ended short := by
    have first : r ctx c = s ctx c := first.same ended short
    cases read : r ctx c with
    | ok a next =>
      rw [Reader.bind_ok read, Reader.bind_ok (first ▸ read)]
      refine (rest a).same ended ?_
      by_cases nothing : c.rest = []
      · have moved : next.Ahead c := Stepwise.forward.ok read
        have ended := moved.1.length_le
        rw [nothing] at ended
        exact Nat.le_trans ended (Nat.zero_le n)
      · have shorter := Shrinks.shorter read nothing
        omega
    | fail t fault next => rw [Reader.bind_fail read, Reader.bind_fail (first ▸ read)]

instance advance {f g : Token → Reader β} [∀ t, Agree n (f t) (g t)] :
    Agree (n + 1) (Parse.advance >>= f) (Parse.advance >>= g) := behindToken (refl _ _) inferInstance

instance expect {f g : Token → Reader β} (kind : Kind) (place : Place) [∀ t, Agree n (f t) (g t)] :
    Agree (n + 1) (Parse.expect kind place >>= f) (Parse.expect kind place >>= g) :=
  behindToken (refl _ _) inferInstance

instance ite {r' s' : Reader α} (p : Prop) [Decidable p] [Agree n r s] [Agree n r' s'] :
    Agree n (if p then r else r') (if p then s else s') := by
  split <;> infer_instance

instance map (h : α → β) [Stepwise @Forward r] [Agree n r s] : Agree n (h <$> r) (h <$> s) :=
  inferInstanceAs (Agree n (r >>= fun a => Pure.pure (h a)) (s >>= fun a => Pure.pure (h a)))

instance unlessNext (kind : Kind) [Stepwise @Forward r] [Agree n r s] :
    Agree n (unlessNext kind r) (unlessNext kind s) := by
  unfold Parse.unlessNext; infer_instance

instance behind (kind : Kind) [Stepwise @Forward r] [Agree n r s] :
    Agree n (behind kind r) (behind kind s) := by
  rw [behind_eq, behind_eq]; infer_instance

instance behindMore (kind : Kind) [Stepwise @Forward r] [Agree n r s] :
    Agree (n + 1) (Parse.behind kind r) (Parse.behind kind s) := by
  rw [behind_eq, behind_eq]; infer_instance

instance inBraces [agree : Agree n r s] : Agree n (within .braces r) (within .braces s) where
  same {ctx _} ended short := agree.same (show (Bracket.braces.enter ctx).ending.kind = .eof from ended) short

instance inBody [agree : Agree n r s] : Agree n (within .body r) (within .body s) where
  same {ctx _} ended short := agree.same (show (Bracket.body.enter ctx).ending.kind = .eof from ended) short

instance recovering [agree : Agree n r s] : Agree n (recovering r) (recovering s) where
  same ended short := recovering_congr (agree.same ended short) rfl

end

theorem of_end {r s : Reader α}
    (atEnd : ∀ ctx c, ctx.ending.kind = .eof → c.rest = [] → r ctx c = s ctx c) : Agree 0 r s :=
  ⟨fun ended short => atEnd _ _ ended (List.length_eq_zero_iff.1 (Nat.le_zero.1 short))⟩

-- A loop stops at the end of the list, whatever its bound, and reads a token in each round.

section

variable {operand operand' : Reader Expr} [Stepwise @Forward operand]

theorem chain {tier : Tier} (known : tier.ops.contains .eof = false) (agree : Agree n operand operand')
    (enough : n ≤ bound) (enough' : n ≤ bound') (left : Expr) :
    Agree n (chain tier operand bound left) (chain tier operand' bound' left) := by
  induction n generalizing bound bound' left with
  | zero =>
    have stop (operand : Reader Expr) (bound : Nat) (ctx : Context) (c : Cursor)
        (ended : ctx.ending.kind = .eof) (empty : c.rest = []) :
        Parse.chain tier operand bound left ctx c = .ok left c := by
      cases bound with
      | zero => rfl
      | succ bound =>
        show (if tier.ops.contains (c.rest.headD ctx.ending).kind = true then _ else _ : Reader Expr) ctx c = _
        rw [empty, List.headD_nil, ended, known]
        rfl
    exact of_end fun ctx c ended empty =>
      (stop operand bound ctx c ended empty).trans (stop operand' bound' ctx c ended empty).symm
  | succ n ih =>
    obtain ⟨bound, rfl⟩ : ∃ b, bound = b + 1 := ⟨bound - 1, by omega⟩
    obtain ⟨bound', rfl⟩ : ∃ b, bound' = b + 1 := ⟨bound' - 1, by omega⟩
    have fewer : Agree n operand operand' := agree.mono (Nat.le_succ n)
    have rest (left : Expr) := ih fewer (Nat.le_of_succ_le_succ enough) (Nat.le_of_succ_le_succ enough') left
    unfold Parse.chain
    infer_instance

theorem ladder {rungs : List Tier} (known : ∀ tier ∈ rungs, tier.ops.contains .eof = false)
    (agree : Agree n operand operand') (enough : n ≤ bound) (enough' : n ≤ bound') :
    Agree n (ladder bound operand rungs) (ladder bound' operand' rungs) := by
  induction rungs with
  | nil => exact agree
  | cons tier tighter ih =>
    have inner := ih fun tier mem => known tier (List.mem_cons_of_mem _ mem)
    have chains (left : Expr) := chain (known tier List.mem_cons_self) inner enough enough' left
    unfold Parse.ladder
    infer_instance

omit [Stepwise @Forward operand] in
theorem unary_end (ended : ctx.ending.kind = .eof) (empty : c.rest = []) :
    unary operand bound ctx c = operand ctx c := by
  cases bound with
  | zero => rfl
  | succ bound =>
    show (if (c.rest.headD ctx.ending).kind = .bang ∨ (c.rest.headD ctx.ending).kind = .minus then _
      else _ : Reader Expr) ctx c = _
    rw [empty, List.headD_nil, ended]
    rfl

theorem unary (agree : Agree n operand operand') (enough : n ≤ bound) (enough' : n ≤ bound') :
    Agree n (unary operand bound) (unary operand' bound') := by
  induction n generalizing bound bound' with
  | zero =>
    refine of_end fun ctx c ended empty => ?_
    rw [unary_end ended empty, unary_end ended empty]
    exact agree.same ended (by rw [empty]; exact Nat.le_refl 0)
  | succ n ih =>
    obtain ⟨bound, rfl⟩ : ∃ b, bound = b + 1 := ⟨bound - 1, by omega⟩
    obtain ⟨bound', rfl⟩ : ∃ b, bound' = b + 1 := ⟨bound' - 1, by omega⟩
    have rest := ih (agree.mono (Nat.le_succ n)) (Nat.le_of_succ_le_succ enough) (Nat.le_of_succ_le_succ enough')
    unfold Parse.unary
    infer_instance

omit [Stepwise @Forward operand] in
instance nothingBehind (r : Reader α) : Agree 0 (Parse.behind .comma r) (Pure.pure none) := by
  refine of_end fun ctx c ended empty => ?_
  rw [behind_eq]
  show (if (c.rest.headD ctx.ending).kind = .comma then _ else _ : Reader (Option α)) ctx c = _
  rw [empty, List.headD_nil, ended]
  rfl

theorem arguments_end (bound count : Nat) :
    Agree 0 (arguments operand bound count) (arguments operand 0 count) := by
  cases bound with
  | zero => exact refl 0 _
  | succ bound =>
    rw [arguments_succ, arguments_zero]
    exact inferInstanceAs (Agree 0 _ (do
      Parse.countAgainst count .tooManyArguments
      let e ← operand
      return e :: (← (Pure.pure none : Reader (Option (List Expr)))).getD []))

variable [Stepwise @Forward operand']

theorem arguments (agree : Agree n operand operand') (enough : n ≤ bound) (enough' : n ≤ bound')
    (count : Nat) : Agree n (arguments operand bound count) (arguments operand' bound' count) := by
  induction n generalizing bound bound' count with
  | zero =>
    have once : Agree 0 (Parse.arguments operand 0 count) (Parse.arguments operand' 0 count) := by
      rw [arguments_zero, arguments_zero]
      infer_instance
    exact (arguments_end bound count).trans (once.trans (arguments_end bound' count).symm)
  | succ n ih =>
    obtain ⟨bound, rfl⟩ : ∃ b, bound = b + 1 := ⟨bound - 1, by omega⟩
    obtain ⟨bound', rfl⟩ : ∃ b, bound' = b + 1 := ⟨bound' - 1, by omega⟩
    have rest := ih (agree.mono (Nat.le_succ n)) (Nat.le_of_succ_le_succ enough)
      (Nat.le_of_succ_le_succ enough') (count + 1)
    rw [arguments_succ, arguments_succ]
    infer_instance

-- The expressions are called behind a parenthesis, where the list is shorter.
theorem calls (agree : Agree n operand operand') (wide : n ≤ size) (wide' : n ≤ size') (fewer : m ≤ n + 1)
    (enough : m ≤ bound) (enough' : m ≤ bound') (callee : Expr) :
    Agree m (calls operand size bound callee) (calls operand' size' bound' callee) := by
  induction m generalizing bound bound' callee with
  | zero =>
    have stop (operand : Reader Expr) (size bound : Nat) (ctx : Context) (c : Cursor)
        (ended : ctx.ending.kind = .eof) (empty : c.rest = []) :
        Parse.calls operand size bound callee ctx c = .ok callee c := by
      cases bound with
      | zero => rfl
      | succ bound =>
        rw [calls_succ]
        show (if (c.rest.headD ctx.ending).kind = .leftParen then _ else _ : Reader Expr) ctx c = _
        rw [empty, List.headD_nil, ended]
        rfl
    exact of_end fun ctx c ended empty =>
      (stop operand size bound ctx c ended empty).trans (stop operand' size' bound' ctx c ended empty).symm
  | succ m ih =>
    obtain ⟨bound, rfl⟩ : ∃ b, bound = b + 1 := ⟨bound - 1, by omega⟩
    obtain ⟨bound', rfl⟩ : ∃ b, bound' = b + 1 := ⟨bound' - 1, by omega⟩
    have few : m ≤ n := Nat.le_of_succ_le_succ fewer
    have args := arguments (agree.mono few) (Nat.le_trans few wide) (Nat.le_trans few wide') 0
    have rest (callee : Expr) := ih (Nat.le_of_succ_le fewer) (Nat.le_of_succ_le_succ enough)
      (Nat.le_of_succ_le_succ enough') callee
    rw [calls_succ, calls_succ]
    infer_instance

end

theorem parameters (enough : n ≤ bound) (enough' : n ≤ bound') (count : Nat) :
    Agree n (parameters bound count) (parameters bound' count) := by
  induction n generalizing bound bound' count with
  | zero =>
    have once (bound : Nat) : Agree 0 (Parse.parameters bound count) (Parse.parameters 0 count) := by
      cases bound with
      | zero => exact refl 0 _
      | succ bound =>
        rw [parameters_succ, parameters_zero]
        exact inferInstanceAs (Agree 0 _ (do
          Parse.countAgainst count .tooManyParameters
          let t ← Parse.expect .ident .asParameterName
          return t.lexeme :: (← (Pure.pure none : Reader (Option (List Bytes)))).getD []))
    exact (once bound).trans (once bound').symm
  | succ n ih =>
    obtain ⟨bound, rfl⟩ : ∃ b, bound = b + 1 := ⟨bound - 1, by omega⟩
    obtain ⟨bound', rfl⟩ : ∃ b, bound' = b + 1 := ⟨bound' - 1, by omega⟩
    have rest := ih (Nat.le_of_succ_le_succ enough) (Nat.le_of_succ_le_succ enough') (count + 1)
    rw [parameters_succ, parameters_succ]
    infer_instance

theorem declarations {item item' : Reader (Option Stmt)} [Stepwise @Forward item] [Shrinks item]
    (agree : Agree n item item') (braced : Bool) (enough : n ≤ bound) (enough' : n ≤ bound') :
    Agree n (declarations item braced bound) (declarations item' braced bound') := by
  induction n generalizing bound bound' with
  | zero =>
    have stop (item : Reader (Option Stmt)) (bound : Nat) (ctx : Context) (c : Cursor)
        (ended : ctx.ending.kind = .eof) (empty : c.rest = []) :
        Parse.declarations item braced bound ctx c = .ok [] c := by
      cases bound with
      | zero => rfl
      | succ bound =>
        show (if (c.rest.headD ctx.ending).kind = .eof ∨
          (braced ∧ (c.rest.headD ctx.ending).kind = .rightBrace) then _ else _ : Reader (List Stmt)) ctx c = _
        rw [empty, List.headD_nil, if_pos (.inl ended)]
        rfl
    exact of_end fun ctx c ended empty =>
      (stop item bound ctx c ended empty).trans (stop item' bound' ctx c ended empty).symm
  | succ n ih =>
    obtain ⟨bound, rfl⟩ : ∃ b, bound = b + 1 := ⟨bound - 1, by omega⟩
    obtain ⟨bound', rfl⟩ : ∃ b, bound' = b + 1 := ⟨bound' - 1, by omega⟩
    have rest := ih (agree.mono (Nat.le_succ n)) (Nat.le_of_succ_le_succ enough) (Nat.le_of_succ_le_succ enough')
    have round : Agree (n + 1)
        (do let s ← item; let ss ← Parse.declarations item braced bound; Pure.pure (s.toList ++ ss))
        (do let s ← item'; let ss ← Parse.declarations item' braced bound'; Pure.pure (s.toList ++ ss)) :=
      behindToken agree fun s => inferInstance
    unfold Parse.declarations
    infer_instance

end Agree

class Nested.Agree (n : Nat) (nested nested' : Nested) : Prop where
  expression : Parse.Agree n nested.expression nested'.expression
  statement : Parse.Agree n nested.statement nested'.statement
  declaration : Parse.Agree n nested.declaration nested'.declaration

attribute [instance] Nested.Agree.expression Nested.Agree.statement Nested.Agree.declaration

namespace Agree

section

variable {nested nested' : Nested} [nested.Agree n nested'] [nested.Stepwise @Forward]

theorem variableDeclaration : Agree (n + 1) (variableDeclaration nested) (variableDeclaration nested') := by
  rw [variableDeclaration_eq, variableDeclaration_eq]; infer_instance

theorem branchStatement : Agree (n + 1) (branchStatement nested) (branchStatement nested') := by
  rw [branchStatement_eq, branchStatement_eq]; infer_instance

theorem whileStatement : Agree (n + 1) (whileStatement nested) (whileStatement nested') := by
  unfold Parse.whileStatement; infer_instance

theorem forStatement : Agree (n + 1) (forStatement nested) (forStatement nested') := by
  have declared : Agree n (Parse.variableDeclaration nested) (Parse.variableDeclaration nested') :=
    variableDeclaration.mono (Nat.le_succ n)
  have stated : Agree n (expressionStatement nested.expression) (expressionStatement nested'.expression) := by
    unfold expressionStatement; infer_instance
  have first : Agree n (forFirst nested) (forFirst nested') := by unfold forFirst; infer_instance
  rw [forStatement_eq, forStatement_eq]
  exact behindToken (refl _ _) fun start => sequence (refl _ _) fun _ => sequence first inferInstance

theorem printStatement : Agree (n + 1) (printStatement nested) (printStatement nested') := by
  unfold Parse.printStatement; infer_instance

theorem returnStatement : Agree (n + 1) (returnStatement nested) (returnStatement nested') := by
  rw [returnStatement_eq, returnStatement_eq]
  exact behindToken (refl _ _) inferInstance

variable [Shrinks nested.declaration]

theorem block (wide : n ≤ size) (wide' : n ≤ size') :
    Agree (n + 1) (block size nested) (block size' nested') := by
  have listed : Agree n (Parse.declarations nested.declaration true size)
      (Parse.declarations nested'.declaration true size') := declarations inferInstance true wide wide'
  unfold Parse.block
  infer_instance

theorem functionRest (wide : n ≤ size) (wide' : n ≤ size') (afterName beforeBody : Place) :
    Agree (n + 1) (functionRest size nested afterName beforeBody)
      (functionRest size' nested' afterName beforeBody) := by
  have names : Agree n (Parse.parameters size 0) (Parse.parameters size' 0) := parameters wide wide' 0
  have body : Agree n (Parse.block size nested) (Parse.block size' nested') :=
    (block wide wide').mono (Nat.le_succ n)
  rw [functionRest_eq, functionRest_eq]
  refine behindToken (refl _ _) fun _ => ?_
  infer_instance

theorem functionDeclaration (wide : n ≤ size) (wide' : n ≤ size') :
    Agree (n + 1) (functionDeclaration size nested) (functionDeclaration size' nested') := by
  have rest : Agree n (Parse.functionRest size nested .afterFunctionName .beforeFunctionBody)
      (Parse.functionRest size' nested' .afterFunctionName .beforeFunctionBody) :=
    (functionRest wide wide' _ _).mono (Nat.le_succ n)
  unfold Parse.functionDeclaration
  infer_instance

theorem primary (wide : n ≤ size) (wide' : n ≤ size') :
    Agree (n + 1) (primary size nested) (primary size' nested') := by
  have lambda : Agree n (Parse.functionRest size nested .afterLambdaName .beforeLambdaBody)
      (Parse.functionRest size' nested' .afterLambdaName .beforeLambdaBody) :=
    (functionRest wide wide' _ _).mono (Nat.le_succ n)
  have parts (first : Kind) : Agree (n + 1) (primaryBy size nested first) (primaryBy size' nested' first) := by
    unfold primaryBy
    split <;> infer_instance
  rw [primary_eq, primary_eq]
  infer_instance

variable [nested'.Stepwise @Forward]

theorem call (wide : n + 1 ≤ size) (wide' : n + 1 ≤ size') :
    Agree (n + 1) (call size nested) (call size' nested') := by
  have few := Nat.le_of_succ_le wide
  have few' := Nat.le_of_succ_le wide'
  have callee : Agree (n + 1) (Parse.primary size nested) (Parse.primary size' nested') := primary few few'
  have more (callee : Expr) : Agree (n + 1) (Parse.calls nested.expression size size callee)
      (Parse.calls nested'.expression size' size' callee) :=
    calls inferInstance few few' (Nat.le_refl _) wide wide' callee
  unfold Parse.call
  infer_instance

theorem expression (wide : n + 1 ≤ size) (wide' : n + 1 ≤ size') :
    Agree (n + 1) (expression size nested) (expression size' nested') := by
  have called : Agree (n + 1) (Parse.call size nested) (Parse.call size' nested') := call wide wide'
  have known : ∀ tier ∈ tiers, tier.ops.contains .eof = false := by decide
  have operations := ladder known (unary called wide wide') wide wide'
  have assigned (left : Expr) : Agree (n + 1) (assignTail nested.expression left)
      (assignTail nested'.expression left) := by
    unfold assignTail
    cases left <;> infer_instance
  rw [expression_eq, expression_eq]
  infer_instance

theorem statement (wide : n + 1 ≤ size) (wide' : n + 1 ≤ size') :
    Agree (n + 1) (statement size nested) (statement size' nested') := by
  have few := Nat.le_of_succ_le wide
  have few' := Nat.le_of_succ_le wide'
  have kinds (first : Kind) : Agree (n + 1) (statementBy size nested first) (statementBy size' nested' first) := by
    unfold statementBy
    split
    · exact forStatement
    · exact branchStatement
    · exact printStatement
    · exact returnStatement
    · exact whileStatement
    · have body : Agree (n + 1) (Parse.block size nested) (Parse.block size' nested') := block few few'
      infer_instance
    · have value : Agree (n + 1) (Parse.expression size nested) (Parse.expression size' nested') :=
        expression wide wide'
      unfold expressionStatement
      infer_instance
  rw [statement_eq, statement_eq]
  infer_instance

theorem declaration (wide : n + 1 ≤ size) (wide' : n + 1 ≤ size') :
    Agree (n + 1) (declaration size nested) (declaration size' nested') where
  same {ctx c} ended short := by
    have kinds (first second : Kind) : Agree (n + 1) (declarationBy size nested first second)
        (declarationBy size' nested' first second) := by
      have stated : Agree (n + 1) (Parse.statement size nested) (Parse.statement size' nested') :=
        statement wide wide'
      have declared : Agree (n + 1) (Parse.variableDeclaration nested) (Parse.variableDeclaration nested') :=
        variableDeclaration
      have named : Agree (n + 1) (Parse.functionDeclaration size nested)
          (Parse.functionDeclaration size' nested') :=
        functionDeclaration (Nat.le_of_succ_le wide) (Nat.le_of_succ_le wide')
      unfold declarationBy
      split <;> infer_instance
    rw [declaration_eq, declaration_eq]
    exact (kinds _ _).same ended short

end

end Agree

theorem ladder_fail {operand : Reader Expr} (failed : operand ctx c = .fail t fault next) (bound : Nat)
    (rungs : List Tier) : ladder bound operand rungs ctx c = .fail t fault next := by
  induction rungs with
  | nil => exact failed
  | cons tier tighter ih => exact Reader.bind_fail ih

theorem expression_fail (unsigned : nextKind ctx c.rest ≠ .bang ∧ nextKind ctx c.rest ≠ .minus)
    (failed : primary (size + 1) nested ctx c = .fail t fault next) :
    expression (size + 1) nested ctx c = .fail t fault next := by
  have called : call (size + 1) nested ctx c = .fail t fault next := Reader.bind_fail failed
  have operand : unary (call (size + 1) nested) (size + 1) ctx c = .fail t fault next := by
    show (if nextKind ctx c.rest = .bang ∨ nextKind ctx c.rest = .minus then _ else _ : Reader Expr) ctx c = _
    rw [if_neg (by simp [unsigned])]
    exact called
  exact Reader.bind_fail (ladder_fail operand _ tiers)

theorem expression_end (ended : ctx.ending.kind = .eof) (empty : c.rest = []) :
    expression (size + 1) nested ctx c = .fail ctx.ending .noExpression c := by
  have sees : nextKind ctx c.rest = .eof := by rw [empty]; exact ended
  refine expression_fail (by rw [sees]; decide) ?_
  rw [primary_eq]
  show primaryBy (size + 1) nested (nextKind ctx c.rest) ctx c = _
  rw [sees]
  show Reply.fail (c.rest.headD ctx.ending) _ _ = _
  rw [empty]
  rfl

theorem statement_end (ended : ctx.ending.kind = .eof) (empty : c.rest = []) :
    statement (size + 1) nested ctx c = .fail ctx.ending .noExpression c := by
  have sees : nextKind ctx c.rest = .eof := by rw [empty]; exact ended
  rw [statement_eq]
  show statementBy (size + 1) nested (nextKind ctx c.rest) ctx c = _
  rw [sees]
  exact Reader.bind_fail (expression_end ended empty)

theorem declaration_end (ended : ctx.ending.kind = .eof) (empty : c.rest = []) :
    declaration (size + 1) nested ctx c = .fail ctx.ending .noExpression c := by
  have sees : nextKind ctx c.rest = .eof := by rw [empty]; exact ended
  rw [declaration_eq, sees]
  exact statement_end ended empty

theorem missing_agree {r : Reader α} (atEnd : ∀ ctx c, ctx.ending.kind = .eof → c.rest = [] →
    r ctx c = .fail ctx.ending .noExpression c) : Agree 0 (failHere .noExpression) r := by
  refine .of_end fun ctx c ended empty => ?_
  rw [atEnd ctx c ended empty]
  show Reply.fail (c.rest.headD ctx.ending) _ _ = _
  rw [empty]
  rfl

theorem level_agree (fewer : n ≤ m) : (level n).Agree n (level m) := by
  induction n generalizing m with
  | zero =>
    cases m with
    | zero => exact ⟨.refl 0 _, .refl 0 _, .refl 0 _⟩
    | succ m =>
      have declared : Agree 0 (failHere .noExpression) (declaration (m + 1) (level m)) :=
        missing_agree fun _ _ => declaration_end
      exact ⟨missing_agree fun _ _ => expression_end, missing_agree fun _ _ => statement_end,
        inferInstanceAs (Agree 0 (recovering (failHere .noExpression))
          (recovering (declaration (m + 1) (level m))))⟩
  | succ n ih =>
    obtain ⟨m, rfl⟩ : ∃ k, m = k + 1 := ⟨m - 1, by omega⟩
    have inner := ih (Nat.le_of_succ_le_succ fewer)
    have declared : Agree (n + 1) (declaration (n + 1) (level n)) (declaration (m + 1) (level m)) :=
      .declaration (Nat.le_refl _) fewer
    exact ⟨.expression (Nat.le_refl _) fewer, .statement (Nat.le_refl _) fewer,
      inferInstanceAs (Agree (n + 1) (recovering (declaration (n + 1) (level n)))
        (recovering (declaration (m + 1) (level m))))⟩

end TinyScript.Parse
