import TinyScript.Proofs.Tree.Soundness

namespace TinyScript.Parse

open Grammar

def Reads (r : Reader α) (ctx : Context) (tokens rest : List Token) (good : α → Prop) : Prop :=
  ∀ last reported, ∃ a stop, r ctx ⟨tokens, last, reported⟩ = .ok a ⟨rest, stop, reported⟩ ∧ good a

namespace Reads

variable {ctx : Context} {tokens mid rest ts : List Token} {t : Token} {good : α → Prop} {fine : β → Prop}
  {r : Reader α} {f : α → Reader β}

theorem pure {a : α} (holds : good a) : Reads (Pure.pure a) ctx tokens tokens good :=
  fun last _ => ⟨a, last, rfl, holds⟩

theorem bind (first : Reads r ctx tokens mid good)
    (second : ∀ a, good a → Reads (f a) ctx mid rest fine) : Reads (r >>= f) ctx tokens rest fine := by
  intro last reported
  obtain ⟨a, stop, ran, holds⟩ := first last reported
  obtain ⟨b, final, ended, also⟩ := second a holds stop reported
  exact ⟨b, final, (Reader.bind_ok ran).trans ended, also⟩

theorem map (g : α → β) (inner : Reads r ctx tokens rest fun a => fine (g a)) :
    Reads (g <$> r) ctx tokens rest fine :=
  bind inner fun _ holds => pure holds

theorem ifTrue {p : Prop} [Decidable p] {s : Reader α} (holds : p) (yes : Reads r ctx tokens rest good) :
    Reads (if p then r else s) ctx tokens rest good := by
  rw [if_pos holds]
  exact yes

theorem ifFalse {p : Prop} [Decidable p] {s : Reader α} (fails : ¬p) (no : Reads s ctx tokens rest good) :
    Reads (if p then r else s) ctx tokens rest good := by
  rw [if_neg fails]
  exact no

theorem peekKind {f : Kind → Reader β} (next : Reads (f (nextKind ctx tokens)) ctx tokens rest fine) :
    Reads (peekKind >>= f) ctx tokens rest fine := next

theorem peek {f : Token → Reader β} (next : Reads (f (tokens.headD ctx.ending)) ctx tokens rest fine) :
    Reads (peek >>= f) ctx tokens rest fine := next

theorem advance {f : Token → Reader β} (next : Reads (f t) ctx ts rest fine) :
    Reads (advance >>= f) ctx (t :: ts) rest fine := fun _ reported => next (some t) reported

theorem expect {f : Token → Reader β} (isKind : t.kind = kind) (next : Reads (f t) ctx ts rest fine) :
    Reads (expect kind place >>= f) ctx (t :: ts) rest fine := by
  rw [expect_eq, Reader.bind_assoc]
  refine peekKind ?_
  rw [Reader.ite_bind]
  exact ifTrue isKind (advance next)

theorem lastStop {f : Position → Reader β} (next : ∀ p, Reads (f p) ctx tokens rest fine) :
    Reads (lastStop >>= f) ctx tokens rest fine := fun last reported => next _ last reported

theorem within (bracket : Bracket) (inner : Reads r (bracket.enter ctx) tokens rest good) :
    Reads (within bracket r) ctx tokens rest good := inner

theorem behind {good : Option α → Prop} (isKind : t.kind = kind)
    (inner : Reads r ctx ts rest fun a => good (some a)) : Reads (behind kind r) ctx (t :: ts) rest good := by
  rw [behind_eq]
  exact peekKind (ifTrue isKind (advance (map some inner)))

theorem notBehind {good : Option α → Prop} (sees : nextKind ctx tokens ≠ kind) (holds : good none) :
    Reads (Parse.behind kind r) ctx tokens tokens good := by
  rw [behind_eq]
  exact peekKind (ifFalse sees (pure holds))

theorem unlessNext {good : Option α → Prop} (sees : nextKind ctx tokens ≠ kind)
    (inner : Reads r ctx tokens rest fun a => good (some a)) :
    Reads (unlessNext kind r) ctx tokens rest good := peekKind (ifFalse sees (map some inner))

theorem next {good : Option α → Prop} (sees : nextKind ctx tokens = kind) (holds : good none) :
    Reads (Parse.unlessNext kind r) ctx tokens tokens good := peekKind (ifTrue sees (pure holds))

theorem countAgainst {f : Unit → Reader β} (few : count < maxArguments)
    (next : Reads (f ()) ctx tokens rest fine) :
    Reads (countAgainst count fault >>= f) ctx tokens rest fine := by
  unfold Parse.countAgainst
  rw [if_neg (Nat.not_le_of_lt few)]
  exact next

theorem openReturn {f : Token → Reader β} (inside : ctx.inFunction = true)
    (next : Reads (f t) ctx ts rest fine) : Reads (openReturn >>= f) ctx (t :: ts) rest fine := by
  unfold Parse.openReturn
  rw [Reader.bind_assoc]
  refine advance ?_
  intro last reported
  show ∃ a stop, ((if !ctx.inFunction then _ else _ : Reader Token) >>= f) ctx _ = _ ∧ _
  rw [inside]
  exact next last reported

theorem recovering {good : Option α → Prop} (inner : Reads r ctx tokens rest fun a => good (some a)) :
    Reads (recovering r) ctx tokens rest good := by
  intro last reported
  obtain ⟨a, stop, ran, holds⟩ := inner last reported
  exact ⟨some a, stop, recovering_ok ran, holds⟩

end Reads

-- How tightly a token ties what follows to an expression in front of it.
def binding : Kind → Nat
  | .equal => 1
  | .leftParen => 8
  | k => (precedence? k).elim 0 fun p => rank p + 2

theorem binding_of_precedence (found : precedence? kind = some p) : binding kind = rank p + 2 := by
  revert found
  cases p <;> cases kind <;> decide

def operands (n : Nat) (p : Precedence) : Reader Expr :=
  ladder (n + 1) (unary (call (n + 1) (level n)) (n + 1)) (tiers.drop (rank p + 1))

def operations (n : Nat) (p : Precedence) : Reader Expr :=
  ladder (n + 1) (unary (call (n + 1) (level n)) (n + 1)) (tiers.drop (rank p))

theorem operations_eq (n : Nat) (p : Precedence) : operations n p =
    (do chain (tierOf p) (operands n p) (n + 1) (← operands n p)) := by
  unfold operations
  rw [tiers_drop]
  rfl

-- The words of a symbol are read by its reader, at every level that is high enough. The two symbols
-- that extend to the right, calls and operations, hand on to the loop that reads the extensions: what
-- that loop makes of the rest is what the reader makes of the word and the rest.
def Complete : {α : Type} → Symbol α → List Token → α → Prop
  | _, .primary, w, e => ∀ n ctx rest, (w ++ rest).length ≤ n + 1 →
    Reads (primary (n + 1) (level n)) ctx (w ++ rest) rest (·.bare = e)
  | _, .call, w, e => ∀ n ctx rest, (w ++ rest).length ≤ n + 1 →
    ∃ bound, rest.length ≤ bound ∧ ∀ final good,
      (∀ callee, callee.bare = e →
        Reads (calls (level n).expression (n + 1) bound callee) ctx rest final good) →
      Reads (call (n + 1) (level n)) ctx (w ++ rest) final good
  | _, .unary, w, e => ∀ n bound ctx rest, (w ++ rest).length ≤ n + 1 → (w ++ rest).length ≤ bound →
    binding (nextKind ctx rest) < 8 →
    Reads (unary (call (n + 1) (level n)) bound) ctx (w ++ rest) rest (·.bare = e)
  | _, .operation p, w, e => ∀ n ctx rest, (w ++ rest).length ≤ n + 1 →
    binding (nextKind ctx rest) ≤ rank p + 2 →
    ∃ bound, rest.length ≤ bound ∧ ∀ final good,
      (∀ left, left.bare = e → Reads (chain (tierOf p) (operands n p) bound left) ctx rest final good) →
      Reads (operations n p) ctx (w ++ rest) final good
  | _, .expression, w, e => ∀ n ctx rest, (w ++ rest).length ≤ n → binding (nextKind ctx rest) = 0 →
    Reads (level n).expression ctx (w ++ rest) rest (·.bare = e)
  | _, .clause, w, e => ∀ n ctx rest kind, (w ++ rest).length ≤ n → nextKind ctx rest = kind →
    kind = .semicolon ∨ kind = .rightParen →
    Reads (unlessNext kind (level n).expression) ctx (w ++ rest) rest (·.map Expr.bare = e)
  | _, .arguments, w, es => ∀ n bound count ctx rest, (w ++ rest).length ≤ n →
    (w ++ rest).length ≤ bound → count + es.length ≤ maxArguments → nextKind ctx rest = .rightParen →
    Reads (arguments (level n).expression bound count) ctx (w ++ rest) rest (Expr.bareAll · = es)
  | _, .parameters, w, ps => ∀ bound count ctx rest, (w ++ rest).length ≤ bound →
    count + ps.length ≤ maxArguments → nextKind ctx rest = .rightParen →
    Reads (parameters bound count) ctx (w ++ rest) rest (· = ps)
  | _, .function, w, f => ∀ n ctx rest afterName beforeBody, (w ++ rest).length ≤ n + 1 →
    Reads (functionRest (n + 1) (level n) afterName beforeBody) ctx (w ++ rest) rest
      fun g => (g.1, g.2.bare) = f
  | _, .block inside, w, b => ∀ n ctx rest, ctx.inFunction = inside → (w ++ rest).length ≤ n + 1 →
    Reads (block (n + 1) (level n)) ctx (w ++ rest) rest (·.bare = b)
  | _, .initial, w, s => ∀ n ctx rest, (w ++ rest).length ≤ n →
    Reads (forFirst (level n)) ctx (w ++ rest) rest (·.map Stmt.bare = s)
  | _, .variableDeclaration, w, s => ∀ n ctx rest, (w ++ rest).length ≤ n + 1 →
    Reads (variableDeclaration (level n)) ctx (w ++ rest) rest (·.bare = s)
  | _, .expressionStatement, w, s => ∀ n ctx rest, (w ++ rest).length ≤ n →
    Reads (expressionStatement (level n).expression) ctx (w ++ rest) rest (·.bare = s)
  | _, .statement inside dangling, w, s => ∀ n ctx rest, ctx.inFunction = inside →
    (w ++ rest).length ≤ n → (dangling = true → nextKind ctx rest ≠ .kwElse) →
    Reads (level n).statement ctx (w ++ rest) rest (·.bare = s)
  | _, .declaration inside, w, s => ∀ n ctx rest, ctx.inFunction = inside →
    (w ++ rest).length ≤ n → nextKind ctx rest ≠ .kwElse →
    Reads (level n).declaration ctx (w ++ rest) rest (·.map Stmt.bare = some s)
  | _, .declarations inside, w, ss => ∀ n bound braced ctx rest, ctx.inFunction = inside →
    (w ++ rest).length ≤ n → (w ++ rest).length ≤ bound → Stops ctx braced rest →
    Reads (declarations (level n).declaration braced bound) ctx (w ++ rest) rest (Stmt.bareAll · = ss)

theorem starts_next {starts : Kind → Bool} (opens : Opens starts w) (ctx : Context) (rest : List Token) :
    starts (nextKind ctx (w ++ rest)) = true := by
  obtain ⟨t, ts, rfl, starts, _⟩ := opens
  exact starts

theorem ne_of_starts {starts : Kind → Bool} (seen : starts kind = true) (refused : starts other = false) :
    kind ≠ other := by
  rintro rfl
  exact absurd seen (by simp [refused])

theorem level_pos {starts : Kind → Bool} (opens : Opens starts w)
    (short : (w ++ rest).length ≤ n) : ∃ m, n = m + 1 := by
  obtain ⟨t, ts, rfl, _⟩ := opens
  rw [List.cons_append, List.length_cons] at short
  exact ⟨n - 1, by omega⟩

@[simp] theorem nextKind_cons (ctx : Context) (t : Token) (ts : List Token) :
    nextKind ctx (t :: ts) = t.kind := rfl

theorem binding_next (isKind : t.kind = kind) (loose : binding kind = 0) :
    binding (nextKind ctx (t :: rest)) = 0 := by
  rw [nextKind_cons, isKind]
  exact loose

theorem statementBy_of_starts (starts : startsExpression kind = true) :
    statementBy size nested kind = expressionStatement (expression size nested) := by
  cases kind <;> first | rfl | cases starts

theorem declarationBy_of_starts (starts : startsStatement first = true)
    (lambda : first = .kwFun → second ≠ .ident) :
    declarationBy size nested first second = statement size nested := by
  cases first <;> first | rfl | exact if_neg (lambda rfl) | cases starts

namespace Complete

theorem call_ends (read : Complete .call w e) (short : (w ++ rest).length ≤ n + 1)
    (ends : binding (nextKind ctx rest) < 8) :
    Reads (call (n + 1) (level n)) ctx (w ++ rest) rest (·.bare = e) := by
  obtain ⟨bound, _, goOn⟩ := read n ctx rest short
  refine goOn rest _ fun callee same => ?_
  cases bound with
  | zero => exact .pure same
  | succ bound =>
    rw [calls_succ]
    refine .peekKind (.ifFalse (fun isOpen => ?_) (.pure same))
    rw [isOpen] at ends
    exact absurd ends (by decide)

theorem operation_ends (read : Complete (.operation p) w e) (short : (w ++ rest).length ≤ n + 1)
    (ends : binding (nextKind ctx rest) < rank p + 2) :
    Reads (operations n p) ctx (w ++ rest) rest (·.bare = e) := by
  obtain ⟨bound, _, goOn⟩ := read n ctx rest short (Nat.le_of_lt ends)
  refine goOn rest _ fun left same => ?_
  cases bound with
  | zero => exact .pure same
  | succ bound =>
    refine .peekKind (.ifFalse (fun joins => ?_) (.pure same))
    rw [binding_of_precedence ((mem_tierOf p _).1 joins)] at ends
    exact Nat.lt_irrefl _ ends

theorem operand (read : Complete p.operand w e) (short : (w ++ rest).length ≤ n + 1)
    (ends : binding (nextKind ctx rest) ≤ rank p + 2) :
    Reads (operands n p) ctx (w ++ rest) rest (·.bare = e) := by
  cases p with
  | factor => exact read n (n + 1) ctx rest short short (Nat.lt_succ_of_le ends)
  | disjunction | conjunction | equality | comparison | term =>
    exact operation_ends read short (Nat.lt_succ_of_le ends)

theorem primaryBy (isKind : t.kind = kind)
    (read : ∀ n ctx rest, (t :: w ++ rest).length ≤ n + 1 →
      Reads (primaryBy (n + 1) (level n) kind) ctx (t :: w ++ rest) rest (·.bare = e)) :
    Complete .primary (t :: w) e := by
  intro n ctx rest short
  rw [primary_eq]
  refine .peekKind ?_
  rw [show nextKind ctx (t :: w ++ rest) = kind from isKind]
  exact read n ctx rest short

theorem grouping (isOpen : t.kind = .leftParen) (read : Complete .expression w e)
    (isClose : u.kind = .rightParen) : Complete .primary (t :: w ++ [u]) (.grouping .unknown e) := by
  rw [List.cons_append]
  refine primaryBy isOpen fun n ctx rest short => ?_
  simp only [List.append_assoc, List.cons_append, List.nil_append, List.length_cons] at short ⊢
  refine .advance (.bind (read n ctx (u :: rest) (by omega) (binding_next isClose rfl)) fun e' same => ?_)
  refine .expect isClose (.lastStop fun _ => .pure ?_)
  rw [Expr.bare, same]

theorem lambda (isFun : t.kind = .kwFun) (read : Complete .function w (params, body)) :
    Complete .primary (t :: w) (.lambda .unknown params body) := by
  refine primaryBy isFun fun n ctx rest short => ?_
  rw [List.cons_append, List.length_cons] at short
  refine .advance (.bind (read n ctx rest _ _ (by omega)) fun f same => .lastStop fun _ => .pure ?_)
  cases same
  rfl

theorem argument (read : Complete .expression w e) : Complete .arguments w [e] := by
  intro n bound count ctx rest short enough few ends
  rw [List.length_singleton] at few
  have read := read n ctx rest short (by rw [ends]; rfl)
  cases bound with
  | zero =>
    rw [arguments_zero]
    refine .countAgainst few (.bind read fun e' same => .pure ?_)
    rw [Expr.bareAll, same]
    rfl
  | succ bound =>
    rw [arguments_succ]
    have noMore : Reads (behind .comma (arguments (level n).expression bound (count + 1))) ctx rest rest
        (· = none) := .notBehind (by rw [ends]; decide) rfl
    refine .countAgainst few (.bind read fun e' same => .bind noMore fun es isNone => .pure ?_)
    rw [Expr.bareAll, same, isNone]
    rfl

theorem argumentMore (read : Complete .expression w e) (isComma : t.kind = .comma)
    (more : Complete .arguments v es) : Complete .arguments (w ++ t :: v) (e :: es) := by
  intro n bound count ctx rest short enough few ends
  simp only [List.append_assoc, List.cons_append] at short enough ⊢
  have first := read n ctx (t :: (v ++ rest)) short (binding_next isComma rfl)
  rw [List.length_cons] at few
  simp only [List.length_append, List.length_cons] at short enough
  cases bound with
  | zero => omega
  | succ bound =>
    rw [arguments_succ]
    have others : Reads (behind .comma (arguments (level n).expression bound (count + 1))) ctx
        (t :: (v ++ rest)) rest fun args => Expr.bareAll (args.getD []) = es := by
      refine .behind isComma (more n bound (count + 1) ctx rest ?_ ?_ (by omega) ends)
      · rw [List.length_append]; omega
      · rw [List.length_append]; omega
    refine .countAgainst (by omega) (.bind first fun e' same => .bind others fun args same' => .pure ?_)
    rw [Expr.bareAll, same, same']

theorem single (p : Precedence) (read : Complete p.operand w e) : Complete (.operation p) w e := by
  intro n ctx rest short ends
  refine ⟨n + 1, ?_, fun final good goOn => ?_⟩
  · rw [List.length_append] at short
    omega
  · rw [operations_eq]
    exact .bind (operand read short ends) goOn

theorem joined (p : Precedence) (left : Complete (.operation p) w e) (found : precedence? t.kind = some p)
    (right : Complete p.operand v e') : Complete (.operation p) (w ++ t :: v) (p.join t.kind e e') := by
  intro n ctx rest short ends
  rw [List.append_assoc, List.cons_append] at short ⊢
  have tied : binding (nextKind ctx (t :: (v ++ rest))) = rank p + 2 := binding_of_precedence found
  obtain ⟨bound, enough, goOn⟩ := left n ctx (t :: (v ++ rest)) short (Nat.le_of_eq tied)
  rw [List.length_cons, List.length_append] at enough
  rw [List.length_append, List.length_cons] at short
  cases bound with
  | zero => omega
  | succ bound =>
    refine ⟨bound, by omega, fun final good more => goOn final good fun left same => ?_⟩
    refine .peekKind (.ifTrue ((mem_tierOf p _).2 found) (.advance ?_))
    refine .bind (operand right (by omega) ends) fun right same' => more _ ?_
    rw [bare_combine, same, same']
    rfl

theorem operandOfUnary (read : Complete .call w e) (opens : Opens startsOperand w) : Complete .unary w e := by
  intro n bound ctx rest short enough ends
  obtain ⟨bound, rfl⟩ := level_pos opens enough
  have starts := starts_next opens ctx rest
  refine .peek (.ifFalse ?_ (call_ends read short ends))
  rintro (isSign | isSign)
  · exact ne_of_starts starts rfl isSign
  · exact ne_of_starts starts rfl isSign

theorem signed (isSign : t.kind = .bang ∨ t.kind = .minus) (read : Complete .unary w e) :
    Complete .unary (t :: w) (.unary .unknown t.kind e) := by
  intro n bound ctx rest short enough ends
  rw [List.cons_append, List.length_cons] at short enough
  cases bound with
  | zero => omega
  | succ bound =>
    refine .peek (.ifTrue isSign (.advance ?_))
    refine .bind (read n bound ctx rest (by omega) (by omega) ends) fun e' same => .pure ?_
    rw [Expr.bare, same]
    rfl

theorem callee (read : Complete .primary w e) : Complete .call w e := by
  intro n ctx rest short
  refine ⟨n + 1, ?_, fun final good goOn => .bind (read n ctx rest short) goOn⟩
  rw [List.length_append] at short
  omega

theorem callEmpty (read : Complete .call w e) (isOpen : t.kind = .leftParen)
    (isClose : u.kind = .rightParen) : Complete .call (w ++ [t, u]) (.call .unknown e []) := by
  intro n ctx rest short
  rw [List.append_assoc, List.cons_append, List.cons_append, List.nil_append] at short ⊢
  obtain ⟨bound, enough, goOn⟩ := read n ctx (t :: u :: rest) short
  rw [List.length_cons, List.length_cons] at enough
  cases bound with
  | zero => omega
  | succ bound =>
    refine ⟨bound, by omega, fun final good more => goOn final good fun callee same => ?_⟩
    rw [calls_succ]
    have noArgs : Reads (unlessNext .rightParen (arguments (level n).expression (n + 1) 0)) ctx (u :: rest)
        (u :: rest) (· = none) := .next isClose rfl
    refine .peekKind (.ifTrue isOpen (.advance (.bind noArgs fun args isNone => .expect isClose (more _ ?_))))
    rw [Expr.bare, same, isNone]
    rfl

theorem callWith (read : Complete .call w e) (isOpen : t.kind = .leftParen) (args : Complete .arguments v es)
    (opens : Opens startsExpression v) (few : es.length ≤ most) (isClose : u.kind = .rightParen) :
    Complete .call (w ++ t :: v ++ [u]) (.call .unknown e es) := by
  intro n ctx rest short
  simp only [List.append_assoc, List.cons_append, List.nil_append] at short ⊢
  obtain ⟨bound, enough, goOn⟩ := read n ctx (t :: (v ++ u :: rest)) short
  simp only [List.length_append, List.length_cons] at short enough
  cases bound with
  | zero => omega
  | succ bound =>
    refine ⟨bound, by omega, fun final good more => goOn final good fun callee same => ?_⟩
    rw [calls_succ]
    have someArgs : Reads (unlessNext .rightParen (arguments (level n).expression (n + 1) 0)) ctx
        (v ++ u :: rest) (u :: rest) (fun args => Expr.bareAll (args.getD []) = es) := by
      refine .unlessNext (ne_of_starts (starts_next opens ctx _) rfl) ?_
      refine args n (n + 1) 0 ctx (u :: rest) ?_ ?_ ?_ isClose
      · simp only [List.length_append, List.length_cons]; omega
      · simp only [List.length_append, List.length_cons]; omega
      · rw [Nat.zero_add]; exact few
    refine .peekKind (.ifTrue isOpen (.advance (.bind someArgs fun args same' => .expect isClose (more _ ?_))))
    rw [Expr.bare, same, same']

theorem value (read : Complete (.operation .disjunction) w e) (opens : Opens startsExpression w) :
    Complete .expression w e := by
  intro n ctx rest short ends
  obtain ⟨n, rfl⟩ := level_pos opens short
  show Reads (expression (n + 1) (level n)) _ _ _ _
  rw [expression_eq]
  refine .bind (operation_ends read short (by rw [ends]; decide)) fun left same => ?_
  refine .peek (.ifFalse (fun isEqual => ?_) (.pure same))
  rw [show nextKind ctx rest = .equal from isEqual] at ends
  exact absurd ends (by decide)

theorem name (isName : t.kind = .ident) : Complete .primary [t] (.name .unknown t.lexeme) :=
  primaryBy isName fun _ _ _ _ => .advance (.pure rfl)

-- A name alone is an operation of every precedence, so that the sign of an assignment comes next.
theorem nameAlone (isName : t.kind = .ident) :
    Complete (.operation .disjunction) [t] (.name .unknown t.lexeme) := by
  have sole : Complete .unary [t] (.name .unknown t.lexeme) :=
    operandOfUnary (callee (name isName)) (.of_kind isName rfl (by decide))
  have factor := single .factor sole
  have equality := single .equality (single .comparison (single .term factor))
  exact single .disjunction (single .conjunction equality)

theorem assignment (isName : t.kind = .ident) (isEqual : u.kind = .equal) (read : Complete .expression w e) :
    Complete .expression (t :: u :: w) (.assign .unknown t.lexeme e) := by
  intro n ctx rest short ends
  cases n with
  | zero => cases short
  | succ n =>
    show Reads (expression (n + 1) (level n)) _ ([t] ++ (u :: (w ++ rest))) _ _
    rw [expression_eq]
    refine .bind (operation_ends (nameAlone isName) short ?_) fun left same => ?_
    · rw [nextKind_cons, isEqual]; decide
    cases left with
    | name span x =>
      cases same
      rw [List.cons_append, List.cons_append, List.length_cons, List.length_cons] at short
      refine .peek (.ifTrue isEqual (.advance ?_))
      refine .bind (read n ctx rest (by omega) ends) fun e' same => .pure ?_
      rw [Expr.bare, same]
    | _ => cases same

theorem noClause : Complete .clause [] none := fun _ _ _ _ _ sees _ => .next sees rfl

theorem clause (read : Complete .expression w e) (opens : Opens startsExpression w) :
    Complete .clause w (some e) := by
  intro n ctx rest kind short sees isEnd
  have starts := starts_next opens ctx rest
  have ends : binding (nextKind ctx rest) = 0 := by
    rcases isEnd with rfl | rfl <;> rw [sees] <;> rfl
  have more : nextKind ctx (w ++ rest) ≠ kind := by
    rcases isEnd with rfl | rfl <;> exact ne_of_starts starts rfl
  exact .unlessNext more (by simpa using read n ctx rest short ends)

theorem parameter (isName : t.kind = .ident) : Complete .parameters [t] [t.lexeme] := by
  intro bound count ctx rest enough few ends
  rw [List.length_singleton] at few
  cases bound with
  | zero => cases enough
  | succ bound =>
    rw [parameters_succ]
    have noMore : Reads (behind .comma (parameters bound (count + 1))) ctx rest rest (· = none) :=
      .notBehind (by rw [ends]; decide) rfl
    refine .countAgainst few (.expect isName (.bind noMore fun ps isNone => .pure ?_))
    rw [isNone]
    rfl

theorem parameterMore (isName : t.kind = .ident) (isComma : u.kind = .comma)
    (more : Complete .parameters w params) :
    Complete .parameters (t :: u :: w) (t.lexeme :: params) := by
  intro bound count ctx rest enough few ends
  rw [List.cons_append, List.cons_append, List.length_cons, List.length_cons] at enough
  rw [List.length_cons] at few
  cases bound with
  | zero => omega
  | succ bound =>
    rw [parameters_succ]
    have others : Reads (behind .comma (parameters bound (count + 1))) ctx (u :: (w ++ rest)) rest
        fun ps => ps.getD [] = params :=
      .behind isComma (more bound (count + 1) ctx rest (by omega) (by omega) ends)
    refine .countAgainst (by omega) (.expect isName (.bind others fun ps same => .pure ?_))
    rw [same]

theorem functionBody (read : Complete (.block true) w body) (opens : Begins (.block true) w)
    (short : (w ++ rest).length ≤ n + 1) (params : Params) (fault : Fault) :
    Reads (do
      if (← peekKind) = .leftBrace then
        let body ← within .body (block (n + 1) (level n))
        return (params, body)
      else failHere fault) ctx (w ++ rest) rest fun g => (g.1, g.2.bare) = (params, body) := by
  have isOpen : nextKind ctx (w ++ rest) = .leftBrace := by
    obtain ⟨t, ts, rfl, isOpen⟩ := opens
    exact isOpen
  refine .peekKind (.ifTrue isOpen ?_)
  refine .bind (.within _ (read n _ rest rfl short)) fun b same => .pure ?_
  rw [same]

theorem thunk (isOpen : t.kind = .leftParen) (isClose : u.kind = .rightParen)
    (read : Complete (.block true) w body) (opens : Begins (.block true) w) :
    Complete .function (t :: u :: w) (none, body) := by
  intro n ctx rest afterName beforeBody short
  rw [List.cons_append, List.cons_append, List.length_cons, List.length_cons] at short
  rw [functionRest_eq]
  have noParams : Reads (unlessNext .rightParen (parameters (n + 1) 0)) ctx (u :: (w ++ rest))
      (u :: (w ++ rest)) (· = none) := .next isClose rfl
  refine .expect isOpen (.bind noParams fun ps isNone => .expect isClose ?_)
  rw [isNone]
  exact functionBody read opens (by omega) none _

theorem function (isOpen : t.kind = .leftParen) (names : Complete .parameters v params)
    (first : Begins .parameters v) (few : params.length ≤ most) (isClose : u.kind = .rightParen)
    (read : Complete (.block true) w body) (opens : Begins (.block true) w) :
    Complete .function (t :: v ++ u :: w) (some params, body) := by
  intro n ctx rest afterName beforeBody short
  simp only [List.append_assoc, List.cons_append] at short ⊢
  rw [functionRest_eq]
  have named : Reads (unlessNext .rightParen (parameters (n + 1) 0)) ctx (v ++ u :: (w ++ rest))
      (u :: (w ++ rest)) (· = some params) := by
    have isName : nextKind ctx (v ++ u :: (w ++ rest)) = .ident := by
      obtain ⟨x, xs, rfl, isName⟩ := first
      exact isName
    refine .unlessNext (by rw [isName]; decide) ?_
    simp only [List.length_cons, List.length_append, Option.some.injEq] at short ⊢
    refine names (n + 1) 0 ctx (u :: (w ++ rest)) ?_ (by rw [Nat.zero_add]; exact few) isClose
    simp only [List.length_cons, List.length_append]
    omega
  refine .expect isOpen (.bind named fun ps isSome => .expect isClose ?_)
  rw [isSome]
  refine functionBody read opens ?_ (some params) _
  simp only [List.length_cons, List.length_append] at short ⊢
  omega

theorem block (isOpen : t.kind = .leftBrace) (read : Complete (.declarations inside) w stmts)
    (isClose : u.kind = .rightBrace) : Complete (.block inside) (t :: w ++ [u]) (.braces .unknown stmts) := by
  intro n ctx rest isInside short
  simp only [List.append_assoc, List.cons_append, List.nil_append, List.length_cons] at short ⊢
  have listed := read n (n + 1) true (Bracket.braces.enter ctx) (u :: rest) isInside (by omega) (by omega)
    (.inr ⟨rfl, isClose⟩)
  refine .expect isOpen (.bind (.within _ listed) fun ss same => ?_)
  refine .expect isClose (.lastStop fun _ => .pure ?_)
  rw [Block.bare, same]

theorem unset (isName : x.kind = .ident) (isEnd : u.kind = .semicolon) :
    Complete .variableDeclaration [t, x, u] (.declare .unknown x.lexeme none) := by
  intro n ctx rest short
  rw [variableDeclaration_eq]
  have noValue : Reads (behind .equal (level n).expression) ctx (u :: rest) (u :: rest) (· = none) :=
    .notBehind (by rw [nextKind_cons, isEnd]; decide) rfl
  refine .advance (.expect isName (.bind noValue fun e isNone => .expect isEnd (.lastStop fun _ => .pure ?_)))
  rw [isNone]
  rfl

theorem set (isName : x.kind = .ident) (isEqual : s.kind = .equal)
    (read : Complete .expression w e) (isEnd : u.kind = .semicolon) :
    Complete .variableDeclaration (t :: x :: s :: w ++ [u]) (.declare .unknown x.lexeme (some e)) := by
  intro n ctx rest short
  simp only [List.append_assoc, List.cons_append, List.nil_append, List.length_cons] at short ⊢
  rw [variableDeclaration_eq]
  have valued : Reads (behind .equal (level n).expression) ctx (s :: (w ++ u :: rest)) (u :: rest)
      (·.map Expr.bare = some e) := by
    refine .behind isEqual ?_
    simpa using read n ctx (u :: rest) (by omega) (binding_next isEnd rfl)
  refine .advance (.expect isName (.bind valued fun e' same => .expect isEnd (.lastStop fun _ => .pure ?_)))
  rw [Stmt.bare_declare, same]

theorem expressionStatement (read : Complete .expression w e) (isEnd : u.kind = .semicolon) :
    Complete .expressionStatement (w ++ [u]) (.expr .unknown e) := by
  intro n ctx rest short
  simp only [List.append_assoc, List.cons_append, List.nil_append] at short ⊢
  refine .bind (read n ctx (u :: rest) short (binding_next isEnd rfl)) fun e' same => ?_
  refine .expect isEnd (.lastStop fun _ => .pure ?_)
  rw [Stmt.bare, same]

theorem noInitial (isEnd : t.kind = .semicolon) : Complete .initial [t] none :=
  fun _ _ _ _ => .peekKind (.ifTrue isEnd (.advance (.pure rfl)))

theorem initialVariable (read : Complete .variableDeclaration w s) (opens : Begins .variableDeclaration w) :
    Complete .initial w (some s) := by
  intro n ctx rest short
  have isVar : nextKind ctx (w ++ rest) = .kwVar := by
    obtain ⟨t, ts, rfl, isVar⟩ := opens
    exact isVar
  refine .peekKind (.ifFalse (by rw [isVar]; decide) (.ifTrue isVar (.map some ?_)))
  simpa using read n ctx rest (Nat.le_succ_of_le short)

theorem initialExpression (read : Complete .expressionStatement w s) (opens : Opens startsExpression w) :
    Complete .initial w (some s) := by
  intro n ctx rest short
  have starts := starts_next opens ctx rest
  refine .peekKind (.ifFalse (ne_of_starts starts rfl) (.ifFalse (ne_of_starts starts rfl) (.map some ?_)))
  simpa using read n ctx rest short

theorem statementBy (isKind : t.kind = kind)
    (read : ∀ n ctx rest, ctx.inFunction = inside → (w ++ rest).length ≤ n →
      (dangling = true → nextKind ctx rest ≠ .kwElse) →
      Reads (statementBy (n + 1) (level n) kind) ctx (t :: w ++ rest) rest (·.bare = s)) :
    Complete (.statement inside dangling) (t :: w) s := by
  intro n ctx rest isInside short free
  cases n with
  | zero => cases short
  | succ n =>
    rw [List.cons_append, List.length_cons] at short
    have read := read n ctx rest isInside (by omega) free
    rw [← isKind] at read
    exact read

theorem print (isPrint : t.kind = .kwPrint) (read : Complete .expression w e) (isEnd : u.kind = .semicolon) :
    Complete (.statement inside false) (t :: w ++ [u]) (.print .unknown e) := by
  rw [List.cons_append]
  refine statementBy isPrint fun n ctx rest _ short _ => ?_
  simp only [List.append_assoc, List.cons_append, List.nil_append] at short ⊢
  refine .advance (.bind (read n ctx (u :: rest) short (binding_next isEnd rfl)) fun e' same => ?_)
  refine .expect isEnd (.lastStop fun _ => .pure ?_)
  rw [Stmt.bare, same]

theorem giveBack (isReturn : t.kind = .kwReturn) (read : Complete .clause w e) (isEnd : u.kind = .semicolon) :
    Complete (.statement true false) (t :: w ++ [u]) (.giveBack .unknown e) := by
  rw [List.cons_append]
  refine statementBy isReturn fun n ctx rest inside short _ => ?_
  simp only [List.append_assoc, List.cons_append, List.nil_append] at short ⊢
  show Reads (returnStatement (level n)) _ _ _ _
  rw [returnStatement_eq]
  refine .openReturn inside (.bind (read n ctx (u :: rest) .semicolon short isEnd (.inl rfl)) ?_)
  refine fun e' same => .expect isEnd (.lastStop fun _ => .pure ?_)
  rw [Stmt.bare_giveBack, same]

theorem condition {f : Expr → Reader α} (isOpen : l.kind = .leftParen) (test : Complete .expression w e)
    (isClose : r.kind = .rightParen) (short : (w ++ r :: rest).length ≤ n)
    (more : ∀ e', e'.bare = e → Reads (f e') ctx rest final good) :
    Reads (do
      let _ ← expect .leftParen afterKeyword
      let e' ← (level n).expression
      let _ ← expect .rightParen afterCondition
      f e') ctx (l :: (w ++ r :: rest)) final good := by
  have read := test n ctx (r :: rest) short (binding_next isClose rfl)
  exact .expect isOpen (.bind read fun e' same => .expect isClose (more e' same))

theorem loop (isWhile : t.kind = .kwWhile) (isOpen : l.kind = .leftParen) (test : Complete .expression w e)
    (isClose : r.kind = .rightParen) (read : Complete (.statement inside dangling) v body) :
    Complete (.statement inside dangling) (t :: l :: w ++ r :: v) (.loop .unknown e body) := by
  rw [List.cons_append]
  refine statementBy isWhile fun n ctx rest isInside short free => ?_
  simp only [List.append_assoc, List.cons_append, List.length_cons, List.length_append] at short ⊢
  refine .advance (condition isOpen test isClose ?_ fun e' same => ?_)
  · simp only [List.length_cons, List.length_append]; omega
  refine .bind (read n ctx rest isInside ?_ free) fun body' same' => ?_
  · rw [List.length_append]; omega
  refine .lastStop fun _ => .pure ?_
  rw [Stmt.bare, same, same']

theorem counted (isFor : t.kind = .kwFor) (isOpen : l.kind = .leftParen) (first : Complete .initial w₁ a)
    (test : Complete .clause w₂ b) (isEnd : m.kind = .semicolon) (step : Complete .clause w₃ c)
    (isClose : r.kind = .rightParen) (read : Complete (.statement inside dangling) v body) :
    Complete (.statement inside dangling) (t :: l :: w₁ ++ w₂ ++ m :: w₃ ++ r :: v)
      (forTree a b c body) := by
  simp only [List.append_assoc, List.cons_append]
  refine statementBy isFor fun n ctx rest isInside short free => ?_
  simp only [List.append_assoc, List.cons_append, List.length_cons, List.length_append] at short ⊢
  show Reads (forStatement (level n)) _ _ _ _
  rw [forStatement_eq]
  refine .advance (.expect isOpen ?_)
  refine .bind (first n ctx (w₂ ++ m :: (w₃ ++ r :: (v ++ rest))) ?_) fun a' same₁ => ?_
  · simp only [List.length_cons, List.length_append]; omega
  refine .bind (test n ctx (m :: (w₃ ++ r :: (v ++ rest))) .semicolon ?_ isEnd (.inl rfl)) fun b' same₂ => ?_
  · simp only [List.length_cons, List.length_append]; omega
  refine .expect isEnd (.bind (step n ctx (r :: (v ++ rest)) .rightParen ?_ isClose (.inr rfl)) ?_)
  · simp only [List.length_cons, List.length_append]; omega
  refine fun c' same₃ => .expect isClose (.bind (read n ctx rest isInside ?_ free) fun body' same₄ => ?_)
  · rw [List.length_append]; omega
  refine .lastStop fun _ => .pure ?_
  rw [bare_forLoop, same₁, same₂, same₃, same₄]

theorem branch (isIf : t.kind = .kwIf) (isOpen : l.kind = .leftParen) (test : Complete .expression w e)
    (isClose : r.kind = .rightParen) (read : Complete (.statement inside dangling) v yes) :
    Complete (.statement inside true) (t :: l :: w ++ r :: v) (.branch .unknown e yes none) := by
  rw [List.cons_append]
  refine statementBy isIf fun n ctx rest isInside short free => ?_
  simp only [List.append_assoc, List.cons_append, List.length_cons, List.length_append] at short ⊢
  show Reads (branchStatement (level n)) _ _ _ _
  rw [branchStatement_eq]
  have noElse : Reads (behind .kwElse (level n).statement) ctx rest rest (· = none) :=
    .notBehind (free rfl) rfl
  refine .advance (condition isOpen test isClose ?_ fun e' same => ?_)
  · simp only [List.length_cons, List.length_append]; omega
  refine .bind (read n ctx rest isInside ?_ fun _ => free rfl) fun yes' same' => ?_
  · rw [List.length_append]; omega
  refine .bind noElse fun no isNone => .lastStop fun _ => .pure ?_
  rw [Stmt.bare_branch, same, same', isNone]
  rfl

theorem branchElse (isIf : t.kind = .kwIf) (isOpen : l.kind = .leftParen) (test : Complete .expression w e)
    (isClose : r.kind = .rightParen) (read : Complete (.statement inside false) v yes)
    (isElse : u.kind = .kwElse) (other : Complete (.statement inside dangling) z no) :
    Complete (.statement inside dangling) (t :: l :: w ++ r :: v ++ u :: z)
      (.branch .unknown e yes (some no)) := by
  simp only [List.append_assoc, List.cons_append]
  refine statementBy isIf fun n ctx rest isInside short free => ?_
  simp only [List.append_assoc, List.cons_append, List.length_cons, List.length_append] at short ⊢
  show Reads (branchStatement (level n)) _ _ _ _
  rw [branchStatement_eq]
  have refused : Reads (behind .kwElse (level n).statement) ctx (u :: (z ++ rest)) rest
      (·.map Stmt.bare = some no) := by
    refine .behind isElse ?_
    simpa using other n ctx rest isInside (by rw [List.length_append]; omega) free
  refine .advance (condition isOpen test isClose ?_ fun e' same => ?_)
  · simp only [List.length_cons, List.length_append]; omega
  refine .bind (read n ctx (u :: (z ++ rest)) isInside ?_ nofun) fun yes' same' => ?_
  · simp only [List.length_cons, List.length_append]; omega
  refine .bind refused fun no' same'' => .lastStop fun _ => .pure ?_
  rw [Stmt.bare_branch, same, same', same'']

theorem simple (read : Complete .expressionStatement w s) (opens : Opens startsExpression w) :
    Complete (.statement inside false) w s := by
  intro n ctx rest _ short _
  have starts := starts_next opens ctx rest
  obtain ⟨n, rfl⟩ := level_pos opens short
  show Reads (statement (n + 1) (level n)) _ _ _ _
  rw [statement_eq]
  refine .peekKind ?_
  rw [statementBy_of_starts starts]
  exact read (n + 1) ctx rest short

theorem braces (read : Complete (.block inside) w body) (opens : Begins (.block inside) w) :
    Complete (.statement inside false) w (.block body) := by
  obtain ⟨t, ts, rfl, isOpen⟩ := opens
  refine statementBy isOpen fun n ctx rest isInside short _ => .map Stmt.block ?_
  have read := read n ctx rest isInside (by rw [List.cons_append, List.length_cons]; omega)
  simpa [Stmt.bare] using read

theorem declarationBy (opens : ∃ t ts, w = t :: ts ∧ startsDeclaration t.kind = true)
    (read : ∀ n ctx rest, ctx.inFunction = inside → (w ++ rest).length ≤ n + 1 →
      nextKind ctx rest ≠ .kwElse →
      Reads (declarationBy (n + 1) (level n) (nextKind ctx (w ++ rest)) (secondKind (w ++ rest))) ctx
        (w ++ rest) rest (·.bare = s)) :
    Complete (.declaration inside) w s := by
  intro n ctx rest isInside short free
  obtain ⟨t, ts, rfl, _⟩ := opens
  cases n with
  | zero => cases short
  | succ n =>
    refine .recovering fun last reported => ?_
    rw [declaration_eq]
    simpa using read n ctx rest isInside short free last reported

theorem functionDeclaration (isFun : t.kind = .kwFun) (isName : x.kind = .ident)
    (read : Complete .function w (params, body)) :
    Complete (.declaration inside) (t :: x :: w) (.function .unknown x.lexeme params body) := by
  refine declarationBy ⟨t, x :: w, rfl, by rw [isFun]; rfl⟩ fun n ctx rest _ short _ => ?_
  rw [show nextKind ctx (t :: x :: w ++ rest) = .kwFun from isFun,
    show secondKind (t :: x :: w ++ rest) = .ident from isName]
  rw [List.cons_append, List.cons_append, List.length_cons, List.length_cons] at short
  refine .advance (.advance (.bind (read n ctx rest _ _ (by omega)) fun f same => ?_))
  refine .lastStop fun _ => .pure ?_
  cases same
  rfl

theorem variableDeclaration (read : Complete .variableDeclaration w s) (opens : Begins .variableDeclaration w) :
    Complete (.declaration inside) w s := by
  obtain ⟨t, ts, rfl, isVar⟩ := opens
  refine declarationBy ⟨t, ts, rfl, by rw [isVar]; rfl⟩ fun n ctx rest _ short _ => ?_
  rw [show nextKind ctx (t :: ts ++ rest) = .kwVar from isVar]
  exact read n ctx rest short

theorem statement (read : Complete (.statement inside dangling) w s) (opens : Opens startsStatement w)
    (starts : Begins (.declaration inside) w) : Complete (.declaration inside) w s := by
  refine declarationBy starts fun n ctx rest isInside short free => ?_
  rw [declarationBy_of_starts (starts_next opens ctx rest) fun isFun => ?_]
  · exact read (n + 1) ctx rest isInside short fun _ => free
  · obtain ⟨t, ts, rfl, _, lambda⟩ := opens
    obtain ⟨u, us, rfl, isOpen⟩ := lambda isFun
    rw [show secondKind (t :: u :: us ++ rest) = .leftParen from isOpen]
    decide

theorem noDeclarations : Complete (.declarations inside) [] [] := by
  intro n bound braced ctx rest _ _ _ stops
  cases bound with
  | zero => exact .pure rfl
  | succ bound => exact .peekKind (.ifTrue stops (.pure rfl))

theorem declarations (read : Complete (.declaration inside) w s) (opens : Begins (.declaration inside) w)
    (more : Complete (.declarations inside) v ss) (opens' : Begins (.declarations inside) v) :
    Complete (.declarations inside) (w ++ v) (s :: ss) := by
  intro n bound braced ctx rest isInside short enough stops
  rw [List.append_assoc] at short enough ⊢
  have free : nextKind ctx (v ++ rest) ≠ .kwElse := by
    rcases opens' with rfl | ⟨t, ts, rfl, starts⟩
    · rcases stops with ends | ⟨_, ends⟩ <;> rw [List.nil_append, ends] <;> decide
    · exact ne_of_starts starts rfl
  have first := read n ctx (v ++ rest) isInside short free
  obtain ⟨t, ts, rfl, starts⟩ := opens
  rw [List.cons_append, List.length_cons, List.length_append] at short enough
  cases bound with
  | zero => omega
  | succ bound =>
    have others := more n bound braced ctx rest isInside (by omega) (by omega) stops
    refine .peekKind (.ifFalse ?_ (.bind first fun s' same => .bind others fun ss' same' => .pure ?_))
    · rintro (ends | ⟨_, ends⟩)
      · exact ne_of_starts starts rfl ends
      · exact ne_of_starts starts rfl ends
    · obtain ⟨stmt, rfl, rfl⟩ := Option.map_eq_some_iff.1 same
      rw [← same']
      rfl

end Complete

theorem Derives.complete {sym : Symbol α} (derived : Derives sym w a) : Complete sym w a := by
  induction derived with
  | yes isKind | no isKind | nil isKind | number isKind | string isKind | name isKind =>
    exact .primaryBy isKind fun _ _ _ _ => .advance (.pure rfl)
  | grouping isOpen _ isClose ih => exact .grouping isOpen ih isClose
  | lambda isFun _ ih => exact .lambda isFun ih
  | callee _ ih => exact .callee ih
  | callEmpty _ isOpen isClose ih => exact .callEmpty ih isOpen isClose
  | callWith _ isOpen args few isClose ih ihArgs => exact .callWith ih isOpen ihArgs args.begins few isClose
  | argument _ ih => exact .argument ih
  | argumentMore _ isComma _ ih ihMore => exact .argumentMore ih isComma ihMore
  | operand call ih => exact .operandOfUnary ih call.begins
  | signed isSign _ ih => exact .signed isSign ih
  | single p _ ih => exact .single p ih
  | joined p _ found _ ih ihRight => exact .joined p ih found ihRight
  | value operation ih => exact .value ih operation.begins
  | assignment isName isEqual _ ih => exact .assignment isName isEqual ih
  | noClause => exact .noClause
  | clause expression ih => exact .clause ih expression.begins
  | parameter isName => exact .parameter isName
  | parameterMore isName isComma _ ih => exact .parameterMore isName isComma ih
  | thunk isOpen isClose body ih => exact .thunk isOpen isClose ih body.begins
  | function isOpen names few isClose body ihNames ih =>
    exact .function isOpen ihNames names.begins few isClose ih body.begins
  | block isOpen _ isClose ih => exact .block isOpen ih isClose
  | unset _ isName isEnd => exact .unset isName isEnd
  | set _ isName isEqual _ isEnd ih => exact .set isName isEqual ih isEnd
  | expressionStatement _ isEnd ih => exact .expressionStatement ih isEnd
  | noInitial isEnd => exact .noInitial isEnd
  | initialVariable declared ih => exact .initialVariable ih declared.begins
  | initialExpression stmt ih => exact .initialExpression ih stmt.begins
  | simple stmt ih => exact .simple ih stmt.begins
  | print isPrint _ isEnd ih => exact .print isPrint ih isEnd
  | giveBack isReturn _ isEnd ih => exact .giveBack isReturn ih isEnd
  | braces block ih => exact .braces ih block.begins
  | loop isWhile isOpen _ isClose _ ihTest ih => exact .loop isWhile isOpen ihTest isClose ih
  | counted isFor isOpen _ _ isEnd _ isClose _ ihFirst ihTest ihStep ih =>
    exact .counted isFor isOpen ihFirst ihTest isEnd ihStep isClose ih
  | branch isIf isOpen _ isClose _ ihTest ih => exact .branch isIf isOpen ihTest isClose ih
  | branchElse isIf isOpen _ isClose _ isElse _ ihTest ih ihElse =>
    exact .branchElse isIf isOpen ihTest isClose ih isElse ihElse
  | functionDeclaration isFun isName _ ih => exact .functionDeclaration isFun isName ih
  | variableDeclaration declared ih => exact .variableDeclaration ih declared.begins
  | statement stmt ih => exact .statement ih stmt.begins (Derives.statement stmt).begins
  | noDeclarations => exact .noDeclarations
  | declarations first more ih ihMore => exact .declarations ih first.begins ihMore more.begins

end TinyScript.Parse
