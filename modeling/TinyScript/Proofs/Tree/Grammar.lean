import TinyScript.Tree

namespace TinyScript

mutual

def Expr.bare : Expr → Expr
  | .literal _ value => .literal .unknown value
  | .grouping _ inner => .grouping .unknown inner.bare
  | .unary _ op operand => .unary .unknown op operand.bare
  | .binary _ op left right => .binary .unknown op left.bare right.bare
  | .logical _ op left right => .logical .unknown op left.bare right.bare
  | .name _ x => .name .unknown x
  | .assign _ x value => .assign .unknown x value.bare
  | .call _ callee args => .call .unknown callee.bare (Expr.bareAll args)
  | .lambda _ params body => .lambda .unknown params body.bare

def Expr.bareAll : List Expr → List Expr
  | [] => []
  | e :: es => e.bare :: Expr.bareAll es

def Stmt.bare : Stmt → Stmt
  | .expr _ value => .expr .unknown value.bare
  | .print _ value => .print .unknown value.bare
  | .declare _ x none => .declare .unknown x none
  | .declare _ x (some value) => .declare .unknown x (some value.bare)
  | .block body => .block body.bare
  | .branch _ condition yes none => .branch .unknown condition.bare yes.bare none
  | .branch _ condition yes (some no) => .branch .unknown condition.bare yes.bare (some no.bare)
  | .loop _ condition body => .loop .unknown condition.bare body.bare
  | .function _ f params body => .function .unknown f params body.bare
  | .giveBack _ none => .giveBack .unknown none
  | .giveBack _ (some value) => .giveBack .unknown (some value.bare)

def Stmt.bareAll : List Stmt → List Stmt
  | [] => []
  | s :: ss => s.bare :: Stmt.bareAll ss

def Block.bare : Block → Block
  | .braces _ stmts => .braces .unknown (Stmt.bareAll stmts)
  | .absent => .absent

end

theorem Expr.bareAll_eq_map (es : List Expr) : Expr.bareAll es = es.map Expr.bare := by
  induction es with
  | nil => rfl
  | cons e es ih => rw [Expr.bareAll, ih]; rfl

theorem Stmt.bare_declare (span : Span) (x : Bytes) (value : Option Expr) :
    (Stmt.declare span x value).bare = .declare .unknown x (value.map Expr.bare) := by
  cases value <;> rfl

theorem Stmt.bare_branch (span : Span) (condition : Expr) (yes : Stmt) (no : Option Stmt) :
    (Stmt.branch span condition yes no).bare
      = .branch .unknown condition.bare yes.bare (no.map Stmt.bare) := by
  cases no <;> rfl

theorem Stmt.bare_giveBack (span : Span) (value : Option Expr) :
    (Stmt.giveBack span value).bare = .giveBack .unknown (value.map Expr.bare) := by
  cases value <;> rfl

namespace Grammar

inductive Precedence where
  | disjunction | conjunction | equality | comparison | term | factor
  deriving DecidableEq, Repr

def precedence? : Kind → Option Precedence
  | .kwOr => some .disjunction
  | .kwAnd => some .conjunction
  | .bangEqual | .equalEqual => some .equality
  | .greater | .greaterEqual | .less | .lessEqual => some .comparison
  | .minus | .plus => some .term
  | .slash | .star => some .factor
  | _ => none

-- The symbols, each with what its words stand for. The flag `inside` says that a function is around
-- the word, and `dangling` that the word ends in an `if` without `else`.
inductive Symbol : Type → Type where
  | primary : Symbol Expr
  | call : Symbol Expr
  | unary : Symbol Expr
  | operation (p : Precedence) : Symbol Expr
  | expression : Symbol Expr
  | clause : Symbol (Option Expr)
  | arguments : Symbol (List Expr)
  | parameters : Symbol (List Bytes)
  | function : Symbol (Params × Block)
  | block (inside : Bool) : Symbol Block
  | initial : Symbol (Option Stmt)
  | variableDeclaration : Symbol Stmt
  | expressionStatement : Symbol Stmt
  | statement (inside dangling : Bool) : Symbol Stmt
  | declaration (inside : Bool) : Symbol Stmt
  | declarations (inside : Bool) : Symbol (List Stmt)

def Precedence.operand : Precedence → Symbol Expr
  | .disjunction => .operation .conjunction
  | .conjunction => .operation .equality
  | .equality => .operation .comparison
  | .comparison => .operation .term
  | .term => .operation .factor
  | .factor => .unary

def Precedence.join : Precedence → Kind → Expr → Expr → Expr
  | .disjunction | .conjunction => .logical .unknown
  | _ => .binary .unknown

def most : Nat := 255

-- `for (first; condition; step) body` stands for `{ first; while (condition) { body; step; } }`,
-- without the braces around a clause that is left out. No condition is a true one.
def forTree (first : Option Stmt) (condition step : Option Expr) (body : Stmt) : Stmt :=
  let round := step.elim body fun e => .block (.braces .unknown [body, .expr .unknown e])
  let loop := .loop .unknown (condition.getD (.literal .unknown (.boolean true))) round
  first.elim loop fun s => .block (.braces .unknown [s, loop])

inductive Derives : {α : Type} → Symbol α → List Token → α → Prop where
  -- primary -> "true" | "false" | "nil" | NUMBER | STRING | IDENT | "(" expression ")" | "fun" function
  | yes : t.kind = .kwTrue → Derives .primary [t] (.literal .unknown (.boolean true))
  | no : t.kind = .kwFalse → Derives .primary [t] (.literal .unknown (.boolean false))
  | nil : t.kind = .kwNil → Derives .primary [t] (.literal .unknown .nil)
  | number : t.kind = .number → Derives .primary [t] (.literal .unknown t.literal)
  | string : t.kind = .string → Derives .primary [t] (.literal .unknown t.literal)
  | name : t.kind = .ident → Derives .primary [t] (.name .unknown t.lexeme)
  | grouping : t.kind = .leftParen → Derives .expression w e → u.kind = .rightParen →
    Derives .primary (t :: w ++ [u]) (.grouping .unknown e)
  | lambda : t.kind = .kwFun → Derives .function w (params, body) →
    Derives .primary (t :: w) (.lambda .unknown params body)
  -- call -> primary | call "(" ")" | call "(" arguments ")"
  | callee : Derives .primary w e → Derives .call w e
  | callEmpty : Derives .call w e → t.kind = .leftParen → u.kind = .rightParen →
    Derives .call (w ++ [t, u]) (.call .unknown e [])
  | callWith : Derives .call w e → t.kind = .leftParen → Derives .arguments v args →
    args.length ≤ most → u.kind = .rightParen →
    Derives .call (w ++ t :: v ++ [u]) (.call .unknown e args)
  -- arguments -> expression | expression "," arguments
  | argument : Derives .expression w e → Derives .arguments w [e]
  | argumentMore : Derives .expression w e → t.kind = .comma → Derives .arguments v args →
    Derives .arguments (w ++ t :: v) (e :: args)
  -- unary -> call | ( "!" | "-" ) unary
  | operand : Derives .call w e → Derives .unary w e
  | signed : t.kind = .bang ∨ t.kind = .minus → Derives .unary w e →
    Derives .unary (t :: w) (.unary .unknown t.kind e)
  -- one rule for each precedence: operands, joined from the left
  | single (p : Precedence) : Derives p.operand w e → Derives (.operation p) w e
  | joined (p : Precedence) : Derives (.operation p) w left → precedence? t.kind = some p →
    Derives p.operand v right → Derives (.operation p) (w ++ t :: v) (p.join t.kind left right)
  -- expression -> disjunction | IDENT "=" expression
  | value : Derives (.operation .disjunction) w e → Derives .expression w e
  | assignment : t.kind = .ident → u.kind = .equal → Derives .expression w e →
    Derives .expression (t :: u :: w) (.assign .unknown t.lexeme e)
  -- clause -> nothing | expression
  | noClause : Derives .clause [] none
  | clause : Derives .expression w e → Derives .clause w (some e)
  -- parameters -> IDENT | IDENT "," parameters
  | parameter : t.kind = .ident → Derives .parameters [t] [t.lexeme]
  | parameterMore : t.kind = .ident → u.kind = .comma → Derives .parameters w params →
    Derives .parameters (t :: u :: w) (t.lexeme :: params)
  -- function -> "(" ")" block | "(" parameters ")" block
  | thunk : t.kind = .leftParen → u.kind = .rightParen → Derives (.block true) w body →
    Derives .function (t :: u :: w) (none, body)
  | function : t.kind = .leftParen → Derives .parameters v params → params.length ≤ most →
    u.kind = .rightParen → Derives (.block true) w body →
    Derives .function (t :: v ++ u :: w) (some params, body)
  -- block -> "{" declaration* "}"
  | block : t.kind = .leftBrace → Derives (.declarations inside) w stmts → u.kind = .rightBrace →
    Derives (.block inside) (t :: w ++ [u]) (.braces .unknown stmts)
  -- variableDeclaration -> "var" IDENT ";" | "var" IDENT "=" expression ";"
  | unset : t.kind = .kwVar → x.kind = .ident → u.kind = .semicolon →
    Derives .variableDeclaration [t, x, u] (.declare .unknown x.lexeme none)
  | set : t.kind = .kwVar → x.kind = .ident → s.kind = .equal → Derives .expression w e →
    u.kind = .semicolon →
    Derives .variableDeclaration (t :: x :: s :: w ++ [u]) (.declare .unknown x.lexeme (some e))
  -- expressionStatement -> expression ";"
  | expressionStatement : Derives .expression w e → u.kind = .semicolon →
    Derives .expressionStatement (w ++ [u]) (.expr .unknown e)
  -- initial -> ";" | variableDeclaration | expressionStatement
  | noInitial : t.kind = .semicolon → Derives .initial [t] none
  | initialVariable : Derives .variableDeclaration w s → Derives .initial w (some s)
  | initialExpression : Derives .expressionStatement w s → Derives .initial w (some s)
  -- statement -> expressionStatement | "print" expression ";" | "return" clause ";" | block
  | simple : Derives .expressionStatement w s → Derives (.statement inside false) w s
  | print : t.kind = .kwPrint → Derives .expression w e → u.kind = .semicolon →
    Derives (.statement inside false) (t :: w ++ [u]) (.print .unknown e)
  | giveBack : t.kind = .kwReturn → Derives .clause w value → u.kind = .semicolon →
    Derives (.statement true false) (t :: w ++ [u]) (.giveBack .unknown value)
  | braces : Derives (.block inside) w body → Derives (.statement inside false) w (.block body)
  -- statement -> "while" "(" expression ")" statement
  | loop : t.kind = .kwWhile → l.kind = .leftParen → Derives .expression w e → r.kind = .rightParen →
    Derives (.statement inside dangling) v body →
    Derives (.statement inside dangling) (t :: l :: w ++ r :: v) (.loop .unknown e body)
  -- statement -> "for" "(" initial clause ";" clause ")" statement
  | counted : t.kind = .kwFor → l.kind = .leftParen → Derives .initial w₁ first →
    Derives .clause w₂ condition → m.kind = .semicolon → Derives .clause w₃ step →
    r.kind = .rightParen → Derives (.statement inside dangling) v body →
    Derives (.statement inside dangling) (t :: l :: w₁ ++ w₂ ++ m :: w₃ ++ r :: v)
      (forTree first condition step body)
  -- statement -> "if" "(" expression ")" statement | "if" "(" expression ")" statement "else" statement
  | branch : t.kind = .kwIf → l.kind = .leftParen → Derives .expression w e → r.kind = .rightParen →
    Derives (.statement inside dangling) v yes →
    Derives (.statement inside true) (t :: l :: w ++ r :: v) (.branch .unknown e yes none)
  | branchElse : t.kind = .kwIf → l.kind = .leftParen → Derives .expression w e → r.kind = .rightParen →
    Derives (.statement inside false) v yes → u.kind = .kwElse →
    Derives (.statement inside dangling) z no →
    Derives (.statement inside dangling) (t :: l :: w ++ r :: v ++ u :: z)
      (.branch .unknown e yes (some no))
  -- declaration -> "fun" IDENT function | variableDeclaration | statement
  | functionDeclaration : t.kind = .kwFun → x.kind = .ident → Derives .function w (params, body) →
    Derives (.declaration inside) (t :: x :: w) (.function .unknown x.lexeme params body)
  | variableDeclaration : Derives .variableDeclaration w s → Derives (.declaration inside) w s
  | statement : Derives (.statement inside dangling) w s → Derives (.declaration inside) w s
  | noDeclarations : Derives (.declarations inside) [] []
  | declarations : Derives (.declaration inside) w s → Derives (.declarations inside) v ss →
    Derives (.declarations inside) (w ++ v) (s :: ss)

-- program -> declaration* EOF
inductive Program : List Token → List Stmt → Prop where
  | program : Derives (.declarations false) w stmts → t.kind = .eof → Program (w ++ [t]) stmts

def startsOperand : Kind → Bool
  | .kwTrue | .kwFalse | .kwNil | .number | .string | .ident | .leftParen | .kwFun => true
  | _ => false

def startsExpression : Kind → Bool
  | .bang | .minus => true
  | k => startsOperand k

def startsStatement : Kind → Bool
  | .kwPrint | .kwReturn | .leftBrace | .kwWhile | .kwFor | .kwIf => true
  | k => startsExpression k

def startsDeclaration : Kind → Bool
  | .kwVar => true
  | k => startsStatement k

def Opens (starts : Kind → Bool) (w : List Token) : Prop :=
  ∃ t ts, w = t :: ts ∧ starts t.kind = true ∧
    (t.kind = .kwFun → ∃ u us, ts = u :: us ∧ u.kind = .leftParen)

namespace Opens

theorem append {starts : Kind → Bool} (opens : Opens starts w) (v : List Token) :
    Opens starts (w ++ v) := by
  obtain ⟨t, ts, rfl, starts, lambda⟩ := opens
  refine ⟨t, ts ++ v, rfl, starts, fun isFun => ?_⟩
  obtain ⟨u, us, rfl, paren⟩ := lambda isFun
  exact ⟨u, us ++ v, rfl, paren⟩

theorem of_kind {starts : Kind → Bool} (isKind : t.kind = kind) (allowed : starts kind = true)
    (notFun : kind ≠ .kwFun) : Opens starts (t :: ts) :=
  ⟨t, ts, rfl, isKind ▸ allowed, fun isFun => absurd (isKind.symm.trans isFun) notFun⟩

theorem mono {starts allows : Kind → Bool} (implies : ∀ k, starts k = true → allows k = true)
    (opens : Opens starts w) : Opens allows w := by
  obtain ⟨t, ts, rfl, starts, lambda⟩ := opens
  exact ⟨t, ts, rfl, implies _ starts, lambda⟩

end Opens

-- How the words of a symbol begin, where that is not seen from its rules at once.
def Begins : Symbol α → List Token → Prop
  | .primary, w | .call, w => Opens startsOperand w
  | .unary, w | .operation _, w | .expression, w | .arguments, w | .expressionStatement, w =>
    Opens startsExpression w
  | .statement _ _, w => Opens startsStatement w
  | .declaration _, w => ∃ t ts, w = t :: ts ∧ startsDeclaration t.kind = true
  | .declarations _, w => w = [] ∨ ∃ t ts, w = t :: ts ∧ startsDeclaration t.kind = true
  | .parameters, w => ∃ t ts, w = t :: ts ∧ t.kind = .ident
  | .function, w => ∃ t ts, w = t :: ts ∧ t.kind = .leftParen
  | .block _, w => ∃ t ts, w = t :: ts ∧ t.kind = .leftBrace
  | .variableDeclaration, w => ∃ t ts, w = t :: ts ∧ t.kind = .kwVar
  | _, _ => True

theorem Derives.begins {sym : Symbol α} (derived : Derives sym w a) : Begins sym w := by
  induction derived with
  | yes isKind | no isKind | nil isKind | number isKind | string isKind | name isKind
  | grouping isKind => exact .of_kind isKind rfl (by decide)
  | lambda isKind _ ih =>
    obtain ⟨u, us, rfl, paren⟩ := ih
    exact ⟨_, u :: us, rfl, by rw [isKind]; rfl, fun _ => ⟨u, us, rfl, paren⟩⟩
  | callee _ ih => exact ih
  | callEmpty _ _ _ ih => exact ih.append _
  | callWith _ _ _ _ _ ih => rw [List.append_assoc]; exact ih.append _
  | argument _ ih => exact ih
  | argumentMore _ _ _ ih => exact ih.append _
  | operand _ ih => exact ih.mono fun k => by cases k <;> decide
  | signed isSign =>
    rcases isSign with isKind | isKind <;> exact .of_kind isKind rfl (by decide)
  | single p _ ih => cases p <;> exact ih
  | joined _ _ _ _ ih => exact ih.append _
  | value _ ih => exact ih
  | assignment isKind => exact .of_kind isKind rfl (by decide)
  | expressionStatement _ _ ih => exact ih.append _
  | parameter isKind | parameterMore isKind | thunk isKind | function isKind | block isKind | unset isKind
  | set isKind => exact ⟨_, _, rfl, isKind⟩
  | simple _ ih => exact ih.mono fun k => by cases k <;> decide
  | print isKind | giveBack isKind | loop isKind | counted isKind | branch isKind | branchElse isKind =>
    exact .of_kind isKind rfl (by decide)
  | braces _ ih =>
    obtain ⟨t, ts, rfl, isKind⟩ := ih
    exact .of_kind isKind rfl (by decide)
  | functionDeclaration isKind => exact ⟨_, _, rfl, by rw [isKind]; rfl⟩
  | variableDeclaration _ ih =>
    obtain ⟨t, ts, rfl, isKind⟩ := ih
    exact ⟨t, ts, rfl, by rw [isKind]; rfl⟩
  | statement _ ih =>
    obtain ⟨t, ts, rfl, starts, _⟩ := ih
    exact ⟨t, ts, rfl, by revert starts; cases t.kind <;> decide⟩
  | noDeclarations => exact .inl rfl
  | declarations _ _ ih =>
    obtain ⟨t, ts, rfl, starts⟩ := ih
    exact .inr ⟨t, _, rfl, starts⟩
  | _ => trivial

def NamesAlone : {α : Type} → Symbol α → List Token → α → Prop
  | _, .primary, w, e | _, .call, w, e | _, .unary, w, e | _, .operation _, w, e =>
    ∀ x, e = .name .unknown x → ∃ t, w = [t] ∧ t.kind = .ident ∧ t.lexeme = x
  | _, _, _, _ => True

theorem Derives.namesAlone {sym : Symbol α} (derived : Derives sym w a) : NamesAlone sym w a := by
  induction derived with
  | @name t isName =>
    rintro x ⟨rfl⟩
    exact ⟨t, rfl, isName, rfl⟩
  | yes | no | nil | number | string | grouping | lambda | callEmpty | callWith | signed =>
    rintro x ⟨⟩
  | callee _ ih | operand _ ih => exact ih
  | single p _ ih => cases p <;> exact ih
  | joined p => cases p <;> rintro x ⟨⟩
  | _ => trivial

end Grammar

end TinyScript
