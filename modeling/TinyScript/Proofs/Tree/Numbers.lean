import TinyScript.Proofs.Json
import TinyScript.Proofs.Tree.Grammar
import TinyScript.Proofs.Tree.Material
import TinyScript.Tree.Json

namespace TinyScript

def Literal.numbers : Literal → List UInt64
  | .number bits => [bits]
  | _ => []

mutual

def Expr.numbers : Expr → List UInt64
  | .literal _ v => v.numbers
  | .name _ _ => []
  | .grouping _ e | .unary _ _ e | .assign _ _ e => e.numbers
  | .binary _ _ l r | .logical _ _ l r => l.numbers ++ r.numbers
  | .call _ f es => f.numbers ++ Expr.numbersAll es
  | .lambda _ _ body => body.numbers

def Expr.numbersAll : List Expr → List UInt64
  | [] => []
  | e :: es => e.numbers ++ Expr.numbersAll es

def Stmt.numbers : Stmt → List UInt64
  | .expr _ e | .print _ e | .giveBack _ (some e) | .declare _ _ (some e) => e.numbers
  | .giveBack _ none | .declare _ _ none => []
  | .block body => body.numbers
  | .branch _ c yes none => c.numbers ++ yes.numbers
  | .branch _ c yes (some no) => c.numbers ++ yes.numbers ++ no.numbers
  | .loop _ c body => c.numbers ++ body.numbers
  | .function _ _ _ body => body.numbers

def Stmt.numbersAll : List Stmt → List UInt64
  | [] => []
  | s :: ss => s.numbers ++ Stmt.numbersAll ss

def Block.numbers : Block → List UInt64
  | .absent => []
  | .braces _ stmts => Stmt.numbersAll stmts

end

mutual

theorem Expr.numbers_bare : (e : Expr) → e.bare.numbers = e.numbers
  | .literal _ _ | .name _ _ => rfl
  | .grouping _ e | .unary _ _ e | .assign _ _ e => e.numbers_bare
  | .binary _ _ l r | .logical _ _ l r => by rw [Expr.bare, Expr.numbers, l.numbers_bare, r.numbers_bare, Expr.numbers]
  | .call _ f es => by rw [Expr.bare, Expr.numbers, f.numbers_bare, Expr.numbersAll_bare es, Expr.numbers]
  | .lambda _ _ body => body.numbers_bare

theorem Expr.numbersAll_bare : (es : List Expr) → Expr.numbersAll (Expr.bareAll es) = Expr.numbersAll es
  | [] => rfl
  | e :: es => by rw [Expr.bareAll, Expr.numbersAll, e.numbers_bare, Expr.numbersAll_bare es, Expr.numbersAll]

theorem Stmt.numbers_bare : (s : Stmt) → s.bare.numbers = s.numbers
  | .expr _ e | .print _ e | .giveBack _ (some e) | .declare _ _ (some e) => e.numbers_bare
  | .giveBack _ none | .declare _ _ none => rfl
  | .block body => body.numbers_bare
  | .branch _ c yes none => by rw [Stmt.bare, Stmt.numbers, c.numbers_bare, yes.numbers_bare, Stmt.numbers]
  | .branch _ c yes (some no) => by
    rw [Stmt.bare, Stmt.numbers, c.numbers_bare, yes.numbers_bare, no.numbers_bare, Stmt.numbers]
  | .loop _ c body => by rw [Stmt.bare, Stmt.numbers, c.numbers_bare, body.numbers_bare, Stmt.numbers]
  | .function _ _ _ body => body.numbers_bare

theorem Stmt.numbersAll_bare : (ss : List Stmt) → Stmt.numbersAll (Stmt.bareAll ss) = Stmt.numbersAll ss
  | [] => rfl
  | s :: ss => by rw [Stmt.bareAll, Stmt.numbersAll, s.numbers_bare, Stmt.numbersAll_bare ss, Stmt.numbersAll]

theorem Block.numbers_bare : (b : Block) → b.bare.numbers = b.numbers
  | .absent => rfl
  | .braces _ stmts => Stmt.numbersAll_bare stmts

end

namespace Json

variable {bits : UInt64}

@[simp] theorem holds_null : ¬Holds bits .null := nofun

@[simp] theorem holds_bool (b : Bool) : ¬Holds bits (.bool b) := nofun

@[simp] theorem holds_int (n : Int) : ¬Holds bits (.int n) := nofun

@[simp] theorem holds_string (s : Bytes) : ¬Holds bits (.string s) := nofun

@[simp] theorem holds_number : Holds bits (.number other) ↔ bits = other :=
  ⟨fun | .number => rfl, fun | rfl => .number⟩

@[simp] theorem holds_array : Holds bits (.array items) ↔ ∃ item ∈ items, Holds bits item :=
  ⟨fun | .item mem holds => ⟨_, mem, holds⟩, fun ⟨_, mem, holds⟩ => .item mem holds⟩

@[simp] theorem holds_object : Holds bits (.object fields) ↔ ∃ field ∈ fields, Holds bits field.2 :=
  ⟨fun | .field mem holds => ⟨_, mem, holds⟩, fun ⟨_, mem, holds⟩ => .field mem holds⟩

@[simp] theorem holds_position (p : Position) : ¬Holds bits p.toJson := by simp [Position.toJson]

@[simp] theorem holds_span (s : Span) : ¬Holds bits s.toJson := by simp [Span.toJson]

@[simp] theorem holds_kind (k : Kind) : ¬Holds bits k.toJson := by simp [Kind.toJson]

@[simp] theorem holds_params (ps : Params) : ¬Holds bits ps.toJson := by cases ps <;> simp [Params.toJson]

@[simp] theorem holds_literal (v : Literal) : Holds bits v.toJson ↔ bits ∈ v.numbers := by
  cases v <;> simp [Literal.toJson, Literal.numbers]

-- The document of a tree holds the numbers of the tree and no others.

mutual

theorem holds_expr : (e : Expr) → (Holds bits e.toJson ↔ bits ∈ e.numbers)
  | .literal _ v => by simp [Expr.toJson, Expr.numbers]
  | .name _ _ => by simp [Expr.toJson, Expr.numbers]
  | .grouping _ e | .unary _ _ e | .assign _ _ e => by simp [Expr.toJson, Expr.numbers, holds_expr e]
  | .binary _ _ l r | .logical _ _ l r => by simp [Expr.toJson, Expr.numbers, holds_expr l, holds_expr r]
  | .call _ f es => by simp [Expr.toJson, Expr.numbers, holds_expr f, holds_exprs es, or_comm]
  | .lambda _ _ body => by simp [Expr.toJson, Expr.numbers, holds_block body]

theorem holds_exprs : (es : List Expr) → ((∃ item ∈ Expr.toJsonEach es, Holds bits item) ↔ bits ∈ Expr.numbersAll es)
  | [] => by simp [Expr.toJsonEach, Expr.numbersAll]
  | e :: es => by simp [Expr.toJsonEach, Expr.numbersAll, holds_expr e, holds_exprs es]

theorem holds_stmt : (s : Stmt) → (Holds bits s.toJson ↔ bits ∈ s.numbers)
  | .expr _ e | .print _ e | .giveBack _ (some e) | .declare _ _ (some e) => by
    simp [Stmt.toJson, Stmt.numbers, holds_expr e]
  | .giveBack _ none | .declare _ _ none => by simp [Stmt.toJson, Stmt.numbers]
  | .block body => by rw [Stmt.toJson, Stmt.numbers, holds_block body]
  | .branch _ c yes none => by simp [Stmt.toJson, Stmt.numbers, holds_expr c, holds_stmt yes]
  | .branch _ c yes (some no) => by
    simp [Stmt.toJson, Stmt.numbers, holds_expr c, holds_stmt yes, holds_stmt no, or_comm]
  | .loop _ c body => by simp [Stmt.toJson, Stmt.numbers, holds_expr c, holds_stmt body, or_comm]
  | .function _ _ _ body => by simp [Stmt.toJson, Stmt.numbers, holds_block body]

theorem holds_block : (b : Block) → (Holds bits b.toJson ↔ bits ∈ b.numbers)
  | .absent => by simp [Block.toJson, Block.numbers]
  | .braces _ stmts => by simp [Block.toJson, Block.numbers, holds_stmts stmts]

theorem holds_stmts : (ss : List Stmt) → ((∃ item ∈ Stmt.toJsonEach ss, Holds bits item) ↔ bits ∈ Stmt.numbersAll ss)
  | [] => by simp [Stmt.toJsonEach, Stmt.numbersAll]
  | s :: ss => by simp [Stmt.toJsonEach, Stmt.numbersAll, holds_stmt s, holds_stmts ss]

end

theorem holds_program (program : List Stmt) :
    Holds bits (programToJson program) ↔ bits ∈ Stmt.numbersAll program := by
  simp [programToJson, holds_stmts]

end Json

-- The values of a tree whose numbers are all of a kind.
def numbered (P : UInt64 → Prop) : Material where
  place _ := True
  name _ := True
  value v := ∀ bits ∈ v.numbers, P bits
  nil := List.forall_mem_nil _
  boolean _ := List.forall_mem_nil _

section

variable {P : UInt64 → Prop}

mutual

theorem Expr.MadeOf.numbers : {e : Expr} → e.MadeOf (numbered P) → ∀ bits ∈ e.numbers, P bits
  | .literal _ _, made => made.2
  | .name _ _, _ => List.forall_mem_nil _
  | .grouping _ _, made | .unary _ _ _, made => made.2.numbers
  | .assign _ _ _, made => made.2.2.numbers
  | .binary _ _ _ _, made | .logical _ _ _ _, made =>
    List.forall_mem_append.2 ⟨made.2.1.numbers, made.2.2.numbers⟩
  | .call _ _ _, made => List.forall_mem_append.2 ⟨made.2.1.numbers, Expr.MadeAll.numbers made.2.2⟩
  | .lambda _ _ _, made => made.2.2.numbers

theorem Expr.MadeAll.numbers : {es : List Expr} → Expr.MadeAll (numbered P) es → ∀ bits ∈ Expr.numbersAll es, P bits
  | [], _ => List.forall_mem_nil _
  | _ :: _, made => List.forall_mem_append.2 ⟨made.1.numbers, Expr.MadeAll.numbers made.2⟩

theorem Stmt.MadeOf.numbers : {s : Stmt} → s.MadeOf (numbered P) → ∀ bits ∈ s.numbers, P bits
  | .expr _ _, made | .print _ _, made | .giveBack _ (some _), made => made.2.numbers
  | .declare _ _ (some _), made => made.2.2.numbers
  | .giveBack _ none, _ | .declare _ _ none, _ => List.forall_mem_nil _
  | .block _, made => Block.MadeOf.numbers made
  | .branch _ _ _ none, made | .loop _ _ _, made =>
    List.forall_mem_append.2 ⟨made.2.1.numbers, made.2.2.numbers⟩
  | .branch _ _ _ (some _), made =>
    List.forall_mem_append.2 ⟨List.forall_mem_append.2 ⟨made.2.1.numbers, made.2.2.1.numbers⟩, made.2.2.2.numbers⟩
  | .function _ _ _ _, made => made.2.2.2.numbers

theorem Stmt.MadeAll.numbers : {ss : List Stmt} → Stmt.MadeAll (numbered P) ss → ∀ bits ∈ Stmt.numbersAll ss, P bits
  | [], _ => List.forall_mem_nil _
  | _ :: _, made => List.forall_mem_append.2 ⟨made.1.numbers, Stmt.MadeAll.numbers made.2⟩

theorem Block.MadeOf.numbers : {b : Block} → b.MadeOf (numbered P) → ∀ bits ∈ b.numbers, P bits
  | .absent, _ => List.forall_mem_nil _
  | .braces _ _, made => Stmt.MadeAll.numbers made.2

end

end

theorem parse_numbers (tokens : List Token) :
    ∀ bits ∈ Stmt.numbersAll (parse tokens).1, ∃ t ∈ tokens, bits ∈ t.literal.numbers := by
  refine Stmt.MadeAll.numbers (parse_madeOf (fun t mem => ⟨trivial, fun _ => trivial, ?_⟩) ?_)
  · exact fun _ bits found => ⟨t, mem, found⟩
  · exact ⟨trivial, fun _ => trivial, fun _ => List.forall_mem_nil _⟩

-- In a word of the grammar every number is a part of what the word stands for.

namespace Grammar

def Symbol.numbers : {α : Type} → Symbol α → α → List UInt64
  | _, .primary, e | _, .call, e | _, .unary, e | _, .operation _, e | _, .expression, e => e.numbers
  | _, .clause, e => e.elim [] Expr.numbers
  | _, .arguments, es => Expr.numbersAll es
  | _, .parameters, _ => []
  | _, .function, f => f.2.numbers
  | _, .block _, b => b.numbers
  | _, .initial, s => s.elim [] Stmt.numbers
  | _, .variableDeclaration, s | _, .expressionStatement, s | _, .statement _ _, s | _, .declaration _, s => s.numbers
  | _, .declarations _, ss => Stmt.numbersAll ss

theorem numbers_giveBack (span : Span) (value : Option Expr) :
    (Stmt.giveBack span value).numbers = value.elim [] Expr.numbers := by
  cases value <;> rfl

theorem numbers_forTree (first : Option Stmt) (condition step : Option Expr) (body : Stmt) :
    (forTree first condition step body).numbers = first.elim [] Stmt.numbers ++
      (condition.elim [] Expr.numbers ++ (body.numbers ++ step.elim [] Expr.numbers)) := by
  cases first <;> cases condition <;> cases step <;>
    simp [forTree, Stmt.numbers, Stmt.numbersAll, Block.numbers, Expr.numbers, Literal.numbers]

theorem numbers_join (p : Precedence) (op : Kind) (left right : Expr) :
    (p.join op left right).numbers = left.numbers ++ right.numbers := by
  cases p <;> simp [Precedence.join, Expr.numbers]

theorem numbers_operand (p : Precedence) (e : Expr) : p.operand.numbers e = e.numbers := by
  cases p <;> rfl

theorem operator_ne_number {t : Token} (isOperator : precedence? t.kind = some p) : t.kind ≠ .number := by
  intro isNumber
  rw [isNumber] at isOperator
  cases isOperator

-- The numbers of the tokens are among these.
def Carries (w : List Token) (numbers : List UInt64) : Prop :=
  ∀ t ∈ w, t.kind = .number → t.literal.numbers ⊆ numbers

namespace Carries

@[simp] theorem nil : Carries [] numbers := List.forall_mem_nil _

@[simp] theorem cons : Carries (t :: w) numbers ↔
    (t.kind = .number → t.literal.numbers ⊆ numbers) ∧ Carries w numbers := List.forall_mem_cons

@[simp] theorem append : Carries (w ++ v) numbers ↔ Carries w numbers ∧ Carries v numbers := List.forall_mem_append

theorem left (carries : Carries w numbers) : Carries w (numbers ++ more) :=
  fun t mem isNumber => List.subset_append_of_subset_left _ (carries t mem isNumber)

theorem right (carries : Carries w numbers) : Carries w (more ++ numbers) :=
  fun t mem isNumber => List.subset_append_of_subset_right _ (carries t mem isNumber)

end Carries

theorem Derives.numbers {sym : Symbol α} (derived : Derives sym w a) : Carries w (sym.numbers a) := by
  induction derived with
  | yes isKind | no isKind | nil isKind | string isKind | name isKind | parameter isKind | noInitial isKind =>
    simp [isKind]
  | number isKind => simp [Symbol.numbers, Expr.numbers]
  | unset first second third => simp [first, second, third]
  | noClause | noDeclarations => simp
  | callee _ ih | operand _ ih | value _ ih | initialVariable _ ih | initialExpression _ ih | simple _ ih | braces _ ih
  | variableDeclaration _ ih | statement _ ih | clause _ ih => exact ih
  | argument _ ih => simpa [Symbol.numbers, Expr.numbersAll] using ih
  | single p _ ih => cases p <;> exact ih
  | signed isSign _ ih => rcases isSign with isSign | isSign <;> simpa [isSign, Symbol.numbers, Expr.numbers] using ih
  | grouping opened _ closed ih => simpa [opened, closed, Symbol.numbers, Expr.numbers] using ih
  | lambda isFun _ ih => simpa [isFun, Symbol.numbers, Expr.numbers] using ih
  | callEmpty _ opened closed ih => simpa [opened, closed, Symbol.numbers, Expr.numbers, Expr.numbersAll] using ih
  | callWith _ opened _ _ closed ihCallee ihArgs =>
    simpa [opened, closed, Symbol.numbers, Expr.numbers] using ⟨ihCallee.left, ihArgs.right⟩
  | argumentMore _ isComma _ ih ihMore =>
    simpa [isComma, Symbol.numbers, Expr.numbersAll] using ⟨ih.left, ihMore.right⟩
  | joined p _ isOperator _ ihLeft ihRight =>
    rw [numbers_operand] at ihRight
    rw [Symbol.numbers, numbers_join]
    simpa [operator_ne_number isOperator] using ⟨ihLeft.left, ihRight.right⟩
  | assignment isName isSign _ ih => simpa [isName, isSign, Symbol.numbers, Expr.numbers] using ih
  | parameterMore isName isComma _ ih => simpa [isName, isComma, Symbol.numbers] using ih
  | thunk opened closed _ ih => simpa [opened, closed, Symbol.numbers] using ih
  | function opened _ _ closed _ ihParams ih =>
    simpa [opened, closed, Symbol.numbers] using ⟨ihParams.left, ih⟩
  | block opened _ closed ih => simpa [opened, closed, Symbol.numbers, Block.numbers] using ih
  | set isVar isName isSign _ ends ih => simpa [isVar, isName, isSign, ends, Symbol.numbers, Stmt.numbers] using ih
  | expressionStatement _ ends ih => simpa [ends, Symbol.numbers, Stmt.numbers] using ih
  | print isPrint _ ends ih => simpa [isPrint, ends, Symbol.numbers, Stmt.numbers] using ih
  | giveBack isReturn _ ends ih => simpa [isReturn, ends, Symbol.numbers, numbers_giveBack] using ih
  | loop isWhile opened _ closed _ ih ihBody =>
    simpa [isWhile, opened, closed, Symbol.numbers, Stmt.numbers] using ⟨ih.left, ihBody.right⟩
  | counted isFor opened _ _ divides _ closed _ ihFirst ihCondition ihStep ihBody =>
    rw [Symbol.numbers, numbers_forTree]
    simpa [isFor, opened, divides, closed] using
      ⟨ihFirst.left, ihCondition.left.right, ihStep.right.right.right, ihBody.left.right.right⟩
  | branch isIf opened _ closed _ ih ihYes =>
    simpa [isIf, opened, closed, Symbol.numbers, Stmt.numbers] using ⟨ih.left, ihYes.right⟩
  | branchElse isIf opened _ closed _ isElse _ ih ihYes ihNo =>
    simpa [isIf, opened, closed, isElse, Symbol.numbers, Stmt.numbers] using
      ⟨ih.left, ihYes.left.right, ihNo.right.right⟩
  | functionDeclaration isFun isName _ ih => simpa [isFun, isName, Symbol.numbers, Stmt.numbers] using ih
  | declarations _ _ ih ihMore => simpa [Symbol.numbers, Stmt.numbersAll] using ⟨ih.left, ihMore.right⟩

end Grammar

end TinyScript
