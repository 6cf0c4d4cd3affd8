import TinyScript.Tree

namespace TinyScript

inductive Node where
  | expr (e : Expr)
  | stmt (s : Stmt)
  | block (b : Block)

def Block.span? : Block → Option Span
  | .braces span _ => some span
  | .absent => none

def Stmt.span? : Stmt → Option Span
  | .expr span _ | .print span _ | .declare span _ _ | .branch span _ _ _ | .loop span _ _
  | .function span _ _ _ | .giveBack span _ => some span
  | .block body => body.span?

namespace Node

def span? : Node → Option Span
  | .expr e => some e.span
  | .stmt s => s.span?
  | .block b => b.span?

def children : Node → List Node
  | .expr (.literal _ _) | .expr (.name _ _) => []
  | .expr (.grouping _ e) | .expr (.unary _ _ e) | .expr (.assign _ _ e) => [.expr e]
  | .expr (.binary _ _ l r) | .expr (.logical _ _ l r) => [.expr l, .expr r]
  | .expr (.call _ f es) => .expr f :: es.map .expr
  | .expr (.lambda _ _ body) => [.block body]
  | .stmt (.expr _ e) | .stmt (.print _ e) => [.expr e]
  | .stmt (.declare _ _ value) | .stmt (.giveBack _ value) => value.toList.map .expr
  | .stmt (.block body) => [.block body]
  | .stmt (.branch _ c yes no) => .expr c :: .stmt yes :: no.toList.map .stmt
  | .stmt (.loop _ c body) => [.expr c, .stmt body]
  | .stmt (.function _ _ _ body) => [.block body]
  | .block (.braces _ stmts) => stmts.map .stmt
  | .block .absent => []

-- What is run when the node is, in the scope it stands in: not the body of a function, and not the inside of a
-- block.
def parts : Node → List Node
  | .expr (.lambda _ _ _) | .stmt (.function _ _ _ _) | .stmt (.block _) => []
  | node => node.children

theorem mem_children {node inner : Node} (mem : inner ∈ node.parts) : inner ∈ node.children := by
  unfold parts at mem
  split at mem
  all_goals first | exact mem | cases mem

-- The node itself, its children, their children and so on.
inductive Inside : Node → Node → Prop where
  | self : Inside node node
  | deeper : child ∈ whole.children → Inside node child → Inside node whole

end Node

def Span.relocate (g : Position → Position) (s : Span) : Span := ⟨g s.start, g s.stop⟩

mutual

def Expr.relocate (g : Position → Position) : Expr → Expr
  | .literal span value => .literal (span.relocate g) value
  | .grouping span inner => .grouping (span.relocate g) (inner.relocate g)
  | .unary span op operand => .unary (span.relocate g) op (operand.relocate g)
  | .binary span op left right => .binary (span.relocate g) op (left.relocate g) (right.relocate g)
  | .logical span op left right => .logical (span.relocate g) op (left.relocate g) (right.relocate g)
  | .name span x => .name (span.relocate g) x
  | .assign span x value => .assign (span.relocate g) x (value.relocate g)
  | .call span callee args => .call (span.relocate g) (callee.relocate g) (Expr.relocateAll g args)
  | .lambda span params body => .lambda (span.relocate g) params (body.relocate g)

def Expr.relocateAll (g : Position → Position) : List Expr → List Expr
  | [] => []
  | e :: es => e.relocate g :: Expr.relocateAll g es

def Stmt.relocate (g : Position → Position) : Stmt → Stmt
  | .expr span value => .expr (span.relocate g) (value.relocate g)
  | .print span value => .print (span.relocate g) (value.relocate g)
  | .declare span x none => .declare (span.relocate g) x none
  | .declare span x (some value) => .declare (span.relocate g) x (some (value.relocate g))
  | .block body => .block (body.relocate g)
  | .branch span condition yes none =>
    .branch (span.relocate g) (condition.relocate g) (yes.relocate g) none
  | .branch span condition yes (some no) =>
    .branch (span.relocate g) (condition.relocate g) (yes.relocate g) (some (no.relocate g))
  | .loop span condition body => .loop (span.relocate g) (condition.relocate g) (body.relocate g)
  | .function span f params body => .function (span.relocate g) f params (body.relocate g)
  | .giveBack span none => .giveBack (span.relocate g) none
  | .giveBack span (some value) => .giveBack (span.relocate g) (some (value.relocate g))

def Stmt.relocateAll (g : Position → Position) : List Stmt → List Stmt
  | [] => []
  | s :: ss => s.relocate g :: Stmt.relocateAll g ss

def Block.relocate (g : Position → Position) : Block → Block
  | .braces span stmts => .braces (span.relocate g) (Stmt.relocateAll g stmts)
  | .absent => .absent

end

section

variable (g : Position → Position)

@[simp] theorem Expr.span_relocate (e : Expr) : (e.relocate g).span = e.span.relocate g := by
  cases e <;> rfl

theorem Expr.relocateAll_eq_map (es : List Expr) : Expr.relocateAll g es = es.map (Expr.relocate g) := by
  induction es with
  | nil => rfl
  | cons e es ih => rw [Expr.relocateAll, ih, List.map_cons]

theorem Stmt.relocateAll_eq_map (ss : List Stmt) : Stmt.relocateAll g ss = ss.map (Stmt.relocate g) := by
  induction ss with
  | nil => rfl
  | cons s ss ih => rw [Stmt.relocateAll, ih, List.map_cons]

theorem Stmt.relocate_declare (span : Span) (x : Bytes) (value : Option Expr) :
    (Stmt.declare span x value).relocate g =
      .declare (span.relocate g) x (value.map (Expr.relocate g)) := by
  cases value <;> rfl

theorem Stmt.relocate_branch (span : Span) (condition : Expr) (yes : Stmt) (no : Option Stmt) :
    (Stmt.branch span condition yes no).relocate g =
      .branch (span.relocate g) (condition.relocate g) (yes.relocate g) (no.map (Stmt.relocate g)) := by
  cases no <;> rfl

theorem Stmt.relocate_giveBack (span : Span) (value : Option Expr) :
    (Stmt.giveBack span value).relocate g =
      .giveBack (span.relocate g) (value.map (Expr.relocate g)) := by
  cases value <;> rfl

end

mutual

theorem Expr.relocate_relocate (g h : Position → Position) :
    (e : Expr) → (e.relocate g).relocate h = e.relocate (h ∘ g)
  | .literal _ _ | .name _ _ => by simp only [Expr.relocate]; rfl
  | .grouping _ e | .unary _ _ e | .assign _ _ e => by
    simp only [Expr.relocate, Expr.relocate_relocate g h e]
    rfl
  | .binary _ _ l r | .logical _ _ l r => by
    simp only [Expr.relocate, Expr.relocate_relocate g h l, Expr.relocate_relocate g h r]
    rfl
  | .call _ f es => by
    simp only [Expr.relocate, Expr.relocate_relocate g h f, Expr.relocateAll_relocateAll g h es]
    rfl
  | .lambda _ _ body => by
    simp only [Expr.relocate, Block.relocate_relocate g h body]
    rfl

theorem Expr.relocateAll_relocateAll (g h : Position → Position) :
    (es : List Expr) → Expr.relocateAll h (Expr.relocateAll g es) = Expr.relocateAll (h ∘ g) es
  | [] => rfl
  | e :: es => by
    simp only [Expr.relocateAll, Expr.relocate_relocate g h e, Expr.relocateAll_relocateAll g h es]

theorem Stmt.relocate_relocate (g h : Position → Position) :
    (s : Stmt) → (s.relocate g).relocate h = s.relocate (h ∘ g)
  | .expr _ e | .print _ e | .declare _ _ (some e) | .giveBack _ (some e) => by
    simp only [Stmt.relocate, Expr.relocate_relocate g h e]
    rfl
  | .declare _ _ none | .giveBack _ none => by simp only [Stmt.relocate]; rfl
  | .block body => by simp only [Stmt.relocate, Block.relocate_relocate g h body]
  | .branch _ c yes none => by
    simp only [Stmt.relocate, Expr.relocate_relocate g h c, Stmt.relocate_relocate g h yes]
    rfl
  | .branch _ c yes (some no) => by
    simp only [Stmt.relocate, Expr.relocate_relocate g h c, Stmt.relocate_relocate g h yes,
      Stmt.relocate_relocate g h no]
    rfl
  | .loop _ c body => by
    simp only [Stmt.relocate, Expr.relocate_relocate g h c, Stmt.relocate_relocate g h body]
    rfl
  | .function _ _ _ body => by
    simp only [Stmt.relocate, Block.relocate_relocate g h body]
    rfl

theorem Stmt.relocateAll_relocateAll (g h : Position → Position) :
    (ss : List Stmt) → Stmt.relocateAll h (Stmt.relocateAll g ss) = Stmt.relocateAll (h ∘ g) ss
  | [] => rfl
  | s :: ss => by
    simp only [Stmt.relocateAll, Stmt.relocate_relocate g h s, Stmt.relocateAll_relocateAll g h ss]

theorem Block.relocate_relocate (g h : Position → Position) :
    (b : Block) → (b.relocate g).relocate h = b.relocate (h ∘ g)
  | .absent => rfl
  | .braces _ stmts => by
    simp only [Block.relocate, Stmt.relocateAll_relocateAll g h stmts]
    rfl

end

mutual

theorem Expr.relocate_id : (e : Expr) → e.relocate id = e
  | .literal _ _ | .name _ _ => rfl
  | .grouping _ e | .unary _ _ e | .assign _ _ e => by
    rw [Expr.relocate, e.relocate_id]
    rfl
  | .binary _ _ l r | .logical _ _ l r => by
    rw [Expr.relocate, l.relocate_id, r.relocate_id]
    rfl
  | .call _ f es => by
    rw [Expr.relocate, f.relocate_id, Expr.relocateAll_id es]
    rfl
  | .lambda _ _ body => by
    rw [Expr.relocate, body.relocate_id]
    rfl

theorem Expr.relocateAll_id : (es : List Expr) → Expr.relocateAll id es = es
  | [] => rfl
  | e :: es => by rw [Expr.relocateAll, e.relocate_id, Expr.relocateAll_id es]

theorem Stmt.relocate_id : (s : Stmt) → s.relocate id = s
  | .expr _ e | .print _ e | .declare _ _ (some e) | .giveBack _ (some e) => by
    rw [Stmt.relocate, e.relocate_id]
    rfl
  | .declare _ _ none | .giveBack _ none => rfl
  | .block body => by rw [Stmt.relocate, body.relocate_id]
  | .branch _ c yes none => by
    rw [Stmt.relocate, c.relocate_id, yes.relocate_id]
    rfl
  | .branch _ c yes (some no) => by
    rw [Stmt.relocate, c.relocate_id, yes.relocate_id, no.relocate_id]
    rfl
  | .loop _ c body => by
    rw [Stmt.relocate, c.relocate_id, body.relocate_id]
    rfl
  | .function _ _ _ body => by
    rw [Stmt.relocate, body.relocate_id]
    rfl

theorem Stmt.relocateAll_id : (ss : List Stmt) → Stmt.relocateAll id ss = ss
  | [] => rfl
  | s :: ss => by rw [Stmt.relocateAll, s.relocate_id, Stmt.relocateAll_id ss]

theorem Block.relocate_id : (b : Block) → b.relocate id = b
  | .absent => rfl
  | .braces _ stmts => by
    rw [Block.relocate, Stmt.relocateAll_id stmts]
    rfl

end

end TinyScript
