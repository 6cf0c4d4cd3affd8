import TinyScript.Run.Machine

namespace TinyScript

inductive Signal where
  | next
  | returned (v : Value)

-- The steps that an evaluation is put together from. What a step is, is up to whoever evaluates.
structure Primitives (M : Type → Type) where
  fail : Span → RuntimeFault → M Value
  unary : Span → Kind → Value → M Value
  binary : Span → Kind → Value → Value → M Value
  -- whether the left operand alone decides a logical operator
  decides : Kind → Value → M Bool
  lookup : Span → Bytes → M Value
  assign : Span → Bytes → Value → M Unit
  define : Bytes → Value → M Unit
  makeFunction : Bytes → Params → Block → M Value
  print : Bytes → M Unit
  tick : Span → M Unit
  builtin : Builtin → List Value → M Value
  invoke : Closure → List Value → M Value
  locating : Span → M Value → M Value
  inCall : Span → M Value → M Value
  inNewScope : ScopeId → M Value → M Value
  inBlock : M Signal → M Signal
  noBlock : M Signal
  repeating : M (Option Signal) → M Signal

namespace Evaluate

variable {M : Type → Type} [Monad M] (ops : Primitives M)

-- The arguments are counted before the call counts as a step, and the step before the depth.
def apply (span : Span) (callee : Value) (args : List Value) : M Value :=
  let enter (wanted : Nat) (body : M Value) : M Value :=
    if args.length ≠ wanted then ops.fail span (.arity wanted args.length)
    else do
      ops.tick span
      ops.inCall span (ops.locating span body)
  match callee with
  | .function _ f => enter f.params.names.length (ops.invoke f args)
  | .builtin _ b => enter b.arity (ops.builtin b args)
  | v => ops.fail span (.notCallable v.type)

def round (span : Span) (condition : M Value) (body : M Signal) : M (Option Signal) := do
  let v ← condition
  if v.isTruthy then
    ops.tick span
    match ← body with
    | .next => return none
    | .returned v => return some (.returned v)
  else
    return some .next

mutual

def eval : Expr → M Value
  | .literal _ v => pure (.ofLiteral v)
  | .grouping _ e => eval e
  | .unary span op e => do
    let v ← eval e
    ops.unary span op v
  | .binary span op l r => do
    let left ← eval l
    let right ← eval r
    ops.binary span op left right
  | .logical _ op l r => do
    let left ← eval l
    if ← ops.decides op left then return left else eval r
  | .name span x => ops.lookup span x
  | .assign span x e => do
    let v ← eval e
    ops.assign span x v
    return v
  | .call span f es => do
    let callee ← eval f
    let args ← evalEach es
    apply ops span callee args
  | .lambda _ params body => ops.makeFunction [] params body

def evalEach : List Expr → M (List Value)
  | [] => pure []
  | e :: es => do
    let v ← eval e
    let vs ← evalEach es
    return v :: vs

def exec : Stmt → M Signal
  | .expr _ e => do
    let _ ← eval e
    return .next
  | .print _ e => do
    let v ← eval e
    ops.print v.render
    return .next
  | .declare _ x none => do
    ops.define x .nil
    return .next
  | .declare _ x (some e) => do
    let v ← eval e
    ops.define x v
    return .next
  | .block body => ops.inBlock (execBlock body)
  | .branch _ c yes none => do
    let v ← eval c
    if v.isTruthy then exec yes else return .next
  | .branch _ c yes (some no) => do
    let v ← eval c
    if v.isTruthy then exec yes else exec no
  | .loop span c body => ops.repeating (round ops span (eval c) (exec body))
  | .function _ name params body => do
    let f ← ops.makeFunction name params body
    ops.define name f
    return .next
  | .giveBack _ none => return .returned .nil
  | .giveBack _ (some e) => do
    let v ← eval e
    return .returned v

def execBlock : Block → M Signal
  | .absent => ops.noBlock
  | .braces _ stmts => execEach stmts

def execEach : List Stmt → M Signal
  | [] => return .next
  | s :: ss => do
    match ← exec s with
    | .next => execEach ss
    | .returned v => return .returned v

end

-- Of two parameters with one name the later counts.
def bindAll : List (Bytes × Value) → M Unit
  | [] => pure ()
  | (x, v) :: more => do
    ops.define x v
    bindAll more

def boundBody (f : Closure) (args : List Value) : M Value := do
  bindAll ops (f.params.names.zip args)
  match ← execBlock ops f.body with
  | .next => return .nil
  | .returned v => return v

def functionBody (f : Closure) (args : List Value) : M Value :=
  ops.inNewScope f.scope (boundBody ops f args)

-- A return at the top level ends its own statement only.
def execProgram : List Stmt → M Unit
  | [] => pure ()
  | s :: ss => do
    let _ ← exec ops s
    execProgram ss

end Evaluate

end TinyScript
