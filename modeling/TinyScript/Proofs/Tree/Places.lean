import TinyScript.Proofs.Tree.Material

namespace TinyScript

mutual

def Expr.Placed (allowed : Position → Prop) : Expr → Prop
  | .literal span _ | .name span _ => allowed span.start
  | .grouping span e | .unary span _ e | .assign span _ e => allowed span.start ∧ e.Placed allowed
  | .binary span _ l r | .logical span _ l r => allowed span.start ∧ l.Placed allowed ∧ r.Placed allowed
  | .call span f es => allowed span.start ∧ f.Placed allowed ∧ Expr.PlacedAll allowed es
  | .lambda span _ body => allowed span.start ∧ body.Placed allowed

def Expr.PlacedAll (allowed : Position → Prop) : List Expr → Prop
  | [] => True
  | e :: es => e.Placed allowed ∧ Expr.PlacedAll allowed es

def Stmt.Placed (allowed : Position → Prop) : Stmt → Prop
  | .expr span e | .print span e | .declare span _ (some e) | .giveBack span (some e) =>
    allowed span.start ∧ e.Placed allowed
  | .declare span _ none | .giveBack span none => allowed span.start
  | .block body => body.Placed allowed
  | .branch span c yes none => allowed span.start ∧ c.Placed allowed ∧ yes.Placed allowed
  | .branch span c yes (some no) =>
    allowed span.start ∧ c.Placed allowed ∧ yes.Placed allowed ∧ no.Placed allowed
  | .loop span c body => allowed span.start ∧ c.Placed allowed ∧ body.Placed allowed
  | .function span _ _ body => allowed span.start ∧ body.Placed allowed

def Stmt.PlacedAll (allowed : Position → Prop) : List Stmt → Prop
  | [] => True
  | s :: ss => s.Placed allowed ∧ Stmt.PlacedAll allowed ss

def Block.Placed (allowed : Position → Prop) : Block → Prop
  | .absent => True
  | .braces span stmts => allowed span.start ∧ Stmt.PlacedAll allowed stmts

end

def anywhere (_ : Position) : Prop := True

mutual

theorem Expr.placed_anywhere : (e : Expr) → e.Placed anywhere
  | .literal _ _ | .name _ _ => trivial
  | .grouping _ e | .unary _ _ e | .assign _ _ e => ⟨trivial, e.placed_anywhere⟩
  | .binary _ _ l r | .logical _ _ l r => ⟨trivial, l.placed_anywhere, r.placed_anywhere⟩
  | .call _ f es => ⟨trivial, f.placed_anywhere, Expr.placedAll_anywhere es⟩
  | .lambda _ _ body => ⟨trivial, body.placed_anywhere⟩

theorem Expr.placedAll_anywhere : (es : List Expr) → Expr.PlacedAll anywhere es
  | [] => trivial
  | e :: es => ⟨e.placed_anywhere, Expr.placedAll_anywhere es⟩

theorem Stmt.placed_anywhere : (s : Stmt) → s.Placed anywhere
  | .expr _ e | .print _ e | .declare _ _ (some e) | .giveBack _ (some e) => ⟨trivial, e.placed_anywhere⟩
  | .declare _ _ none | .giveBack _ none => trivial
  | .block body => body.placed_anywhere
  | .branch _ c yes none => ⟨trivial, c.placed_anywhere, yes.placed_anywhere⟩
  | .branch _ c yes (some no) => ⟨trivial, c.placed_anywhere, yes.placed_anywhere, no.placed_anywhere⟩
  | .loop _ c body => ⟨trivial, c.placed_anywhere, body.placed_anywhere⟩
  | .function _ _ _ body => ⟨trivial, body.placed_anywhere⟩

theorem Stmt.placedAll_anywhere : (ss : List Stmt) → Stmt.PlacedAll anywhere ss
  | [] => trivial
  | s :: ss => ⟨s.placed_anywhere, Stmt.placedAll_anywhere ss⟩

theorem Block.placed_anywhere : (b : Block) → b.Placed anywhere
  | .absent => trivial
  | .braces _ stmts => ⟨trivial, Stmt.placedAll_anywhere stmts⟩

end

-- What a tree is made of says where its nodes begin.
mutual

theorem Expr.placed : (e : Expr) → e.MadeOf m → e.Placed m.place
  | .literal _ _, made | .name _ _, made => made.1
  | .grouping _ e, made | .unary _ _ e, made => ⟨made.1, e.placed made.2⟩
  | .assign _ _ e, made => ⟨made.1, e.placed made.2.2⟩
  | .binary _ _ l r, made | .logical _ _ l r, made => ⟨made.1, l.placed made.2.1, r.placed made.2.2⟩
  | .call _ f es, made => ⟨made.1, f.placed made.2.1, Expr.placedAll es made.2.2⟩
  | .lambda _ _ body, made => ⟨made.1, body.placed made.2.2⟩

theorem Expr.placedAll : (es : List Expr) → Expr.MadeAll m es → Expr.PlacedAll m.place es
  | [], _ => trivial
  | e :: es, made => ⟨e.placed made.1, Expr.placedAll es made.2⟩

theorem Stmt.placed : (s : Stmt) → s.MadeOf m → s.Placed m.place
  | .expr _ e, made | .print _ e, made | .giveBack _ (some e), made => ⟨made.1, e.placed made.2⟩
  | .declare _ _ (some e), made => ⟨made.1, e.placed made.2.2⟩
  | .declare _ _ none, made => made.1
  | .giveBack _ none, made => made
  | .block body, made => body.placed made
  | .branch _ c yes none, made => ⟨made.1, c.placed made.2.1, yes.placed made.2.2⟩
  | .branch _ c yes (some no), made =>
    ⟨made.1, c.placed made.2.1, yes.placed made.2.2.1, no.placed made.2.2.2⟩
  | .loop _ c body, made => ⟨made.1, c.placed made.2.1, body.placed made.2.2⟩
  | .function _ _ _ body, made => ⟨made.1, body.placed made.2.2.2⟩

theorem Stmt.placedAll : (ss : List Stmt) → Stmt.MadeAll m ss → Stmt.PlacedAll m.place ss
  | [], _ => trivial
  | s :: ss, made => ⟨s.placed made.1, Stmt.placedAll ss made.2⟩

theorem Block.placed : (b : Block) → b.MadeOf m → b.Placed m.place
  | .absent, _ => trivial
  | .braces _ stmts, made => ⟨made.1, Stmt.placedAll stmts made.2⟩

end

theorem parse_placed {allowed : Position → Prop} {tokens : List Token} (each : ∀ t ∈ tokens, allowed t.span.start)
    (last : allowed (missingEnd tokens).span.start) : Stmt.PlacedAll allowed (parse tokens).1 := by
  let m : Material := ⟨allowed, fun _ => True, fun _ => True, trivial, fun _ => trivial⟩
  have offers {t : Token} (begins : allowed t.span.start) : m.Offers t := ⟨begins, fun _ => trivial, fun _ => trivial⟩
  exact Stmt.placedAll _ (parse_madeOf (fun t mem => offers (each t mem)) (offers last))

end TinyScript
