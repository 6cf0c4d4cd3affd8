import TinyScript.Proofs.Decimal
import TinyScript.Proofs.Text.Sexp
import TinyScript.Proofs.Token.Munch
import TinyScript.Proofs.Tree.Grammar
import TinyScript.Proofs.Tree.Material
import TinyScript.Proofs.Tree.Runnable
import TinyScript.Tree.Render

namespace TinyScript

def Literal.Legible : Literal → Prop
  | .number bits => ∃ r ≤ Double.infinite, bits = Double.ofRank r
  | _ => True

def legible : Material where
  place _ := True
  name := Lexical.Spells .ident
  value := Literal.Legible
  nil := trivial
  boolean _ := trivial

theorem literal_legible (k : Kind) (w : Bytes) : (Scan.literal k w).Legible := by
  unfold Scan.literal
  split
  · trivial
  · exact ⟨_, Double.nearest_le _ _, rfl⟩
  · trivial

theorem Lexical.Munched.ident (munched : Lexical.Munched t rest) (isName : t.kind = .ident) :
    Lexical.Spells .ident t.lexeme := by
  obtain ⟨word, ends⟩ := munched.word.1 (.inl isName)
  refine .ident word fun k known same => ?_
  have isKeyword := (munched.keyword k known).2 ⟨same, ends⟩
  rw [← isKeyword, isName] at known
  exact absurd known (by decide)

theorem scan_offers (s : Bytes) : ∀ t ∈ scan s, legible.Offers t := by
  intro t mem
  refine ⟨trivial, fun isName => ?_, fun _ => ?_⟩
  · exact (Scan.tokensFrom_munched [] s .start rfl t mem (by rw [isName]; decide)).ident isName
  · rw [scan_literal s t mem]
    exact literal_legible _ _

theorem parse_legible (s : Bytes) : Stmt.MadeAll legible (parse (scan s)).1 := by
  refine parse_madeOf (scan_offers s) ⟨trivial, fun isName => ?_, fun _ => trivial⟩
  cases isName

-- A tree as lists in parentheses.

def Literal.sexp : Literal → Sexp
  | .string s => .quoted s
  | v => .word v.render

mutual

def Expr.sexp : Expr → Sexp
  | .literal _ v => v.sexp
  | .grouping _ e => .list [.word (text "group"), e.sexp]
  | .unary _ op e => .list [.word op.label, e.sexp]
  | .binary _ op l r | .logical _ op l r => .list [.word op.label, l.sexp, r.sexp]
  | .name _ x => .word x
  | .assign _ x e => .list [.word (text "="), .word x, e.sexp]
  | .call _ f args => .list (.word (text "call") :: f.sexp :: Expr.sexpEach args)
  | .lambda _ ps body => .list [.word (text "fun"), .list (ps.names.map .word), body.sexp]

def Expr.sexpEach : List Expr → List Sexp
  | [] => []
  | e :: es => e.sexp :: Expr.sexpEach es

def Stmt.sexp : Stmt → Sexp
  | .expr _ e => .list [.word (text ";"), e.sexp]
  | .print _ e => .list [.word (text "print"), e.sexp]
  | .declare _ x none => .list [.word (text "var"), .word x]
  | .declare _ x (some e) => .list [.word (text "var"), .word x, e.sexp]
  | .block body => body.sexp
  | .branch _ c yes none => .list [.word (text "if"), c.sexp, yes.sexp]
  | .branch _ c yes (some no) => .list [.word (text "if"), c.sexp, yes.sexp, no.sexp]
  | .loop _ c body => .list [.word (text "while"), c.sexp, body.sexp]
  | .function _ f ps body => .list [.word (text "fun"), .word f, .list (ps.names.map .word), body.sexp]
  | .giveBack _ none => .list [.word (text "return")]
  | .giveBack _ (some e) => .list [.word (text "return"), e.sexp]

def Stmt.sexpEach : List Stmt → List Sexp
  | [] => []
  | s :: ss => s.sexp :: Stmt.sexpEach ss

def Block.sexp : Block → Sexp
  | .absent => .word (text "<nil>")
  | .braces _ stmts => .list (.word (text "block") :: Stmt.sexpEach stmts)

end

-- Such lists as a tree, where they are one.

def Expr.ofWord (w : Bytes) : Expr :=
  if w = text "nil" then .literal .unknown .nil
  else if w = text "true" then .literal .unknown (.boolean true)
  else if w = text "false" then .literal .unknown (.boolean false)
  else if w = text "+Inf" then .literal .unknown (.number (Double.ofRank Double.infinite))
  else if w.head?.any Bytes.isDigit then .literal .unknown (Scan.literal .number w)
  else .name .unknown w

def operator? (ops : List Kind) (head : Bytes) : Option Kind := ops.find? fun op => op.label == head

def Expr.ofParts? (head : Bytes) : List Expr → Option Expr
  | [e] => do
    if head = text "group" then return .grouping .unknown e
    else return .unary .unknown (← operator? unaryOperators head) e
  | [l, r] => do
    if let some op := operator? binaryOperators head then return .binary .unknown op l r
    else return .logical .unknown (← operator? logicalOperators head) l r
  | _ => none

namespace Sexp

def name? : Sexp → Option Bytes
  | .word w => some w
  | _ => none

def params? : Sexp → Option Params
  | .list [] => some none
  | .list ws => some <$> ws.mapM name?
  | _ => none

mutual

def expr? : Sexp → Option Expr
  | .word w => some (.ofWord w)
  | .quoted s => some (.literal .unknown (.string s))
  | .list (.word head :: parts) =>
    if head = text "call" then do
      let f :: args ← exprs? parts | none
      return .call .unknown f args
    else if head = text "=" then
      match parts with
      | [a, b] => do return .assign .unknown (← a.name?) (← b.expr?)
      | _ => none
    else if head = text "fun" then
      match parts with
      | [a, b] => do return .lambda .unknown (← a.params?) (← b.block?)
      | _ => none
    else do Expr.ofParts? head (← exprs? parts)
  | .list _ => none

def exprs? : List Sexp → Option (List Expr)
  | [] => some []
  | s :: ss => do return (← s.expr?) :: (← exprs? ss)

def stmt? : Sexp → Option Stmt
  | .list (.word head :: parts) =>
    if head = text "block" then do return .block (.braces .unknown (← stmts? parts))
    else match parts with
      | [] => if head = text "return" then some (.giveBack .unknown none) else none
      | [a] =>
        if head = text ";" then do return .expr .unknown (← a.expr?)
        else if head = text "print" then do return .print .unknown (← a.expr?)
        else if head = text "return" then do return .giveBack .unknown (some (← a.expr?))
        else if head = text "var" then do return .declare .unknown (← a.name?) none
        else none
      | [a, b] =>
        if head = text "if" then do return .branch .unknown (← a.expr?) (← b.stmt?) none
        else if head = text "while" then do return .loop .unknown (← a.expr?) (← b.stmt?)
        else if head = text "var" then do return .declare .unknown (← a.name?) (some (← b.expr?))
        else none
      | [a, b, c] =>
        if head = text "if" then do return .branch .unknown (← a.expr?) (← b.stmt?) (some (← c.stmt?))
        else if head = text "fun" then do return .function .unknown (← a.name?) (← b.params?) (← c.block?)
        else none
      | _ => none
  | _ => none

def stmts? : List Sexp → Option (List Stmt)
  | [] => some []
  | s :: ss => do return (← s.stmt?) :: (← stmts? ss)

def block? : Sexp → Option Block
  | .list (.word head :: parts) =>
    if head = text "block" then do return .braces .unknown (← stmts? parts) else none
  | _ => none

end

end Sexp

theorem params?_names (made : Params.MadeOf legible ps) : (Sexp.list (ps.names.map .word)).params? = some ps := by
  have names (xs : List Bytes) : (xs.map Sexp.word).mapM Sexp.name? = some xs := by
    induction xs with
    | nil => rfl
    | cons x xs ih =>
      rw [List.map_cons, List.mapM_cons, ih]
      rfl
  cases ps with
  | none => rfl
  | some xs =>
    obtain ⟨x, xs, rfl⟩ := List.exists_cons_of_ne_nil (made xs rfl).1
    show some <$> ((x :: xs).map Sexp.word).mapM Sexp.name? = _
    rw [names]
    rfl

theorem operator?_label (known : op ∈ ops) (distinct : (ops.map Kind.label).Nodup) :
    operator? ops op.label = some op := by
  induction ops with
  | nil => cases known
  | cons first ops ih =>
    obtain ⟨fresh, distinct⟩ := List.nodup_cons.1 distinct
    rcases List.mem_cons.1 known with rfl | known
    · exact List.find?_cons_of_pos (by simp)
    · have other : first.label ≠ op.label := by
        intro same
        exact fresh (same ▸ List.mem_map_of_mem known)
      rw [operator?, List.find?_cons_of_neg (by simpa using other)]
      exact ih known distinct

theorem operator?_none (known : op ∈ logicalOperators) : operator? binaryOperators op.label = none := by
  revert op
  decide +kernel

theorem operator_head (known : op ∈ unaryOperators ∨ op ∈ binaryOperators ∨ op ∈ logicalOperators) :
    op.label ≠ text "call" ∧ op.label ≠ text "=" ∧ op.label ≠ text "fun" ∧ op.label ≠ text "group" := by
  revert op
  simp only [← List.mem_append]
  decide +kernel

theorem Expr.ofWord_name (name : Lexical.Spells .ident x) : Expr.ofWord x = .name .unknown x := by
  obtain ⟨word, other⟩ := name.name
  obtain ⟨b, more, rfl, letter, _⟩ := word
  have unsigned : b :: more ≠ text "+Inf" := by
    intro same
    have first : b = byte '+' := (List.cons.inj same).1
    rw [first, Lexical.letter_iff] at letter
    exact absurd letter (by decide)
  have undigit : ¬(b :: more).head?.any Bytes.isDigit = true := by
    simpa [Lexical.digit_iff] using Lexical.letter_digit letter
  have unreserved : b :: more ≠ text "nil" ∧ b :: more ≠ text "true" ∧ b :: more ≠ text "false" :=
    ⟨other .kwNil (by decide), other .kwTrue (by decide), other .kwFalse (by decide)⟩
  rw [Expr.ofWord, if_neg unreserved.1, if_neg unreserved.2.1, if_neg unreserved.2.2, if_neg unsigned, if_neg undigit]

theorem Expr.ofWord_number (digit : w.head?.any Bytes.isDigit = true) :
    Expr.ofWord w = .literal .unknown (Scan.literal .number w) := by
  have unlike {v : Bytes} (other : v.head?.any Bytes.isDigit = false) : w ≠ v := by
    rintro rfl
    exact absurd (digit.symm.trans other) nofun
  rw [Expr.ofWord, if_neg (unlike (by decide +kernel)), if_neg (unlike (by decide +kernel)),
    if_neg (unlike (by decide +kernel)), if_neg (unlike (by decide +kernel)), if_pos digit]

theorem Literal.sexp_expr? (v : Literal) (made : v.Legible) : v.sexp.expr? = some (.literal .unknown v) := by
  cases v with
  | nil => rfl
  | boolean b => cases b <;> rfl
  | string s => rfl
  | number bits =>
    obtain ⟨r, small, rfl⟩ := made
    show some (Expr.ofWord (Double.plain (Double.ofRank r))) = _
    rcases Nat.lt_or_eq_of_le small with small | rfl
    · rw [Expr.ofWord_number (Double.plain_first small), Double.literal_ofRank small]
    · rw [Double.plain_infinite]
      simp [Expr.ofWord]

mutual

theorem Expr.sexp_expr? : (e : Expr) → e.Runnable → e.MadeOf legible → e.sexp.expr? = some e.bare
  | .literal _ v, _, made => v.sexp_expr? made.2
  | .name _ x, _, made => by rw [Expr.sexp, Sexp.expr?, Expr.ofWord_name made.2]; rfl
  | .grouping _ e, run, made => by
    simp [Expr.sexp, Sexp.expr?, Sexp.exprs?, e.sexp_expr? run made.2, Expr.ofParts?, Expr.bare]
  | .unary _ op e, run, made => by
    obtain ⟨noCall, noAssign, noFun, noGroup⟩ := operator_head (.inl run.1)
    simp [Expr.sexp, Sexp.expr?, Sexp.exprs?, noCall, noAssign, noFun, noGroup, e.sexp_expr? run.2 made.2,
      Expr.ofParts?, operator?_label run.1 (by decide +kernel), Expr.bare]
  | .binary _ op l r, run, made => by
    obtain ⟨noCall, noAssign, noFun, _⟩ := operator_head (.inr (.inl run.1))
    simp [Expr.sexp, Sexp.expr?, Sexp.exprs?, noCall, noAssign, noFun, l.sexp_expr? run.2.1 made.2.1,
      r.sexp_expr? run.2.2 made.2.2, Expr.ofParts?, operator?_label run.1 (by decide +kernel), Expr.bare]
  | .logical _ op l r, run, made => by
    obtain ⟨noCall, noAssign, noFun, _⟩ := operator_head (.inr (.inr run.1))
    simp [Expr.sexp, Sexp.expr?, Sexp.exprs?, noCall, noAssign, noFun, l.sexp_expr? run.2.1 made.2.1,
      r.sexp_expr? run.2.2 made.2.2, Expr.ofParts?, operator?_none run.1, operator?_label run.1 (by decide +kernel),
      Expr.bare]
  | .assign _ x e, run, made => by
    simp [Expr.sexp, Sexp.expr?, Sexp.name?, e.sexp_expr? run made.2.2, Expr.bare]
  | .call _ f es, run, made => by
    unfold Expr.sexp Sexp.expr?
    rw [if_pos rfl, Sexp.exprs?, f.sexp_expr? run.1 made.2.1, Expr.sexpEach_exprs? es run.2 made.2.2]
    rfl
  | .lambda _ ps body, run, made => by
    simp [Expr.sexp, Sexp.expr?, params?_names made.2.1, body.sexp_block? run made.2.2, Expr.bare]

theorem Expr.sexpEach_exprs? : (es : List Expr) → Expr.RunnableAll es → Expr.MadeAll legible es →
    Sexp.exprs? (Expr.sexpEach es) = some (Expr.bareAll es)
  | [], _, _ => rfl
  | e :: es, run, made => by
    simp [Expr.sexpEach, Sexp.exprs?, e.sexp_expr? run.1 made.1, Expr.sexpEach_exprs? es run.2 made.2, Expr.bareAll]

theorem Stmt.sexp_stmt? : (s : Stmt) → s.Runnable → s.MadeOf legible → s.sexp.stmt? = some s.bare
  | .expr _ e, run, made => by
    simp [Stmt.sexp, Sexp.stmt?, e.sexp_expr? run made.2, Stmt.bare]
  | .print _ e, run, made => by
    simp [Stmt.sexp, Sexp.stmt?, e.sexp_expr? run made.2, Stmt.bare]
  | .declare _ x none, _, _ => by
    simp [Stmt.sexp, Sexp.stmt?, Sexp.name?, Stmt.bare]
  | .declare _ x (some e), run, made => by
    simp [Stmt.sexp, Sexp.stmt?, Sexp.name?, e.sexp_expr? run made.2.2, Stmt.bare]
  | .block (.braces span stmts), run, made => by
    rw [Stmt.sexp, Block.sexp]
    unfold Sexp.stmt?
    rw [if_pos rfl, Stmt.sexpEach_stmts? stmts run made.2]
    rfl
  | .branch _ c yes none, run, made => by
    simp [Stmt.sexp, Sexp.stmt?, c.sexp_expr? run.1 made.2.1, yes.sexp_stmt? run.2 made.2.2, Stmt.bare]
  | .branch _ c yes (some no), run, made => by
    simp [Stmt.sexp, Sexp.stmt?, c.sexp_expr? run.1 made.2.1, yes.sexp_stmt? run.2.1 made.2.2.1,
      no.sexp_stmt? run.2.2 made.2.2.2, Stmt.bare]
  | .loop _ c body, run, made => by
    simp [Stmt.sexp, Sexp.stmt?, c.sexp_expr? run.1 made.2.1, body.sexp_stmt? run.2 made.2.2, Stmt.bare]
  | .function _ f ps body, run, made => by
    simp [Stmt.sexp, Sexp.stmt?, Sexp.name?, params?_names made.2.2.1, body.sexp_block? run made.2.2.2, Stmt.bare]
  | .giveBack _ none, _, _ => by
    simp [Stmt.sexp, Sexp.stmt?, Stmt.bare]
  | .giveBack _ (some e), run, made => by
    simp [Stmt.sexp, Sexp.stmt?, e.sexp_expr? run made.2, Stmt.bare]

theorem Stmt.sexpEach_stmts? : (ss : List Stmt) → Stmt.RunnableAll ss → Stmt.MadeAll legible ss →
    Sexp.stmts? (Stmt.sexpEach ss) = some (Stmt.bareAll ss)
  | [], _, _ => rfl
  | s :: ss, run, made => by
    simp [Stmt.sexpEach, Sexp.stmts?, s.sexp_stmt? run.1 made.1, Stmt.sexpEach_stmts? ss run.2 made.2, Stmt.bareAll]

theorem Block.sexp_block? : (b : Block) → b.Runnable → b.MadeOf legible → b.sexp.block? = some b.bare
  | .braces _ stmts, run, made => by
    simp [Block.sexp, Sexp.block?, Stmt.sexpEach_stmts? stmts run made.2, Block.bare]

end

namespace Sexp.Writes

theorem list (head : Writes h (writtenEach hs)) (parts : Writes ps (writtenEach ss)) (divided : Divided ps) :
    Writes (parenthesized h ps) (written (.list (hs ++ ss))) := by
  rw [parenthesized, List.append_assoc (text "("), written, writtenEach_append]
  exact (head.append parts divided).enclosed

theorem part (inner : Writes s a.written) : Writes (text " " ++ s) (writtenEach [a]) := by
  rw [writtenEach, writtenEach, List.append_nil]
  exact inner.space

theorem behind (front : Writes ps (writtenEach ss)) (inner : Writes s a.written) (divided : Divided s) :
    Writes (ps ++ s) (writtenEach (ss ++ [a])) := by
  rw [writtenEach_append, writtenEach, writtenEach, List.append_nil]
  exact front.append inner divided

theorem also (front : Writes ps (writtenEach ss)) (inner : Writes s a.written) :
    Writes (ps ++ text " " ++ s) (writtenEach (ss ++ [a])) := by
  rw [List.append_assoc]
  exact front.behind inner.space (divided_space s)

theorem single (head : Writes h (writtenEach hs)) (inner : Writes s a.written) :
    Writes (parenthesized h (text " " ++ s)) (written (.list (hs ++ [a]))) :=
  head.list (part inner) (divided_space s)

theorem pair (head : Writes h (writtenEach hs)) (first : Writes s a.written) (second : Writes t b.written) :
    Writes (parenthesized h (text " " ++ s ++ text " " ++ t)) (written (.list (hs ++ [a, b]))) := by
  refine head.list (also (part first) second) ?_
  rw [List.append_assoc, List.append_assoc]
  exact divided_space _

def heads : List String :=
  ["=", ";", "block", "call", "fun", "group", "if", "print", "return", "var", "while"]

theorem head (known : s ∈ heads) : Writes (text s) (writtenEach [.word (text s)]) := by
  have spelling : ∀ s ∈ heads, text s ≠ [] ∧ ∀ b ∈ text s, b ∉ dividers := by decide +kernel
  exact word (spelling s known).1 (spelling s known).2

theorem name (spelt : Lexical.Spells .ident x) : Writes x [.atom (.word x)] := by
  obtain ⟨b, more, rfl, letter, within⟩ := spelt.name.1
  have all : ∀ c ∈ b :: more, Lexical.WordByte c := List.forall_mem_cons.2 ⟨.inl letter, within⟩
  have other : ∀ c ∈ dividers, Scan.isWordByte c = false := by decide +kernel
  refine word (List.cons_ne_nil b more) fun c mem divider => ?_
  exact absurd ((other c divider).symm.trans (Lexical.wordByte_iff.1 (all c mem))) nofun

theorem names (each : ∀ x ∈ xs, Lexical.Spells .ident x) :
    Writes (Bytes.join (text " ") xs) (writtenEach (xs.map .word)) := by
  unfold Bytes.join
  induction xs with
  | nil => exact nil
  | cons x xs ih =>
    obtain ⟨first, others⟩ := List.forall_mem_cons.1 each
    cases xs with
    | nil =>
      rw [List.intercalate_singleton]
      exact name first
    | cons y ys =>
      rw [List.intercalate_cons_cons, List.append_assoc]
      exact (name first).append (ih others).space (divided_space _)

theorem params (made : Params.MadeOf legible ps) :
    Writes (text "(" ++ Bytes.join (text " ") ps.names ++ text ")") (written (.list (ps.names.map .word))) := by
  cases ps with
  | none => exact nil.enclosed
  | some xs => exact (names (made xs rfl).2).enclosed

theorem operator (known : op ∈ unaryOperators ∨ op ∈ binaryOperators ∨ op ∈ logicalOperators) :
    Writes op.label (writtenEach [.word op.label]) := by
  have spelling : ∀ op ∈ unaryOperators ++ (binaryOperators ++ logicalOperators),
      op.label ≠ [] ∧ ∀ b ∈ op.label, b ∉ dividers := by decide +kernel
  obtain ⟨some, inside⟩ := spelling op (by simpa using known)
  exact word some inside

theorem literal (v : Literal) (made : v.Legible) : Writes v.written v.sexp.written := by
  cases v with
  | nil => exact word (by decide +kernel) (by decide +kernel)
  | boolean b =>
    cases b
    · exact word (by decide +kernel) (by decide +kernel)
    · exact word (by decide +kernel) (by decide +kernel)
  | string s => exact quoted s
  | number bits =>
    obtain ⟨r, small, rfl⟩ := made
    show Writes (Double.plain (Double.ofRank r)) [.atom (.word (Double.plain (Double.ofRank r)))]
    rcases Nat.lt_or_eq_of_le small with small | rfl
    · have first := Double.plain_first small
      refine word (fun none => ?_) fun b mem divider => ?_
      · rw [none] at first
        cases first
      · have other : ∀ b ∈ dividers, ¬(Bytes.isDigit b = true ∨ b = byte '.') := by decide +kernel
        exact other b divider (Double.plain_bytes small b mem)
    · rw [Double.plain_infinite]
      exact word (by decide +kernel) (by decide +kernel)

end Sexp.Writes

theorem Expr.renderEach_divided (es : List Expr) : Sexp.Divided (Expr.renderEach es) := by
  cases es with
  | nil => exact fun _ first => nomatch first
  | cons e es =>
    rw [Expr.renderEach, List.append_assoc]
    exact Sexp.divided_space _

theorem Stmt.renderEach_divided (ss : List Stmt) : Sexp.Divided (Stmt.renderEach ss) := by
  cases ss with
  | nil => exact fun _ first => nomatch first
  | cons s ss =>
    rw [Stmt.renderEach, List.append_assoc]
    exact Sexp.divided_space _

section

open Sexp Sexp.Writes

mutual

theorem Expr.writes : (e : Expr) → e.Runnable → e.MadeOf legible → Writes e.render e.sexp.written
  | .literal _ v, _, made => literal v made.2
  | .name _ x, _, made => name made.2
  | .grouping _ e, run, made => (head (by decide)).single (e.writes run made.2)
  | .unary _ op e, run, made => (operator (.inl run.1)).single (e.writes run.2 made.2)
  | .binary _ op l r, run, made =>
    (operator (.inr (.inl run.1))).pair (l.writes run.2.1 made.2.1) (r.writes run.2.2 made.2.2)
  | .logical _ op l r, run, made =>
    (operator (.inr (.inr run.1))).pair (l.writes run.2.1 made.2.1) (r.writes run.2.2 made.2.2)
  | .assign _ x e, run, made => by
    have sign : text "= " = text "=" ++ text " " := by decide +kernel
    rw [Expr.render, sign]
    exact ((head (by decide)).also (name made.2.1)).single (e.writes run made.2.2)
  | .call _ f args, run, made => by
    have parts : Writes (Expr.renderEach (f :: args)) (writtenEach (Expr.sexpEach (f :: args))) :=
      (f.writes run.1 made.2.1).space.append (Expr.writesEach args run.2 made.2.2) (Expr.renderEach_divided args)
    exact (head (by decide)).list parts (Expr.renderEach_divided (f :: args))
  | .lambda _ ps body, run, made => by
    have opening : text "fun (" = text "fun" ++ text " " ++ text "(" := by decide +kernel
    rw [Expr.render, opening, List.append_assoc, List.append_assoc, ← List.append_assoc (text "(")]
    exact ((head (by decide)).also (params made.2.1)).single (body.writes run made.2.2)

theorem Expr.writesEach : (es : List Expr) → Expr.RunnableAll es → Expr.MadeAll legible es →
    Writes (Expr.renderEach es) (writtenEach (Expr.sexpEach es))
  | [], _, _ => nil
  | e :: es, run, made =>
    (e.writes run.1 made.1).space.append (Expr.writesEach es run.2 made.2) (Expr.renderEach_divided es)

theorem Stmt.writes : (s : Stmt) → s.Runnable → s.MadeOf legible → Writes s.render s.sexp.written
  | .expr _ e, run, made | .print _ e, run, made | .giveBack _ (some e), run, made =>
    (head (by decide)).single (e.writes run made.2)
  | .giveBack _ none, _, _ => (head (by decide)).list nil nofun
  | .declare _ x none, _, made => by
    have opening : text "var " = text "var" ++ text " " := by decide +kernel
    rw [Stmt.render, opening]
    exact ((head (by decide)).also (name made.2)).list nil nofun
  | .declare _ x (some e), run, made => by
    have opening : text "var " = text "var" ++ text " " := by decide +kernel
    rw [Stmt.render, opening]
    exact ((head (by decide)).also (name made.2.1)).single (e.writes run made.2.2)
  | .block body, run, made => body.writes run made
  | .branch _ c yes none, run, made =>
    (head (by decide)).pair (c.writes run.1 made.2.1) (yes.writes run.2 made.2.2)
  | .branch _ c yes (some no), run, made => by
    refine (head (by decide)).list (also (also (part (c.writes run.1 made.2.1)) (yes.writes run.2.1 made.2.2.1))
      (no.writes run.2.2 made.2.2.2)) ?_
    simp only [List.append_assoc]
    exact divided_space _
  | .loop _ c body, run, made =>
    (head (by decide)).pair (c.writes run.1 made.2.1) (body.writes run.2 made.2.2)
  | .function _ f ps body, run, made => by
    have opening : text "fun " = text "fun" ++ text " " := by decide +kernel
    rw [Stmt.render, opening, List.append_assoc, List.append_assoc _ (text "("), ← List.append_assoc (text "(")]
    refine (((head (by decide)).also (name made.2.1)).behind (params made.2.2.1) ?_).single
      (body.writes run made.2.2.2)
    rw [List.append_assoc]
    exact divided_opening _

theorem Stmt.writesEach : (ss : List Stmt) → Stmt.RunnableAll ss → Stmt.MadeAll legible ss →
    Writes (Stmt.renderEach ss) (writtenEach (Stmt.sexpEach ss))
  | [], _, _ => nil
  | s :: ss, run, made =>
    (s.writes run.1 made.1).space.append (Stmt.writesEach ss run.2 made.2) (Stmt.renderEach_divided ss)

theorem Block.writes : (b : Block) → b.Runnable → b.MadeOf legible → Writes b.render b.sexp.written
  | .braces _ stmts, run, made =>
    (head (by decide)).list (Stmt.writesEach stmts run made.2) (Stmt.renderEach_divided stmts)

end

end

section

variable {program : List Stmt} (run : Stmt.RunnableAll program) (made : Stmt.MadeAll legible program)
include run made

theorem marks_renderProgram : Sexp.marks (renderProgram program) = Sexp.writtenEach (Stmt.sexpEach program) := by
  unfold renderProgram Bytes.join
  induction program with
  | nil =>
    rw [List.map_nil, List.intercalate_nil, Sexp.marks]
    rfl
  | cons s ss ih =>
    have first := (s.writes run.1 made.1).marks
    have others := ih run.2 made.2
    rw [Stmt.sexpEach, Sexp.writtenEach, ← others]
    cases ss with
    | nil =>
      rw [List.map_cons, List.map_nil, List.intercalate_singleton, List.intercalate_nil]
      have alone := first [] nofun
      rwa [List.append_nil] at alone
    | cons s' ss =>
      have broken (rest : Bytes) : Sexp.marks (Bytes.newline ++ rest) = Sexp.marks rest := by
        rw [Bytes.newline, List.singleton_append, Sexp.marks, if_pos (.inr rfl)]
      have divided (rest : Bytes) : Sexp.Divided (Bytes.newline ++ rest) := by
        intro b isBreak
        cases isBreak
        decide
      rw [List.map_cons, List.map_cons, List.intercalate_cons_cons, List.append_assoc, first _ (divided _), broken]

theorem renderProgram_read : Sexp.stmts? (Sexp.read (renderProgram program)) = some (Stmt.bareAll program) := by
  rw [Sexp.read_of_marks (marks_renderProgram run made)]
  exact Stmt.sexpEach_stmts? program run made

theorem renderProgram_lines (some : program ≠ []) :
    Bytes.lines (renderProgram program) = program.map Stmt.render := by
  have line : ∀ s ∈ program, byte '\n' ∉ s.render := by
    clear some
    induction program with
    | nil => exact List.forall_mem_nil _
    | cons s ss ih => exact List.forall_mem_cons.2 ⟨(s.writes run.1 made.1).line, ih run.2 made.2⟩
  exact Bytes.split_join (by simpa using some) (List.forall_mem_map.2 line)

end

end TinyScript
