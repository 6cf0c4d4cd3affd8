import TinyScript.Proofs.Tree.Written
import TinyScript.Tree.Json

namespace TinyScript

mutual

@[simp] def Json.spanless : Json → Json
  | .null => .null
  | .bool b => .bool b
  | .int n => .int n
  | .number bits => .number bits
  | .string s => .string s
  | .array items => .array (Json.spanlessItems items)
  | .object fields => .object (Json.spanlessFields fields)

@[simp] def Json.spanlessItems : List Json → List Json
  | [] => []
  | j :: js => j.spanless :: Json.spanlessItems js

@[simp] def Json.spanlessFields : List (String × Json) → List (String × Json)
  | [] => []
  | (key, j) :: fields =>
    if key = "span" then Json.spanlessFields fields else (key, j.spanless) :: Json.spanlessFields fields

end

mutual

theorem Expr.render_bare : (e : Expr) → e.bare.render = e.render
  | .literal _ _ | .name _ _ => rfl
  | .grouping _ e | .unary _ _ e | .assign _ _ e => by simp only [Expr.bare, Expr.render, e.render_bare]
  | .binary _ _ l r | .logical _ _ l r => by simp only [Expr.bare, Expr.render, l.render_bare, r.render_bare]
  | .call _ f es => by simp only [Expr.bare, Expr.render, f.render_bare, Expr.renderEach_bare es]
  | .lambda _ _ body => by simp only [Expr.bare, Expr.render, body.render_bare]

theorem Expr.renderEach_bare : (es : List Expr) → Expr.renderEach (Expr.bareAll es) = Expr.renderEach es
  | [] => rfl
  | e :: es => by simp only [Expr.bareAll, Expr.renderEach, e.render_bare, Expr.renderEach_bare es]

theorem Stmt.render_bare : (s : Stmt) → s.bare.render = s.render
  | .expr _ e | .print _ e | .declare _ _ (some e) | .giveBack _ (some e) => by
    simp only [Stmt.bare, Stmt.render, e.render_bare]
  | .declare _ _ none | .giveBack _ none => rfl
  | .block body => by simp only [Stmt.bare, Stmt.render, body.render_bare]
  | .branch _ c yes none => by simp only [Stmt.bare, Stmt.render, c.render_bare, yes.render_bare]
  | .branch _ c yes (some no) => by
    simp only [Stmt.bare, Stmt.render, c.render_bare, yes.render_bare, no.render_bare]
  | .loop _ c body => by simp only [Stmt.bare, Stmt.render, c.render_bare, body.render_bare]
  | .function _ _ _ body => by simp only [Stmt.bare, Stmt.render, body.render_bare]

theorem Stmt.renderEach_bare : (ss : List Stmt) → Stmt.renderEach (Stmt.bareAll ss) = Stmt.renderEach ss
  | [] => rfl
  | s :: ss => by simp only [Stmt.bareAll, Stmt.renderEach, s.render_bare, Stmt.renderEach_bare ss]

theorem Block.render_bare : (b : Block) → b.bare.render = b.render
  | .absent => rfl
  | .braces _ stmts => by simp only [Block.bare, Block.render, Stmt.renderEach_bare stmts]

end

theorem renderProgram_bare (program : List Stmt) : renderProgram (Stmt.bareAll program) = renderProgram program := by
  have each : (Stmt.bareAll program).map Stmt.render = program.map Stmt.render := by
    induction program with
    | nil => rfl
    | cons s ss ih => rw [Stmt.bareAll, List.map_cons, List.map_cons, s.render_bare, ih]
  rw [renderProgram, renderProgram, each]

@[simp] theorem Kind.label_inj {k k' : Kind} : k.label = k'.label ↔ k = k' := by
  refine ⟨fun same => ?_, congrArg label⟩
  have found (k : Kind) : ofName? k.name = some k := by cases k <;> decide +kernel
  have sameName : k.name = k'.name := text_inj.1 same
  exact Option.some.inj (by rw [← found k, ← found k', sameName])

section

variable {v v' : Literal} {ps ps' : Params}

@[simp] theorem Literal.spanless_toJson (v : Literal) : v.toJson.spanless = v.toJson := by
  cases v <;> rfl

@[simp] theorem Literal.toJson_inj : v.toJson = v'.toJson ↔ v = v' := by
  cases v <;> cases v' <;> simp [Literal.toJson]

@[simp] theorem Params.spanless_toJson (ps : Params) : ps.toJson.spanless = ps.toJson := by
  have items (xs : List Bytes) : Json.spanlessItems (xs.map .string) = xs.map .string := by
    induction xs with
    | nil => rfl
    | cons x xs ih => rw [List.map_cons, Json.spanlessItems, ih]; rfl
  cases ps with
  | none => rfl
  | some xs => rw [Params.toJson, Json.spanless, items]

@[simp] theorem Params.toJson_inj : ps.toJson = ps'.toJson ↔ ps = ps' := by
  have injective : Function.Injective Json.string := fun _ _ same => Json.string.inj same
  cases ps <;> cases ps' <;> simp [Params.toJson, List.map_inj_right injective]

end

-- The kind that the object for a node names, where null is for an absent block.
def Json.kind : Json → Bytes
  | .object fields =>
    match fields.lookup "kind" with
    | some (.string kind) => kind
    | _ => []
  | _ => text "BlockStmt"

@[simp] def Expr.kind : Expr → String
  | .literal _ _ => "LiteralExpr"
  | .grouping _ _ => "GroupingExpr"
  | .unary _ _ _ => "UnaryExpr"
  | .binary _ _ _ _ => "BinaryExpr"
  | .logical _ _ _ _ => "LogicalExpr"
  | .name _ _ => "VariableExpr"
  | .assign _ _ _ => "AssignExpr"
  | .call _ _ _ => "CallExpr"
  | .lambda _ _ _ => "FuncExpr"

@[simp] def Stmt.kind : Stmt → String
  | .expr _ _ => "ExprStmt"
  | .print _ _ => "PrintStmt"
  | .declare _ _ _ => "VarStmt"
  | .block _ => "BlockStmt"
  | .branch _ _ _ _ => "IfStmt"
  | .loop _ _ _ => "WhileStmt"
  | .function _ _ _ _ => "FuncStmt"
  | .giveBack _ _ => "ReturnStmt"

theorem Expr.json_kind (e : Expr) : e.toJson.spanless.kind = text e.kind := by
  cases e <;> rfl

theorem Stmt.json_kind : (s : Stmt) → s.toJson.spanless.kind = text s.kind
  | .expr _ _ | .print _ _ | .declare _ _ none | .declare _ _ (some _) | .block .absent | .block (.braces _ _)
  | .branch _ _ _ none | .branch _ _ _ (some _) | .loop _ _ _ | .function _ _ _ _ | .giveBack _ none
  | .giveBack _ (some _) => rfl

theorem Expr.otherKind {e e' : Expr} (other : e.kind ≠ e'.kind) :
    e.toJson.spanless = e'.toJson.spanless ↔ e.bare = e'.bare := by
  have kept (e : Expr) : e.bare.kind = e.kind := by cases e <;> rfl
  refine iff_of_false (fun same => other ?_) (fun same => other ?_)
  · exact text_inj.1 (by rw [← json_kind, same, json_kind])
  · rw [← kept e, same, kept e']

theorem Stmt.otherKind {s s' : Stmt} (other : s.kind ≠ s'.kind) :
    s.toJson.spanless = s'.toJson.spanless ↔ s.bare = s'.bare := by
  have kept (s : Stmt) : s.bare.kind = s.kind := by
    cases s <;> simp [Stmt.bare, Stmt.bare_declare, Stmt.bare_branch, Stmt.bare_giveBack]
  refine iff_of_false (fun same => other ?_) (fun same => other ?_)
  · exact text_inj.1 (by rw [← json_kind, same, json_kind])
  · rw [← kept s, same, kept s']

-- The JSON form without spans is that of the bare tree, and of no other. Which optional parts a node has is said
-- by the fields that are there.
mutual

theorem Expr.json_iff : (e e' : Expr) → (e.toJson.spanless = e'.toJson.spanless ↔ e.bare = e'.bare)
  | .literal _ v, e' => by
    cases e' with
    | literal => simp [Expr.toJson, Expr.bare]
    | _ => exact Expr.otherKind (by simp)
  | .grouping _ e, e' => by
    cases e' with
    | grouping => simp [Expr.toJson, Expr.bare, e.json_iff]
    | _ => exact Expr.otherKind (by simp)
  | .unary _ op e, e' => by
    cases e' with
    | unary => simp [Expr.toJson, Expr.bare, Kind.toJson, e.json_iff]
    | _ => exact Expr.otherKind (by simp)
  | .binary _ op l r, e' => by
    cases e' with
    | binary => simp [Expr.toJson, Expr.bare, Kind.toJson, l.json_iff, r.json_iff, and_left_comm]
    | _ => exact Expr.otherKind (by simp)
  | .logical _ op l r, e' => by
    cases e' with
    | logical => simp [Expr.toJson, Expr.bare, Kind.toJson, l.json_iff, r.json_iff, and_left_comm]
    | _ => exact Expr.otherKind (by simp)
  | .name _ x, e' => by
    cases e' with
    | name => simp [Expr.toJson, Expr.bare]
    | _ => exact Expr.otherKind (by simp)
  | .assign _ x e, e' => by
    cases e' with
    | assign => simp [Expr.toJson, Expr.bare, e.json_iff]
    | _ => exact Expr.otherKind (by simp)
  | .call _ f es, e' => by
    cases e' with
    | call => simp [Expr.toJson, Expr.bare, f.json_iff, Expr.jsonEach_iff es, and_comm]
    | _ => exact Expr.otherKind (by simp)
  | .lambda _ ps body, e' => by
    cases e' with
    | lambda => simp [Expr.toJson, Expr.bare, body.json_iff, and_comm]
    | _ => exact Expr.otherKind (by simp)

theorem Expr.jsonEach_iff : (es es' : List Expr) → (Json.spanlessItems (Expr.toJsonEach es) =
    Json.spanlessItems (Expr.toJsonEach es') ↔ Expr.bareAll es = Expr.bareAll es')
  | [], es' => by cases es' <;> simp [Expr.toJsonEach, Expr.bareAll]
  | e :: es, es' => by cases es' <;> simp [Expr.toJsonEach, Expr.bareAll, e.json_iff, Expr.jsonEach_iff es]

theorem Stmt.json_iff : (s s' : Stmt) → (s.toJson.spanless = s'.toJson.spanless ↔ s.bare = s'.bare)
  | .expr _ e, s' => by
    cases s' with
    | expr => simp [Stmt.toJson, Stmt.bare, e.json_iff]
    | _ => exact Stmt.otherKind (by simp)
  | .print _ e, s' => by
    cases s' with
    | print => simp [Stmt.toJson, Stmt.bare, e.json_iff]
    | _ => exact Stmt.otherKind (by simp)
  | .declare _ x none, s' => by
    cases s' with
    | declare _ _ init => cases init <;> simp [Stmt.toJson, Stmt.bare]
    | _ => exact Stmt.otherKind (by simp)
  | .declare _ x (some e), s' => by
    cases s' with
    | declare _ _ init => cases init <;> simp [Stmt.toJson, Stmt.bare, e.json_iff, and_comm]
    | _ => exact Stmt.otherKind (by simp)
  | .block body, s' => by
    cases s' with
    | block => simp [Stmt.toJson, Stmt.bare, body.json_iff]
    | _ => exact Stmt.otherKind (by simp)
  | .branch _ c yes none, s' => by
    cases s' with
    | branch _ _ _ no => cases no <;> simp [Stmt.toJson, Stmt.bare, c.json_iff, yes.json_iff]
    | _ => exact Stmt.otherKind (by simp)
  | .branch _ c yes (some no), s' => by
    cases s' with
    | branch _ _ _ no' =>
      cases no' <;> simp [Stmt.toJson, Stmt.bare, c.json_iff, yes.json_iff, no.json_iff, and_comm]
    | _ => exact Stmt.otherKind (by simp)
  | .loop _ c body, s' => by
    cases s' with
    | loop => simp [Stmt.toJson, Stmt.bare, c.json_iff, body.json_iff, and_comm]
    | _ => exact Stmt.otherKind (by simp)
  | .function _ f ps body, s' => by
    cases s' with
    | function => simp [Stmt.toJson, Stmt.bare, body.json_iff, and_comm, and_assoc]
    | _ => exact Stmt.otherKind (by simp)
  | .giveBack _ none, s' => by
    cases s' with
    | giveBack _ value => cases value <;> simp [Stmt.toJson, Stmt.bare]
    | _ => exact Stmt.otherKind (by simp)
  | .giveBack _ (some e), s' => by
    cases s' with
    | giveBack _ value => cases value <;> simp [Stmt.toJson, Stmt.bare, e.json_iff]
    | _ => exact Stmt.otherKind (by simp)

theorem Stmt.jsonEach_iff : (ss ss' : List Stmt) → (Json.spanlessItems (Stmt.toJsonEach ss) =
    Json.spanlessItems (Stmt.toJsonEach ss') ↔ Stmt.bareAll ss = Stmt.bareAll ss')
  | [], ss' => by cases ss' <;> simp [Stmt.toJsonEach, Stmt.bareAll]
  | s :: ss, ss' => by cases ss' <;> simp [Stmt.toJsonEach, Stmt.bareAll, s.json_iff, Stmt.jsonEach_iff ss]

theorem Block.json_iff : (b b' : Block) → (b.toJson.spanless = b'.toJson.spanless ↔ b.bare = b'.bare)
  | .absent, b' => by cases b' <;> simp [Block.toJson, Block.bare]
  | .braces _ ss, b' => by cases b' <;> simp [Block.toJson, Block.bare, Stmt.jsonEach_iff ss]

end

theorem programToJson_iff (p q : List Stmt) :
    (programToJson p).spanless = (programToJson q).spanless ↔ Stmt.bareAll p = Stmt.bareAll q := by
  simp [programToJson, Stmt.jsonEach_iff]

theorem forms_describe_same_tree (a b : Bytes) :
    let p := (parse (scan a)).1
    let q := (parse (scan b)).1
    (renderProgram p = renderProgram q ↔ (programToJson p).spanless = (programToJson q).spanless) ∧
    (renderProgram p = renderProgram q ↔ Stmt.bareAll p = Stmt.bareAll q) ∧
    (p ≠ [] → Bytes.lines (renderProgram p) = p.map Stmt.render) := by
  have same : renderProgram (parse (scan a)).1 = renderProgram (parse (scan b)).1 ↔
      Stmt.bareAll (parse (scan a)).1 = Stmt.bareAll (parse (scan b)).1 := by
    constructor
    · intro written
      have first := renderProgram_read (parse_runnable (scan a)) (parse_legible a)
      have second := renderProgram_read (parse_runnable (scan b)) (parse_legible b)
      rw [written, second] at first
      exact (Option.some.inj first).symm
    · intro bare
      rw [← renderProgram_bare, bare, renderProgram_bare]
  exact ⟨same.trans (programToJson_iff _ _).symm, same,
    renderProgram_lines (parse_runnable (scan a)) (parse_legible a)⟩

-- Names that are heads too, and a string with parentheses over two lines.
def headsText : Bytes := text "call(group, -1, \"(call\n group)\");\nvar group = fun (call) \x7b return; \x7d;"

theorem forms_describe_same_tree_heads : (parse (scan headsText)).1 ≠ [] ∧
    Bytes.lines (renderProgram (parse (scan headsText)).1) = (parse (scan headsText)).1.map Stmt.render := by
  have some : (parse (scan headsText)).1 ≠ [] := List.ne_nil_of_length_pos (by decide +kernel)
  exact ⟨some, (forms_describe_same_tree headsText headsText).2.2 some⟩

end TinyScript
