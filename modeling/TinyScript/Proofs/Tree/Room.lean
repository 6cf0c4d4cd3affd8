import TinyScript.Proofs.Tree.Truncation

namespace TinyScript.Parse

def Roomy (ds : List Diagnostic) : Prop := ∀ d ∈ ds, EndFault d → d.code ≠ Code.tooMany

theorem Roomy.report (roomy : Roomy ds) (other : Fault.code fault ≠ Code.tooMany) :
    Roomy (ds ++ [fault.diagnostic t]) :=
  List.forall_mem_append.2 ⟨roomy, List.forall_mem_singleton.2 fun _ => other⟩

theorem Roomy.report_inside (roomy : Roomy ds) (inside : t.kind ≠ .eof) (fault : Fault) :
    Roomy (ds ++ [fault.diagnostic t]) :=
  List.forall_mem_append.2 ⟨roomy, List.forall_mem_singleton.2 fun atEnd => absurd atEnd.kind inside⟩

def Reply.Roomy : Reply α → Prop
  | .ok _ next => Parse.Roomy next.reported
  | .fail _ fault next => fault.code ≠ Code.tooMany ∧ Parse.Roomy next.reported

theorem bind_roomy {r : Reader α} {f : α → Reader β} (first : (r ctx c).Roomy)
    (second : ∀ a next, r ctx c = .ok a next → Roomy next.reported → (f a ctx next).Roomy) :
    ((r >>= f) ctx c).Roomy := by
  cases read : r ctx c with
  | ok a next =>
    rw [read] at first
    rw [Reader.bind_ok read]
    exact second a next read first
  | fail t fault next =>
    rw [read] at first
    rw [Reader.bind_fail read]
    exact first

-- Tokens behind which no element of a list is missing.
structure NoneMissing (tokens : List Token) : Prop where
  inner : ∀ t ∈ tokens, t.kind ≠ .eof
  last : ∀ t, tokens.getLast? = some t → t.kind ≠ .comma

theorem NoneMissing.nil : NoneMissing [] := by
  refine ⟨List.forall_mem_nil _, fun t isLast => ?_⟩
  cases isLast

theorem NoneMissing.suffix (complete : NoneMissing tokens) (later : rest <:+ tokens) : NoneMissing rest := by
  refine ⟨fun t mem => complete.inner t (later.subset mem), fun t isLast => complete.last t ?_⟩
  obtain ⟨before, rfl⟩ := later
  rw [List.getLast?_append, isLast]
  rfl

-- No list is too long at the end of a beginning of what is read without a report, nor where no element
-- is missing behind the next token.
structure SparesBeginnings (r : Reader α) : Prop where
  cut : Cut r
  beginning : ∀ {ctx ctx' c c' missing a next}, ctx.Alike ctx' → c.InStep missing c' →
    r ctx c = .ok a next → next.reported = [] → (r ctx' c').Roomy
  inside : ∀ {ctx c}, ctx.ending.kind = .eof → NoneMissing c.rest → c.rest ≠ [] → Roomy c.reported →
    (r ctx c).Roomy

class Spares (r : Reader α) : Prop extends SparesBeginnings r where
  atEnd : ctx.ending.kind = .eof → c.rest = [] → Roomy c.reported → (r ctx c).Roomy

namespace Spares

theorem anywhere {r : Reader α} [spares : Spares r] (ended : ctx.ending.kind = .eof)
    (complete : NoneMissing c.rest) (roomy : Roomy c.reported) : (r ctx c).Roomy := by
  by_cases empty : c.rest = []
  · exact spares.atEnd ended empty roomy
  · exact spares.inside ended complete empty roomy

theorem of_anywhere {r : Reader α} (cut : Cut r)
    (beginning : ∀ {ctx ctx' c c' missing a next}, ctx.Alike ctx' → c.InStep missing c' →
      r ctx c = .ok a next → next.reported = [] → (r ctx' c').Roomy)
    (anywhere : ∀ {ctx c}, ctx.ending.kind = .eof → NoneMissing c.rest → Roomy c.reported →
      (r ctx c).Roomy) : Spares r where
  cut := cut
  beginning := beginning
  inside ended complete _ roomy := anywhere ended complete roomy
  atEnd ended empty roomy := anywhere ended (empty ▸ .nil) roomy

theorem of_quiet {r : Reader α} [Stepwise @Cut r] (quiet : ∀ ctx c, Roomy c.reported → (r ctx c).Roomy) :
    Spares r := by
  refine of_anywhere Stepwise.cuts (fun _ inStep _ _ => quiet _ _ ?_) fun _ _ roomy => quiet _ _ roomy
  rw [inStep.clean]
  exact List.forall_mem_nil _

instance pure (a : α) : Spares (Pure.pure a) := of_quiet fun _ _ roomy => roomy

instance peek : Spares peek := of_quiet fun _ _ roomy => roomy

instance peekKind : Spares peekKind := of_quiet fun _ _ roomy => roomy

instance lastStop : Spares lastStop := of_quiet fun _ _ roomy => roomy

instance advance : Spares advance :=
  of_quiet fun _ c roomy => (congrArg Roomy c.advance_reported).mpr roomy

theorem failHere (other : fault.code ≠ Code.tooMany) : Spares (@failHere α fault) :=
  of_quiet fun _ _ roomy => ⟨other, roomy⟩

instance expected (kind : Kind) (place : Place) : Spares (@Parse.failHere α (.expected kind place)) :=
  failHere (show Code.expectedToken ≠ Code.tooMany by decide)

instance noExpression : Spares (@Parse.failHere α .noExpression) := failHere (by decide)

instance classes : Spares (@Parse.failHere α .classes) := failHere (by decide)

instance openReturn : Spares openReturn := by
  refine of_quiet fun ctx c roomy => ?_
  rw [← c.advance_reported] at roomy
  rw [openReturn_eq]
  show Roomy (if ctx.inFunction then _ else _ : Cursor).reported
  split
  · exact roomy
  · exact roomy.report (by decide)

theorem bind {r : Reader α} {f : α → Reader β} (spares : Spares r) (rest : ∀ a, Spares (f a)) :
    Spares (r >>= f) := by
  refine of_anywhere (spares.cut.bind fun a => (rest a).cut)
    (fun {ctx ctx' c c' missing b last} alike inStep ran clean => ?_)
    fun {ctx c} ended complete roomy => ?_
  · obtain ⟨a, mid, ran₁, ran₂⟩ := Reader.of_bind_ok ran
    have grown : last.Ahead mid := (rest a).cut.forward.ok ran₂
    have cleanBefore : mid.reported = [] := List.prefix_nil.1 (clean ▸ grown.2)
    have first := spares.beginning alike inStep ran₁ cleanBefore
    rcases spares.cut.cut alike inStep ran₁ cleanBefore with ⟨mid', read, inStep'⟩ | atEnd
    · rw [Reader.bind_ok read]
      exact (rest a).beginning alike inStep' ran₂ clean
    · refine bind_roomy first fun a' mid' read roomy => ?_
      rw [read] at atEnd
      exact (rest a').atEnd alike.ended' atEnd.empty roomy
  · refine bind_roomy (spares.anywhere ended complete roomy) fun a next read roomy => ?_
    exact (rest a).anywhere ended (complete.suffix (spares.cut.forward.ok read).1) roomy

section

variable {r s : Reader α} [spares : Spares r]

instance sequence {f : α → Reader β} [rest : ∀ a, Spares (f a)] : Spares (r >>= f) := spares.bind rest

instance map (g : α → β) : Spares (g <$> r) :=
  inferInstanceAs (Spares (r >>= fun a => Pure.pure (g a)))

instance ite (p : Prop) [Decidable p] [Spares s] : Spares (if p then r else s) := by
  split <;> infer_instance

theorem within (bracket : Bracket) (same : ∀ ctx, (bracket.enter ctx).ending = ctx.ending)
    (paired : ∀ ctx ctx', ctx.Alike ctx' → (bracket.enter ctx).Alike (bracket.enter ctx')) : Spares (within bracket r) :=
  of_anywhere (spares.cut.within bracket same paired)
    (fun alike inStep ran clean => spares.beginning (paired _ _ alike) inStep ran clean)
    fun {ctx _} ended complete roomy => spares.anywhere (same ctx ▸ ended) complete roomy

instance braced : Spares (Parse.within .braces r) :=
  within _ (fun _ => rfl) fun _ _ alike => alike.inBraces

instance body : Spares (Parse.within .body r) :=
  within _ (fun _ => rfl) fun _ _ alike => alike.inBody

omit spares in
theorem recovering_roomy {ctx : Context} {c : Cursor} (roomy : (r ctx c).Roomy) :
    (recovering r ctx c).Roomy := by
  cases read : r ctx c with
  | ok a next =>
    rw [read] at roomy
    rw [recovering_ok read]
    exact roomy
  | fail t fault failed =>
    rw [read] at roomy
    obtain ⟨next, eq, _, reports, _⟩ := recovering_fail read
    rw [eq]
    show Roomy next.reported
    rw [reports, noted]
    split
    · exact roomy.2
    · exact roomy.2.report roomy.1

instance recovering : Spares (recovering r) := by
  refine of_anywhere spares.cut.recovering (fun alike inStep ran clean => ?_)
    fun ended complete roomy => recovering_roomy (spares.anywhere ended complete roomy)
  obtain ⟨b, rfl, whole⟩ := recovering_clean spares.cut.forward alike.ended inStep.legal ran clean
  exact recovering_roomy (spares.beginning alike inStep whole clean)

instance expect (kind : Kind) (place : Place) : Spares (expect kind place) := by
  rw [expect_eq]; infer_instance

instance unlessNext (kind : Kind) : Spares (unlessNext kind r) := by
  unfold Parse.unlessNext; infer_instance

instance leaf (make : Token → α) : Spares (leaf make) := by
  unfold Parse.leaf; infer_instance

end

-- A reader that finds no token is at the end, so only a cursor in front of a token is of interest.
theorem of_token {r : Reader α} (cut : Cut r)
    (anywhere : ∀ ctx c, ctx.ending.kind = .eof → NoneMissing c.rest → Roomy c.reported → (r ctx c).Roomy)
    (beginning : ∀ ctx ctx' c c' missing a next t ts, ctx.Alike ctx' → c.InStep missing c' →
      c'.rest = t :: ts → r ctx c = .ok a next → next.reported = [] → (r ctx' c').Roomy) : Spares r := by
  refine of_anywhere cut (fun {ctx ctx' c c' missing a next} alike inStep ran clean => ?_) (anywhere _ _)
  cases found : c'.rest with
  | nil =>
    refine anywhere ctx' c' alike.ended' (found ▸ .nil) ?_
    rw [inStep.clean]
    exact List.forall_mem_nil _
  | cons t ts => exact beginning ctx ctx' c c' missing a next t ts alike inStep found ran clean

theorem behindThen {r : Reader α} (inner : SparesBeginnings r)
    (further : ∀ {ctx : Context} {c : Cursor}, ctx.ending.kind = .eof → nextKind ctx c.rest = kind →
      NoneMissing c.rest → Roomy c.advance.reported → (r ctx c.advance).Roomy) : Spares (behind kind r) := by
  have made : Stepwise @Cut r := .given inner.cut
  refine of_token Stepwise.cuts (fun ctx c ended complete roomy => ?_) ?_
  · by_cases sees : nextKind ctx c.rest = kind
    · rw [behind_taken sees]
      rw [← c.advance_reported] at roomy
      exact bind_roomy (further ended sees complete roomy) fun _ _ _ roomy => roomy
    · rw [behind_passed sees]
      exact roomy
  · intro ctx ctx' c c' missing a next t ts alike inStep found ran clean
    have same : nextKind ctx' c'.rest = nextKind ctx c.rest :=
      congrArg Token.kind (inStep.next found ctx ctx').symm
    by_cases sees : nextKind ctx c.rest = kind
    · rw [behind_taken sees] at ran
      rw [behind_taken (same.trans sees)]
      obtain ⟨b, mid, read, rest⟩ := Reader.of_bind_ok ran
      cases rest
      refine bind_roomy ?_ fun _ _ _ roomy => roomy
      exact inner.beginning alike (inStep.advance found) read clean
    · rw [behind_passed (same ▸ sees)]
      rw [Reply.Roomy, inStep.clean]
      exact List.forall_mem_nil _

instance behindToken {r : Reader α} [spares : Spares r] (kind : Kind) : Spares (behind kind r) :=
  behindThen spares.toSparesBeginnings fun {_ c} ended _ complete roomy =>
    spares.anywhere ended (complete.suffix (Cursor.Ahead.advance c).1) roomy

theorem behindComma {r : Reader α} (inner : SparesBeginnings r) : Spares (behind .comma r) := by
  refine behindThen inner fun {ctx c} ended sees complete roomy => ?_
  refine inner.inside ended (complete.suffix (Cursor.Ahead.advance c).1) (fun empty => ?_) roomy
  obtain ⟨rest, last, reported⟩ := c
  rcases rest with _ | ⟨t, _ | ⟨u, us⟩⟩
  · exact absurd (sees.symm.trans ended) (by decide)
  · exact complete.last t rfl sees
  · cases empty

-- A list without room is reported in the whole run as well, and at the token that is next.
theorem countAgainst {r : Reader α} [spares : Spares r] (count : Nat) (fault : Fault) :
    SparesBeginnings (countAgainst count fault >>= fun _ => r) where
  cut := Cut.bind Stepwise.cuts fun _ => spares.cut
  beginning {ctx ctx' c c' missing a next} alike inStep ran clean := by
    rw [countAgainst_bind] at ran ⊢
    split at ran
    · obtain ⟨_, mid, reports, rest⟩ := Reader.of_bind_ok ran
      cases reports
      have grown : next.Ahead (c.report _) := spares.cut.forward.ok rest
      exact absurd (List.prefix_nil.1 (clean ▸ grown.2)) (by simp [Cursor.report])
    · next few =>
      rw [if_neg few]
      exact spares.beginning alike inStep ran clean
  inside {ctx c} ended complete some roomy := by
    rw [countAgainst_bind]
    split
    · obtain ⟨t, ts, found⟩ := List.exists_cons_of_ne_nil some
      have isInner : (c.rest.headD ctx.ending).kind ≠ .eof := by
        rw [found]
        exact complete.inner t (found ▸ List.mem_cons_self)
      exact spares.anywhere (c := c.report _) ended complete (roomy.report_inside isInner fault)
    · exact spares.anywhere ended complete roomy

theorem countNone {r : Reader α} [spares : Spares r] (fault : Fault) :
    Spares (Parse.countAgainst 0 fault >>= fun _ => r) := spares

section

variable {operand : Reader Expr} [inner : Spares operand]

instance chain (tier : Tier) (bound : Nat) (left : Expr) : Spares (chain tier operand bound left) := by
  induction bound generalizing left with
  | zero => exact pure left
  | succ bound ih => unfold Parse.chain; infer_instance

instance ladder (bound : Nat) (tiers : List Tier) : Spares (ladder bound operand tiers) := by
  induction tiers with
  | nil => assumption
  | cons tier tighter ih => unfold Parse.ladder; infer_instance

instance unary (bound : Nat) : Spares (unary operand bound) := by
  induction bound with
  | zero => assumption
  | succ bound ih => unfold Parse.unary; infer_instance

theorem argumentsFrom (bound count : Nat) : SparesBeginnings (arguments operand bound count) := by
  induction bound generalizing count with
  | zero => rw [arguments_zero]; apply countAgainst
  | succ bound ih =>
    have more : Spares (behind .comma (arguments operand bound (count + 1))) := behindComma (ih _)
    rw [arguments_succ]
    apply countAgainst

instance arguments (bound : Nat) : Spares (arguments operand bound 0) := by
  cases bound with
  | zero => rw [arguments_zero]; apply countNone
  | succ bound =>
    have more : Spares (behind .comma (Parse.arguments operand bound 1)) :=
      behindComma (argumentsFrom bound 1)
    rw [arguments_succ]
    apply countNone

instance calls (size bound : Nat) (callee : Expr) : Spares (calls operand size bound callee) := by
  induction bound generalizing callee with
  | zero => exact pure callee
  | succ bound ih => rw [calls_succ]; infer_instance

instance expressionStatement : Spares (expressionStatement operand) := by
  unfold Parse.expressionStatement; infer_instance

omit inner in
theorem parametersFrom (bound count : Nat) : SparesBeginnings (parameters bound count) := by
  induction bound generalizing count with
  | zero => rw [parameters_zero]; apply countAgainst
  | succ bound ih =>
    have more : Spares (behind .comma (parameters bound (count + 1))) := behindComma (ih _)
    rw [parameters_succ]
    apply countAgainst

omit inner in
instance parameters (bound : Nat) : Spares (parameters bound 0) := by
  cases bound with
  | zero => rw [parameters_zero]; apply countNone
  | succ bound =>
    have more : Spares (behind .comma (Parse.parameters bound 1)) :=
      behindComma (parametersFrom bound 1)
    rw [parameters_succ]
    apply countNone

omit inner in
instance declarations {declaration : Reader (Option Stmt)} [Spares declaration]
    (braced : Bool) (bound : Nat) : Spares (declarations declaration braced bound) := by
  induction bound with
  | zero => exact pure []
  | succ bound ih => unfold Parse.declarations; infer_instance

instance assignTail (left : Expr) : Spares (assignTail operand left) := by
  refine of_token (.assignTail left inner.cut) (fun ctx c ended complete roomy => ?_) ?_
  · by_cases signed : nextKind ctx c.rest = .equal
    · cases left with
      | name span x =>
        rw [assignTail_name span x signed]
        exact anywhere ended complete roomy
      | _ =>
        rw [assignTail_other signed (by intro _ _ eq; cases eq), ← Reader.bind_assoc]
        refine bind_roomy (anywhere ended complete roomy) fun _ _ _ roomy => ?_
        exact roomy.report (by decide)
    · rw [assignTail_value left signed]
      exact roomy
  · intro ctx ctx' c c' missing a next t ts alike inStep found ran clean
    have same : nextKind ctx' c'.rest = nextKind ctx c.rest :=
      congrArg Token.kind (inStep.next found ctx ctx').symm
    by_cases signed : nextKind ctx c.rest = .equal
    · cases left with
      | name span x =>
        have assigned : Spares (Parse.advance >>= fun _ => operand >>= fun v =>
            Pure.pure (Expr.assign (span.upTo v.span) x v)) := inferInstance
        rw [assignTail_name span x signed] at ran
        rw [assignTail_name span x (same.trans signed)]
        exact assigned.beginning alike inStep ran clean
      | _ => exact absurd clean (assignTail_reports signed (by intro _ _ eq; cases eq) ran)
    · rw [assignTail_value left (same ▸ signed), Reply.Roomy, inStep.clean]
      exact List.forall_mem_nil _

end

end Spares

class Nested.Spares (nested : Nested) : Prop where
  expression : Parse.Spares nested.expression
  statement : Parse.Spares nested.statement
  declaration : Parse.Spares nested.declaration

attribute [instance] Nested.Spares.expression Nested.Spares.statement Nested.Spares.declaration

namespace Spares

section

variable (size : Nat) {nested : Nested} [nested.Spares]

instance block : Spares (block size nested) := by
  unfold Parse.block; infer_instance

instance functionRest (afterName beforeBody : Place) :
    Spares (functionRest size nested afterName beforeBody) := by
  rw [functionRest_eq]; infer_instance

instance primaryBy (first : Kind) : Spares (primaryBy size nested first) := by
  unfold Parse.primaryBy
  split <;> infer_instance

instance primary : Spares (primary size nested) := by
  rw [primary_eq]; infer_instance

instance call : Spares (call size nested) := by
  unfold Parse.call; infer_instance

instance expression : Spares (expression size nested) := by
  rw [expression_eq]; infer_instance

instance variableDeclaration : Spares (variableDeclaration nested) := by
  rw [variableDeclaration_eq]; infer_instance

instance functionDeclaration : Spares (functionDeclaration size nested) := by
  unfold Parse.functionDeclaration; infer_instance

instance forFirst : Spares (forFirst nested) := by
  unfold Parse.forFirst; infer_instance

instance statementBy (first : Kind) : Spares (statementBy size nested first) := by
  unfold Parse.statementBy
  split
  · rw [forStatement_eq]
    exact .bind inferInstance fun _ => .bind inferInstance fun _ => inferInstance
  · rw [branchStatement_eq]
    infer_instance
  · unfold Parse.printStatement
    infer_instance
  · rw [returnStatement_eq]
    infer_instance
  · unfold Parse.whileStatement
    infer_instance
  all_goals infer_instance

instance statement : Spares (statement size nested) := by
  rw [statement_eq]; infer_instance

instance declarationBy (first second : Kind) : Spares (declarationBy size nested first second) := by
  unfold Parse.declarationBy
  split <;> infer_instance

-- The second token is missing from the beginning of a list only if the first one ends it.
theorem declaration [nested.Stepwise @Cut] [nested.Stepwise @Forward] :
    Spares (declaration (size + 1) nested) := by
  refine of_token .declaration (fun ctx c ended complete roomy => ?_) ?_
  · rw [declaration_eq]
    exact (declarationBy (size + 1) _ _).anywhere ended complete roomy
  · intro ctx ctx' c c' missing a next t ts alike inStep found ran clean
    have first : nextKind ctx' c'.rest = nextKind ctx c.rest :=
      congrArg Token.kind (inStep.next found ctx ctx').symm
    by_cases alone : nextKind ctx c.rest = .kwFun ∧ ts = []
    · obtain ⟨isFun, rfl⟩ := alone
      have isFun : t.kind = .kwFun := by
        rw [← first, found] at isFun
        exact isFun
      rw [function_cut alike.ended' found isFun]
      exact ⟨by decide, by rw [inStep.clean]; exact List.forall_mem_nil _⟩
    · have second (isFun : nextKind ctx c.rest = .kwFun) : secondKind c'.rest = secondKind c.rest := by
        cases ts with
        | nil => exact absurd ⟨isFun, rfl⟩ alone
        | cons u us => rw [inStep.rest, found]; rfl
      rw [declaration_eq] at ran ⊢
      rw [first, declarationBy_second second]
      exact (declarationBy (size + 1) _ _).beginning alike inStep ran clean

end

end Spares

instance level_spares (n : Nat) : (level n).Spares := by
  induction n with
  | zero =>
    have missing (α : Type) : Spares (@failHere α .noExpression) := .noExpression
    have skipped : Spares (recovering (@failHere Stmt .noExpression)) := inferInstance
    exact ⟨missing Expr, missing Stmt, skipped⟩
  | succ n ih =>
    have next : Spares (declaration (n + 1) (level n)) := .declaration n
    exact ⟨.expression _, .statement _, .recovering⟩

theorem parse_roomy (ended : ending.kind = .eof) (complete : NoneMissing body) :
    Roomy (parse (body ++ [ending])).2 := by
  obtain ⟨stmts, c, ran, eq⟩ := parse_body ended complete.inner
  have roomy : (declarations (level body.length).declaration false body.length ⟨ending, 0, 0⟩
      ⟨body, none, []⟩).Roomy := Spares.anywhere ended complete (List.forall_mem_nil _)
  rw [ran] at roomy
  rw [eq]
  exact roomy

theorem parse_beginning_roomy (ended : ending.kind = .eof) (ended' : ending'.kind = .eof)
    (inner : ∀ t ∈ start ++ missing, t.kind ≠ .eof) (legal : ∀ t ∈ start ++ missing, t.kind ≠ .illegal)
    (clean : (parse (start ++ missing ++ [ending])).2 = []) : Roomy (parse (start ++ [ending'])).2 := by
  obtain ⟨n, stmts, stmts', c, c', ran, ran', whole, short⟩ := parse_level ended ended' inner
  have spares : Spares (declarations (level n).declaration false n) := inferInstance
  have inStep : Cursor.InStep missing ⟨start ++ missing, none, []⟩ ⟨start, none, []⟩ := ⟨rfl, rfl, rfl, legal⟩
  have alike : Context.Alike ⟨ending, 0, 0⟩ ⟨ending', 0, 0⟩ := ⟨ended, ended', rfl, rfl⟩
  have roomy := spares.beginning alike inStep ran (whole ▸ clean)
  rw [ran'] at roomy
  rw [short]
  exact roomy

end TinyScript.Parse
