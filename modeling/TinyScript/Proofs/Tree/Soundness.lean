import TinyScript.Proofs.Tree.Grammar
import TinyScript.Proofs.Tree.Stepwise

namespace TinyScript

open Grammar

namespace Parse

theorem bare_forLoop (whole keyword : Span) (first : Option Stmt) (condition step : Option Expr)
    (body : Stmt) : (forLoop whole keyword first condition step body).bare
      = forTree (first.map Stmt.bare) (condition.map Expr.bare) (step.map Expr.bare) body.bare := by
  cases first <;> cases condition <;> cases step <;> rfl

structure Proper (ctx : Context) (tokens : List Token) : Prop where
  ended : ctx.ending.kind = .eof
  legal : ∀ t ∈ tokens, t.kind ≠ .illegal

theorem Proper.suffix (proper : Proper ctx tokens) (later : rest <:+ tokens) : Proper ctx rest :=
  ⟨proper.ended, fun t mem => proper.legal t (later.subset mem)⟩

theorem Proper.cons_of_next (proper : Proper ctx tokens) (sees : nextKind ctx tokens = kind)
    (inner : kind ≠ .eof) : ∃ t ts, tokens = t :: ts ∧ t.kind = kind := by
  cases tokens with
  | nil => exact absurd (sees.symm.trans proper.ended) inner
  | cons t ts => exact ⟨t, ts, rfl, sees⟩

-- Every clean run over these tokens ends with a value and a rest of this sort.
def Yields (r : Reader α) (ctx : Context) (tokens : List Token) (good : α → List Token → Prop) : Prop :=
  ∀ c a next, c.rest = tokens → Proper ctx tokens → r ctx c = .ok a next → next.reported = [] →
    good a next.rest

namespace Yields

variable {ctx : Context} {tokens : List Token} {good : α → List Token → Prop}
  {fine : β → List Token → Prop} {r : Reader α} {f : α → Reader β}

theorem pure {a : α} (holds : good a tokens) : Yields (Pure.pure a) ctx tokens good := by
  intro c b next here _ ran _
  cases ran
  rw [here]
  exact holds

theorem bind [Stepwise @Forward r] [∀ a, Stepwise @Forward (f a)] (first : Yields r ctx tokens good)
    (second : ∀ a rest, good a rest → Yields (f a) ctx rest fine) : Yields (r >>= f) ctx tokens fine := by
  intro c b last here proper ran clean
  obtain ⟨a, next, ran₁, ran₂⟩ := Reader.of_bind_ok ran
  have moved : next.Ahead c := Stepwise.forward.ok ran₁
  have grown : last.Ahead next := Stepwise.forward.ok ran₂
  have cleanBefore : next.reported = [] := List.prefix_nil.1 (clean ▸ grown.2)
  have read := first c a next here proper ran₁ cleanBefore
  exact second a next.rest read next b last rfl (proper.suffix (here ▸ moved.1)) ran₂ clean

theorem weaken (known : Yields r ctx tokens good) {also : α → List Token → Prop}
    (implies : ∀ a rest, good a rest → also a rest) : Yields r ctx tokens also :=
  fun c a next here proper ran clean => implies a next.rest (known c a next here proper ran clean)

theorem peekKind {f : Kind → Reader β} (rest : Yields (f (nextKind ctx tokens)) ctx tokens fine) :
    Yields (peekKind >>= f) ctx tokens fine := by
  intro c b next here proper ran clean
  refine rest c b next here proper ?_ clean
  rw [nextKind, ← here]
  exact ran

theorem peek {f : Token → Reader β} (rest : Yields (f (tokens.headD ctx.ending)) ctx tokens fine) :
    Yields (peek >>= f) ctx tokens fine := by
  intro c b next here proper ran clean
  refine rest c b next here proper ?_ clean
  rw [← here]
  exact ran

theorem advance {f : Token → Reader β} (sees : nextKind ctx tokens = kind) (inner : kind ≠ .eof)
    (rest : ∀ t ts, tokens = t :: ts → t.kind = kind → Yields (f t) ctx ts fine) :
    Yields (advance >>= f) ctx tokens fine := by
  intro c b last here proper ran clean
  obtain ⟨t, ts, rfl, isKind⟩ := proper.cons_of_next sees inner
  refine rest t ts rfl isKind ⟨ts, some t, c.reported⟩ b last rfl
    (proper.suffix (List.suffix_cons t ts)) ?_ clean
  rw [← ran]
  obtain ⟨_, _, _⟩ := c
  cases here
  rfl

theorem failHere (fault : Fault) : Yields (@failHere α fault) ctx tokens good := by
  intro c a next _ _ ran
  cases ran

theorem expect {f : Token → Reader β} (inner : kind ≠ .eof)
    (rest : ∀ t ts, tokens = t :: ts → t.kind = kind → Yields (f t) ctx ts fine) :
    Yields (expect kind place >>= f) ctx tokens fine := by
  rw [expect_eq, Reader.bind_assoc]
  refine peekKind ?_
  rw [Reader.ite_bind]
  split
  · next sees => exact advance sees inner rest
  · intro c a next _ _ ran
    cases ran

theorem lastStop {f : Position → Reader β} (rest : ∀ p, Yields (f p) ctx tokens fine) :
    Yields (lastStop >>= f) ctx tokens fine :=
  fun c b next here proper ran clean => rest _ c b next here proper ran clean

theorem inFunction {f : Bool → Reader β} (rest : Yields (f ctx.inFunction) ctx tokens fine) :
    Yields (inFunction >>= f) ctx tokens fine := rest

theorem map (g : α → β) (inner : Yields r ctx tokens fun a => fine (g a)) :
    Yields (g <$> r) ctx tokens fine := by
  intro c b next here proper ran clean
  obtain ⟨a, mid, ran₁, ran₂⟩ := Reader.of_bind_ok ran
  cases ran₂
  exact inner c a next here proper ran₁ clean

theorem unlessNext {good : Option α → List Token → Prop}
    (absent : nextKind ctx tokens = kind → good none tokens)
    (present : nextKind ctx tokens ≠ kind → Yields r ctx tokens fun a => good (some a)) :
    Yields (unlessNext kind r) ctx tokens good := by
  refine peekKind ?_
  split
  · next sees => exact pure (absent sees)
  · next sees => exact map some (present sees)

theorem behind {good : Option α → List Token → Prop} (inner : kind ≠ .eof)
    (absent : nextKind ctx tokens ≠ kind → good none tokens)
    (present : ∀ t ts, tokens = t :: ts → t.kind = kind → Yields r ctx ts fun a => good (some a)) :
    Yields (behind kind r) ctx tokens good := by
  rw [behind_eq]
  refine peekKind ?_
  split
  · next sees => exact advance sees inner fun t ts here isKind => map some (present t ts here isKind)
  · next sees => exact pure (absent sees)

-- A run that reports is not clean, whatever follows.
theorem of_report [∀ a, Stepwise @Forward (f a)] (reports : ∀ c, ∃ a d, r ctx c = .ok a (c.report d)) :
    Yields (r >>= f) ctx tokens fine := by
  intro c b last _ _ ran clean
  obtain ⟨a, d, read⟩ := reports c
  rw [Reader.bind_ok read] at ran
  have grown : last.Ahead (c.report d) := Stepwise.forward.ok ran
  exact absurd (List.prefix_nil.1 (clean ▸ grown.2)) (by simp [Cursor.report])

theorem countAgainst {f : Unit → Reader β} [∀ a, Stepwise @Forward (f a)]
    (rest : count < maxArguments → Yields (f ()) ctx tokens fine) :
    Yields (countAgainst count fault >>= f) ctx tokens fine := by
  unfold Parse.countAgainst
  split
  · exact of_report fun c => ⟨(), _, rfl⟩
  · next few => exact rest (Nat.lt_of_not_le few)

-- A failed declaration is reported, because no fault stands at an illegal token.
theorem recovering [Stepwise @Forward r] {good : Option α → List Token → Prop}
    (inner : Yields r ctx tokens fun a => good (some a)) : Yields (recovering r) ctx tokens good := by
  intro c a next here proper ran clean
  have legal : ∀ t ∈ c.rest, t.kind ≠ .illegal := here ▸ proper.legal
  obtain ⟨b, rfl, read⟩ := recovering_clean Stepwise.forward proper.ended legal ran clean
  exact inner c b next here proper read clean

theorem within (bracket : Bracket) (same : (bracket.enter ctx).ending = ctx.ending)
    (inner : Yields r (bracket.enter ctx) tokens good) : Yields (within bracket r) ctx tokens good :=
  fun c a next here proper ran clean =>
    inner c a next here ⟨same ▸ proper.ended, proper.legal⟩ ran clean

theorem openReturn (sees : nextKind ctx tokens = .kwReturn) :
    Yields openReturn ctx tokens fun t ts =>
      tokens = t :: ts ∧ t.kind = .kwReturn ∧ ctx.inFunction = true := by
  refine advance sees (by decide) fun t ts here isKind => inFunction ?_
  cases inside : ctx.inFunction with
  | false => exact of_report fun c => ⟨(), _, rfl⟩
  | true => exact pure ⟨here, isKind, rfl⟩

end Yields

def rank : Precedence → Nat
  | .disjunction => 0
  | .conjunction => 1
  | .equality => 2
  | .comparison => 3
  | .term => 4
  | .factor => 5

def tierOf (p : Precedence) : Tier := tiers.getD (rank p) ⟨[], false⟩

theorem tiers_drop (p : Precedence) : tiers.drop (rank p) = tierOf p :: tiers.drop (rank p + 1) := by
  cases p <;> rfl

theorem mem_tierOf (p : Precedence) (kind : Kind) :
    (tierOf p).ops.contains kind = true ↔ precedence? kind = some p := by
  cases p <;> cases kind <;> decide

theorem bare_combine (p : Precedence) (kind : Kind) (left right : Expr) :
    ((tierOf p).combine kind left right).bare = p.join kind left.bare right.bare := by
  cases p <;> rfl

theorem precedence?_ne_eof (found : precedence? kind = some p) : kind ≠ .eof := by
  rintro rfl
  cases found

def Phrase (sym : Symbol α) (tokens : List Token) (a : α) (rest : List Token) : Prop :=
  ∃ w, tokens = w ++ rest ∧ Derives sym w a

section

variable {ctx : Context} {operand : Reader Expr} [Stepwise @Forward operand]

-- What was read before a chain is the word of its left operand, so the phrase grows from `whole`.
theorem chain_yields (p : Precedence)
    (inner : ∀ tokens, Yields operand ctx tokens fun e => Phrase p.operand tokens e.bare) (bound : Nat)
    (left : Expr) (whole tokens : List Token) (read : Phrase (.operation p) whole left.bare tokens) :
    Yields (chain (tierOf p) operand bound left) ctx tokens fun e =>
      Phrase (.operation p) whole e.bare := by
  induction bound generalizing left tokens with
  | zero => exact .pure read
  | succ bound ih =>
    refine .peekKind ?_
    split
    · next joins =>
      have found := (mem_tierOf p _).1 joins
      refine .advance rfl (precedence?_ne_eof found) fun t ts here isKind => ?_
      refine .bind (inner ts) fun right rest ⟨v, split, derived⟩ => ih _ rest ?_
      obtain ⟨w, rfl, before⟩ := read
      rw [← isKind] at found ⊢
      rw [bare_combine]
      exact ⟨w ++ t :: v, by simp [here, split], .joined p before found derived⟩
    · exact .pure read

theorem rung_yields (bound : Nat) (p : Precedence)
    (tighter : ∀ tokens, Yields (ladder bound operand (tiers.drop (rank p + 1))) ctx tokens fun e =>
      Phrase p.operand tokens e.bare) (tokens : List Token) :
    Yields (ladder bound operand (tiers.drop (rank p))) ctx tokens fun e =>
      Phrase (.operation p) tokens e.bare := by
  rw [tiers_drop]
  refine .bind (tighter tokens) fun left rest ⟨w, split, derived⟩ => ?_
  exact chain_yields p tighter bound left tokens rest ⟨w, split, .single p derived⟩

theorem ladder_yields (bound : Nat)
    (inner : ∀ tokens, Yields operand ctx tokens fun e => Phrase .unary tokens e.bare)
    (tokens : List Token) : Yields (ladder bound operand tiers) ctx tokens fun e =>
      Phrase (.operation .disjunction) tokens e.bare := by
  have factors := rung_yields bound .factor inner
  have terms := rung_yields bound .term factors
  have comparisons := rung_yields bound .comparison terms
  have equalities := rung_yields bound .equality comparisons
  exact rung_yields bound .disjunction (rung_yields bound .conjunction equalities) tokens

theorem unary_yields (inner : ∀ tokens, Yields operand ctx tokens fun e => Phrase .call tokens e.bare)
    (bound : Nat) (tokens : List Token) :
    Yields (unary operand bound) ctx tokens fun e => Phrase .unary tokens e.bare := by
  have plain (tokens : List Token) : Yields operand ctx tokens fun e => Phrase .unary tokens e.bare :=
    (inner tokens).weaken fun _ _ ⟨w, split, derived⟩ => ⟨w, split, .operand derived⟩
  induction bound generalizing tokens with
  | zero => exact plain tokens
  | succ bound ih =>
    refine .peek ?_
    split
    · next signed =>
      refine .advance rfl (fun atEnd => ?_) fun t ts here isKind => ?_
      · unfold nextKind at atEnd
        rw [atEnd] at signed
        simp at signed
      · subst here
        refine .bind (ih ts) fun e rest ⟨w, split, derived⟩ => .pure ?_
        exact ⟨t :: w, by simp [split], .signed signed derived⟩
    · exact plain tokens

theorem arguments_yields
    (inner : ∀ tokens, Yields operand ctx tokens fun e => Phrase .expression tokens e.bare)
    (bound count : Nat) (tokens : List Token) :
    Yields (arguments operand bound count) ctx tokens fun es rest =>
      Phrase .arguments tokens (Expr.bareAll es) rest ∧ count + es.length ≤ most := by
  induction bound generalizing count tokens with
  | zero =>
    rw [arguments_zero]
    refine .countAgainst fun few => .bind (inner tokens) fun e rest ⟨w, split, derived⟩ => .pure ?_
    exact ⟨⟨w, split, .argument derived⟩, few⟩
  | succ bound ih =>
    rw [arguments_succ]
    refine .countAgainst fun few => .bind (inner tokens) fun e rest ⟨w, split, derived⟩ => ?_
    have more : Yields (behind .comma (arguments operand bound (count + 1))) ctx rest fun es last =>
        Phrase .arguments tokens (Expr.bareAll (e :: es.getD [])) last ∧
          count + (e :: es.getD []).length ≤ most := by
      refine .behind (by decide) (fun _ => ⟨⟨w, split, .argument derived⟩, few⟩) ?_
      intro t ts here isComma
      refine (ih (count + 1) ts).weaken fun es last ⟨⟨v, tail, more⟩, short⟩ => ?_
      refine ⟨⟨w ++ t :: v, by simp [split, here, tail], .argumentMore derived isComma more⟩, ?_⟩
      rw [Option.getD_some, List.length_cons]
      omega
    exact .bind more fun es last read => .pure read

theorem callArguments_yields
    (inner : ∀ tokens, Yields operand ctx tokens fun e => Phrase .expression tokens e.bare)
    (size : Nat) (tokens : List Token) :
    Yields (unlessNext .rightParen (arguments operand size 0)) ctx tokens fun es rest =>
      (es = none ∧ rest = tokens) ∨
        ∃ es', es = some es' ∧ Phrase .arguments tokens (Expr.bareAll es') rest ∧
          (Expr.bareAll es').length ≤ most := by
  refine .unlessNext (fun _ => .inl ⟨rfl, rfl⟩) fun _ => ?_
  refine (arguments_yields inner size 0 tokens).weaken fun es rest ⟨read, short⟩ => ?_
  refine .inr ⟨es, rfl, read, ?_⟩
  rw [Expr.bareAll_eq_map, List.length_map]
  omega

theorem calls_yields
    (inner : ∀ tokens, Yields operand ctx tokens fun e => Phrase .expression tokens e.bare)
    (size bound : Nat) (callee : Expr) (whole tokens : List Token)
    (read : Phrase .call whole callee.bare tokens) :
    Yields (calls operand size bound callee) ctx tokens fun e => Phrase .call whole e.bare := by
  induction bound generalizing callee tokens with
  | zero => exact .pure read
  | succ bound ih =>
    rw [calls_succ]
    refine .peekKind ?_
    split
    · next sees =>
      refine .advance sees (by decide) fun t ts here isOpen => ?_
      obtain ⟨w, rfl, before⟩ := read
      refine .bind (callArguments_yields inner size ts) fun es rest read => ?_
      refine .expect (by decide) fun u us ends isClose => ih _ us ?_
      rcases read with ⟨rfl, rfl⟩ | ⟨es, rfl, ⟨v, split, derived⟩, short⟩
      · exact ⟨w ++ [t, u], by simp [here, ends], .callEmpty before isOpen isClose⟩
      · refine ⟨w ++ t :: v ++ [u], by simp [here, split, ends], ?_⟩
        exact .callWith before isOpen derived short isClose
    · exact .pure read

end

theorem parameters_yields (ctx : Context) (bound count : Nat) (tokens : List Token) :
    Yields (parameters bound count) ctx tokens fun params rest =>
      Phrase .parameters tokens params rest ∧ count + params.length ≤ most := by
  induction bound generalizing count tokens with
  | zero =>
    rw [parameters_zero]
    refine .countAgainst fun few => .expect (by decide) fun t ts here isName => .pure ?_
    exact ⟨⟨[t], here, .parameter isName⟩, few⟩
  | succ bound ih =>
    rw [parameters_succ]
    refine .countAgainst fun few => .expect (by decide) fun t ts here isName => ?_
    have more : Yields (behind .comma (parameters bound (count + 1))) ctx ts fun params rest =>
        Phrase .parameters tokens (t.lexeme :: params.getD []) rest ∧
          count + (t.lexeme :: params.getD []).length ≤ most := by
      refine .behind (by decide) (fun _ => ⟨⟨[t], here, .parameter isName⟩, few⟩) ?_
      intro u us next isComma
      refine (ih (count + 1) us).weaken fun params rest ⟨⟨w, split, derived⟩, short⟩ => ?_
      refine ⟨⟨t :: u :: w, by simp [here, next, split], .parameterMore isName isComma derived⟩, ?_⟩
      rw [Option.getD_some, List.length_cons]
      omega
    exact .bind more fun params rest read => .pure read

theorem functionParameters_yields (ctx : Context) (size : Nat) (tokens : List Token) :
    Yields (unlessNext .rightParen (parameters size 0)) ctx tokens fun ps rest =>
      (ps = none ∧ rest = tokens) ∨
        ∃ names, ps = some names ∧ Phrase .parameters tokens names rest ∧ names.length ≤ most := by
  refine .unlessNext (fun _ => .inl ⟨rfl, rfl⟩) fun _ => ?_
  refine (parameters_yields ctx size 0 tokens).weaken fun names rest ⟨read, short⟩ => ?_
  exact .inr ⟨names, rfl, read, by omega⟩

-- A statement in front of the rest, which does not begin with an `else` that the statement could take.
def StatementPhrase (ctx : Context) (tokens : List Token) (s : Stmt) (rest : List Token) : Prop :=
  ∃ dangling, Phrase (.statement ctx.inFunction dangling) tokens s rest ∧
    (dangling = true → nextKind ctx rest ≠ .kwElse)

structure Nested.Sound (nested : Nested) : Prop where
  expression (ctx : Context) (tokens : List Token) :
    Yields nested.expression ctx tokens fun e => Phrase .expression tokens e.bare
  statement (ctx : Context) (tokens : List Token) :
    Yields nested.statement ctx tokens fun s => StatementPhrase ctx tokens s.bare
  declaration (ctx : Context) (tokens : List Token) :
    Yields nested.declaration ctx tokens fun s rest =>
      ∃ stmt, s = some stmt ∧ Phrase (.declaration ctx.inFunction) tokens stmt.bare rest

-- Declarations stop where they should, if the bound lets them: each of them reads a token.
def Stops (ctx : Context) (braced : Bool) (rest : List Token) : Prop :=
  nextKind ctx rest = .eof ∨ (braced = true ∧ nextKind ctx rest = .rightBrace)

section

variable {nested : Nested} [nested.Stepwise @Forward] (inner : nested.Sound) (ctx : Context)
  (size : Nat)

include inner

theorem declarations_yields (braced : Bool) (bound : Nat) (tokens : List Token) :
    Yields (declarations nested.declaration braced bound) ctx tokens fun ss rest =>
      Phrase (.declarations ctx.inFunction) tokens (Stmt.bareAll ss) rest ∧
        (tokens.length ≤ bound → Stops ctx braced rest) := by
  induction bound generalizing tokens with
  | zero =>
    intro c a next here proper ran _
    cases ran
    refine ⟨⟨[], here.symm, .noDeclarations⟩, fun short => .inl ?_⟩
    rw [here, List.length_eq_zero_iff.1 (Nat.le_zero.1 short)]
    exact proper.ended
  | succ bound ih =>
    refine .peekKind ?_
    split
    · next stops => exact .pure ⟨⟨[], rfl, .noDeclarations⟩, fun _ => stops⟩
    · refine .bind (inner.declaration ctx tokens) fun s rest ⟨stmt, isSome, w, split, derived⟩ => ?_
      refine .bind (ih rest) fun ss last ⟨⟨v, tail, more⟩, stops⟩ => .pure ⟨⟨w ++ v, ?_, ?_⟩, ?_⟩
      · simp [split, tail]
      · rw [isSome]
        exact .declarations derived more
      · intro enough
        obtain ⟨t, ts, rfl, _⟩ := derived.begins
        refine stops ?_
        rw [split, List.cons_append, List.length_cons, List.length_append] at enough
        omega

theorem block_yields (tokens : List Token) : Yields (block size nested) ctx tokens fun b =>
    Phrase (.block ctx.inFunction) tokens b.bare := by
  refine .expect (by decide) fun t ts here isOpen => ?_
  refine .bind (.within _ rfl (declarations_yields inner _ true size ts)) ?_
  intro ss rest ⟨⟨w, split, derived⟩, _⟩
  refine .expect (by decide) fun u us ends isClose => .lastStop fun _ => .pure ?_
  exact ⟨t :: w ++ [u], by simp [here, split, ends], .block isOpen derived isClose⟩

theorem functionRest_yields (afterName beforeBody : Place) (tokens : List Token) :
    Yields (functionRest size nested afterName beforeBody) ctx tokens fun f =>
      Phrase .function tokens (f.1, f.2.bare) := by
  rw [functionRest_eq]
  refine .expect (by decide) fun t ts here isOpen => ?_
  refine .bind (functionParameters_yields ctx size ts) fun ps rest read => ?_
  refine .expect (by decide) fun u us ends isClose => .peekKind ?_
  split
  · refine .bind (.within _ rfl (block_yields inner _ size us)) fun body last ⟨w, split, derived⟩ => ?_
    refine .pure ?_
    rcases read with ⟨rfl, rfl⟩ | ⟨names, rfl, ⟨v, tail, names⟩, short⟩
    · exact ⟨t :: u :: w, by simp [here, ends, split], .thunk isOpen isClose derived⟩
    · refine ⟨t :: v ++ u :: w, by simp [here, tail, ends, split], ?_⟩
      exact .function isOpen names short isClose derived
  · exact .failHere _

theorem primary_yields (tokens : List Token) : Yields (primary size nested) ctx tokens fun e =>
    Phrase .primary tokens e.bare := by
  have leaf (make : Token → Expr) (kind : Kind) (inner : kind ≠ .eof) (sees : nextKind ctx tokens = kind)
      (rule : ∀ t, t.kind = kind → Derives .primary [t] (make t).bare) :
      Yields (leaf make) ctx tokens fun e => Phrase .primary tokens e.bare :=
    .advance sees inner fun t ts here isKind => .pure ⟨[t], here, rule t isKind⟩
  rw [primary_eq]
  refine .peekKind ?_
  generalize sees : nextKind ctx tokens = kind
  cases kind with
  | kwFalse => exact leaf _ _ (by decide) sees fun t isKind => .no isKind
  | kwTrue => exact leaf _ _ (by decide) sees fun t isKind => .yes isKind
  | kwNil => exact leaf _ _ (by decide) sees fun t isKind => .nil isKind
  | number => exact leaf _ _ (by decide) sees fun t isKind => .number isKind
  | string => exact leaf _ _ (by decide) sees fun t isKind => .string isKind
  | ident => exact leaf _ _ (by decide) sees fun t isKind => .name isKind
  | leftParen =>
    refine .advance sees (by decide) fun t ts here isOpen => ?_
    refine .bind (inner.expression ctx ts) fun e rest ⟨w, split, derived⟩ => ?_
    refine .expect (by decide) fun u us ends isClose => .lastStop fun _ => .pure ?_
    exact ⟨t :: w ++ [u], by simp [here, split, ends], .grouping isOpen derived isClose⟩
  | kwFun =>
    refine .advance sees (by decide) fun t ts here isFun => ?_
    refine .bind (functionRest_yields inner ctx size _ _ ts) fun f rest ⟨w, split, derived⟩ => ?_
    refine .lastStop fun _ => .pure ?_
    exact ⟨t :: w, by simp [here, split], .lambda isFun derived⟩
  | _ => exact .failHere _

theorem call_yields (tokens : List Token) : Yields (call size nested) ctx tokens fun e =>
    Phrase .call tokens e.bare := by
  refine .bind (primary_yields inner ctx size tokens) fun callee rest ⟨w, split, derived⟩ => ?_
  exact calls_yields (inner.expression ctx) size size callee tokens rest ⟨w, split, .callee derived⟩

theorem assignTail_yields (left : Expr) (whole tokens : List Token)
    (read : Phrase (.operation .disjunction) whole left.bare tokens) :
    Yields (assignTail nested.expression left) ctx tokens fun e => Phrase .expression whole e.bare := by
  obtain ⟨w, rfl, derived⟩ := read
  refine .peek ?_
  split
  · next sees =>
    refine .advance sees (by decide) fun t ts here isEqual => ?_
    cases left with
    | name span x =>
      obtain ⟨n, rfl, isName, rfl⟩ := derived.namesAlone x rfl
      refine .bind (inner.expression ctx ts) fun value rest ⟨v, split, assigned⟩ => .pure ?_
      exact ⟨n :: t :: v, by simp [here, split], .assignment isName isEqual assigned⟩
    | _ => exact .bind (inner.expression ctx ts) fun _ _ _ => .of_report fun c => ⟨(), _, rfl⟩
  · exact .pure ⟨w, rfl, .value derived⟩

theorem expression_yields (tokens : List Token) : Yields (expression size nested) ctx tokens fun e =>
    Phrase .expression tokens e.bare := by
  have operands := unary_yields (call_yields inner ctx size) size
  rw [expression_eq]
  refine .bind (ladder_yields size operands tokens) fun left rest read => ?_
  exact assignTail_yields inner ctx left tokens rest read

omit [nested.Stepwise @Forward] in
theorem clause_yields (kind : Kind) (tokens : List Token) :
    Yields (unlessNext kind nested.expression) ctx tokens fun e =>
      Phrase .clause tokens (e.map Expr.bare) := by
  refine .unlessNext (fun _ => ⟨[], rfl, .noClause⟩) fun _ => ?_
  exact (inner.expression ctx tokens).weaken fun e rest ⟨w, split, derived⟩ => ⟨w, split, .clause derived⟩

omit [nested.Stepwise @Forward] in
theorem initialValue_yields (tokens : List Token) :
    Yields (behind .equal nested.expression) ctx tokens fun e rest =>
      (e = none ∧ rest = tokens) ∨ ∃ u us value, e = some value ∧ tokens = u :: us ∧ u.kind = .equal ∧
        Phrase .expression us value.bare rest := by
  refine .behind (by decide) (fun _ => .inl ⟨rfl, rfl⟩) fun u us set isEqual => ?_
  refine (inner.expression ctx us).weaken fun e rest read => ?_
  exact .inr ⟨u, us, e, rfl, set, isEqual, read⟩

theorem variableDeclaration_yields (tokens : List Token) (sees : nextKind ctx tokens = .kwVar) :
    Yields (variableDeclaration nested) ctx tokens fun s =>
      Phrase .variableDeclaration tokens s.bare := by
  rw [variableDeclaration_eq]
  refine .advance sees (by decide) fun t ts here isVar => .expect (by decide) fun x xs named isName => ?_
  refine .bind (initialValue_yields inner ctx xs) fun e rest read => ?_
  refine .expect (by decide) fun m ms ends isEnd => .lastStop fun _ => .pure ?_
  rw [Stmt.bare_declare]
  rcases read with ⟨rfl, rfl⟩ | ⟨u, us, value, rfl, set, isEqual, w, split, derived⟩
  · exact ⟨[t, x, m], by simp [here, named, ends], .unset isVar isName isEnd⟩
  · refine ⟨t :: x :: u :: w ++ [m], by simp [here, named, set, split, ends], ?_⟩
    exact .set isVar isName isEqual derived isEnd

omit [nested.Stepwise @Forward] inner in
theorem expressionStatement_yields {operand : Reader Expr} [Stepwise @Forward operand] (tokens : List Token)
    (inner : Yields operand ctx tokens fun e => Phrase .expression tokens e.bare) :
    Yields (expressionStatement operand) ctx tokens fun s =>
      Phrase .expressionStatement tokens s.bare := by
  refine .bind inner fun e rest ⟨w, split, derived⟩ => ?_
  refine .expect (by decide) fun u us ends isEnd => .lastStop fun _ => .pure ?_
  exact ⟨w ++ [u], by simp [split, ends], .expressionStatement derived isEnd⟩

theorem functionDeclaration_yields (tokens : List Token) (sees : nextKind ctx tokens = .kwFun)
    (named : secondKind tokens = .ident) :
    Yields (functionDeclaration size nested) ctx tokens fun s =>
      Phrase (.declaration ctx.inFunction) tokens s.bare := by
  refine .advance sees (by decide) fun t ts here isFun => ?_
  subst here
  have seesName : nextKind ctx ts = .ident := by
    cases ts with
    | nil => cases named
    | cons x xs => exact named
  refine .advance seesName (by decide) fun x xs next isName => ?_
  refine .bind (functionRest_yields inner ctx size _ _ xs) fun f rest ⟨w, split, derived⟩ => ?_
  refine .lastStop fun _ => .pure ?_
  exact ⟨t :: x :: w, by simp [next, split], .functionDeclaration isFun isName derived⟩

theorem branchStatement_yields (tokens : List Token) (sees : nextKind ctx tokens = .kwIf) :
    Yields (branchStatement nested) ctx tokens fun s => StatementPhrase ctx tokens s.bare := by
  rw [branchStatement_eq]
  refine .advance sees (by decide) fun t ts here isIf => .expect (by decide) fun l ls opens isOpen => ?_
  refine .bind (inner.expression ctx ls) fun e es ⟨w, split, condition⟩ => ?_
  refine .expect (by decide) fun r rs closes isClose => ?_
  refine .bind (inner.statement ctx rs) fun yes us ⟨dangling, ⟨v, tail, taken⟩, free⟩ => ?_
  have other : Yields (behind .kwElse nested.statement) ctx us fun no rest =>
      (no = none ∧ rest = us ∧ nextKind ctx us ≠ .kwElse) ∨
        ∃ u zs stmt, no = some stmt ∧ us = u :: zs ∧ u.kind = .kwElse ∧
          StatementPhrase ctx zs stmt.bare rest := by
    refine .behind (by decide) (fun absent => .inl ⟨rfl, rfl, absent⟩) fun u zs next isElse => ?_
    refine (inner.statement ctx zs).weaken fun stmt rest read => ?_
    exact .inr ⟨u, zs, stmt, rfl, next, isElse, read⟩
  refine .bind other fun no rest read => .lastStop fun _ => .pure ?_
  rw [Stmt.bare_branch]
  rcases read with ⟨rfl, rfl, absent⟩ | ⟨u, zs, stmt, rfl, next, isElse, deep, ⟨z, last, refused⟩, free'⟩
  · refine ⟨true, ⟨t :: l :: w ++ r :: v, by simp [here, opens, split, closes, tail], ?_⟩, fun _ => absent⟩
    exact .branch isIf isOpen condition isClose taken
  · -- the statement in front of an `else` did not take it, so it could not
    have closed : dangling = false := by
      cases dangling with
      | false => rfl
      | true => exact absurd (next ▸ isElse : nextKind ctx us = .kwElse) (free rfl)
    subst closed
    refine ⟨deep, ⟨t :: l :: w ++ r :: v ++ u :: z, ?_, ?_⟩, free'⟩
    · simp [here, opens, split, closes, tail, next, last]
    · exact .branchElse isIf isOpen condition isClose taken isElse refused

theorem whileStatement_yields (tokens : List Token) (sees : nextKind ctx tokens = .kwWhile) :
    Yields (whileStatement nested) ctx tokens fun s => StatementPhrase ctx tokens s.bare := by
  refine .advance sees (by decide) fun t ts here isWhile => .expect (by decide) fun l ls opens isOpen => ?_
  refine .bind (inner.expression ctx ls) fun e es ⟨w, split, condition⟩ => ?_
  refine .expect (by decide) fun r rs closes isClose => ?_
  refine .bind (inner.statement ctx rs) fun body us ⟨dangling, ⟨v, tail, derived⟩, free⟩ => ?_
  refine .lastStop fun _ => .pure ⟨dangling, ⟨t :: l :: w ++ r :: v, ?_, ?_⟩, free⟩
  · simp [here, opens, split, closes, tail]
  · exact .loop isWhile isOpen condition isClose derived

theorem forFirst_yields (tokens : List Token) :
    Yields (forFirst nested) ctx tokens fun s => Phrase .initial tokens (s.map Stmt.bare) := by
  refine .peekKind ?_
  split
  · next sees =>
    refine .advance sees (by decide) fun t ts here isEnd => .pure ?_
    exact ⟨[t], here, .noInitial isEnd⟩
  split
  · next sees =>
    refine .map some ((variableDeclaration_yields inner ctx tokens sees).weaken fun s rest read => ?_)
    obtain ⟨w, split, derived⟩ := read
    exact ⟨w, split, .initialVariable derived⟩
  · have read := expressionStatement_yields ctx tokens (inner.expression ctx tokens)
    refine .map some (read.weaken fun s rest ⟨w, split, derived⟩ => ?_)
    exact ⟨w, split, .initialExpression derived⟩

theorem forStatement_yields (tokens : List Token) (sees : nextKind ctx tokens = .kwFor) :
    Yields (forStatement nested) ctx tokens fun s => StatementPhrase ctx tokens s.bare := by
  rw [forStatement_eq]
  refine .advance sees (by decide) fun t ts here isFor => .expect (by decide) fun l ls opens isOpen => ?_
  refine .bind (forFirst_yields inner ctx ls) fun first as ⟨w₁, split₁, initial⟩ => ?_
  refine .bind (clause_yields inner ctx .semicolon as) fun condition bs ⟨w₂, split₂, test⟩ => ?_
  refine .expect (by decide) fun m ms ends isEnd => ?_
  refine .bind (clause_yields inner ctx .rightParen ms) fun step cs ⟨w₃, split₃, count⟩ => ?_
  refine .expect (by decide) fun r rs closes isClose => ?_
  refine .bind (inner.statement ctx rs) fun body us ⟨dangling, ⟨v, tail, derived⟩, free⟩ => ?_
  refine .lastStop fun _ => .pure ⟨dangling, ⟨t :: l :: w₁ ++ w₂ ++ m :: w₃ ++ r :: v, ?_, ?_⟩, free⟩
  · simp [here, opens, split₁, split₂, ends, split₃, closes, tail]
  · rw [bare_forLoop]
    exact .counted isFor isOpen initial test isEnd count isClose derived

theorem printStatement_yields (tokens : List Token) (sees : nextKind ctx tokens = .kwPrint) :
    Yields (printStatement nested) ctx tokens fun s => StatementPhrase ctx tokens s.bare := by
  refine .advance sees (by decide) fun t ts here isPrint => ?_
  refine .bind (inner.expression ctx ts) fun e es ⟨w, split, derived⟩ => ?_
  refine .expect (by decide) fun u us ends isEnd => .lastStop fun _ => .pure ?_
  refine ⟨false, ⟨t :: w ++ [u], by simp [here, split, ends], ?_⟩, nofun⟩
  exact .print isPrint derived isEnd

theorem returnStatement_yields (tokens : List Token) (sees : nextKind ctx tokens = .kwReturn) :
    Yields (returnStatement nested) ctx tokens fun s => StatementPhrase ctx tokens s.bare := by
  rw [returnStatement_eq]
  refine .bind (.openReturn sees) fun t ts ⟨here, isReturn, inside⟩ => ?_
  refine .bind (clause_yields inner ctx .semicolon ts) fun e es ⟨w, split, derived⟩ => ?_
  refine .expect (by decide) fun u us ends isEnd => .lastStop fun _ => .pure ?_
  rw [Stmt.bare_giveBack]
  refine ⟨false, ⟨t :: w ++ [u], by simp [here, split, ends], ?_⟩, nofun⟩
  rw [inside]
  exact .giveBack isReturn derived isEnd

theorem statement_yields (tokens : List Token) :
    Yields (statement size nested) ctx tokens fun s => StatementPhrase ctx tokens s.bare := by
  rw [statement_eq]
  refine .peekKind ?_
  unfold statementBy
  split
  · next sees => exact forStatement_yields inner ctx tokens sees
  · next sees => exact branchStatement_yields inner ctx tokens sees
  · next sees => exact printStatement_yields inner ctx tokens sees
  · next sees => exact returnStatement_yields inner ctx tokens sees
  · next sees => exact whileStatement_yields inner ctx tokens sees
  · refine .map Stmt.block ((block_yields inner ctx size tokens).weaken fun b rest read => ?_)
    obtain ⟨w, split, derived⟩ := read
    exact ⟨false, ⟨w, split, .braces derived⟩, fun isTrue => absurd isTrue Bool.false_ne_true⟩
  · have read := expressionStatement_yields ctx tokens (expression_yields inner ctx size tokens)
    refine read.weaken fun s rest read => ?_
    obtain ⟨w, split, derived⟩ := read
    exact ⟨false, ⟨w, split, .simple derived⟩, fun isTrue => absurd isTrue Bool.false_ne_true⟩

theorem declaration_yields (tokens : List Token) :
    Yields (declaration size nested) ctx tokens fun s =>
      Phrase (.declaration ctx.inFunction) tokens s.bare := by
  have plain : Yields (statement size nested) ctx tokens fun s =>
      Phrase (.declaration ctx.inFunction) tokens s.bare :=
    (statement_yields inner ctx size tokens).weaken fun s rest ⟨dangling, ⟨w, split, derived⟩, _⟩ =>
      ⟨w, split, .statement derived⟩
  intro c s next here proper ran clean
  rw [declaration_eq] at ran
  subst here
  generalize sees : nextKind ctx c.rest = kind at ran
  cases kind with
  | kwFun =>
    generalize named : secondKind c.rest = second at ran
    cases second with
    | ident => exact functionDeclaration_yields inner ctx size c.rest sees named c s next rfl proper ran clean
    | _ => exact plain c s next rfl proper ran clean
  | kwVar =>
    obtain ⟨w, split, derived⟩ := variableDeclaration_yields inner ctx c.rest sees c s next rfl proper ran clean
    exact ⟨w, split, .variableDeclaration derived⟩
  | kwClass => cases ran
  | _ => exact plain c s next rfl proper ran clean

end

theorem level_sound (n : Nat) : (level n).Sound := by
  induction n with
  | zero =>
    refine ⟨fun ctx tokens => .failHere _, fun ctx tokens => .failHere _, fun ctx tokens => ?_⟩
    exact .recovering (.failHere .noExpression)
  | succ n ih =>
    have made : Stepwise @Forward (declaration (n + 1) (level n)) := .given (.declaration (n + 1))
    refine ⟨fun ctx => expression_yields ih ctx (n + 1), fun ctx => statement_yields ih ctx (n + 1), ?_⟩
    intro ctx tokens
    refine .recovering ((declaration_yields ih ctx (n + 1) tokens).weaken fun s rest read => ?_)
    exact ⟨s, rfl, read⟩

end Parse

end TinyScript
