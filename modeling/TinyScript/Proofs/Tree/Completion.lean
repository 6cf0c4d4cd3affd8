import TinyScript.Proofs.Tree.Targets
import TinyScript.Proofs.Tree.Truncation

namespace TinyScript

open Grammar

namespace Parse

structure Mends (d : Diagnostic) : Prop extends EndFault d where
  roomy : d.code ≠ Code.tooMany

instance (d : Diagnostic) : Decidable (Mends d) :=
  decidable_of_iff ((d.severity = .error ∧ d.stage = Stage.parsing ∧ Report.atEnd <:+ d.message) ∧
      d.code ≠ Code.tooMany)
    ⟨fun ⟨⟨severity, stage, message⟩, roomy⟩ => ⟨⟨severity, stage, message⟩, roomy⟩,
      fun mends => ⟨⟨mends.severity, mends.stage, mends.message⟩, mends.roomy⟩⟩

def Reply.CutOff : Reply α → Prop
  | .ok _ next => next.reported ≠ [] ∧ ∀ d ∈ next.reported, Mends d
  | .fail t _ next => t.kind = .eof ∧ ∀ d ∈ next.reported, Mends d

structure Viable (ctx : Context) (tokens : List Token) : Prop extends Proper ctx tokens where
  inner : ∀ t ∈ tokens, t.kind ≠ .eof
  fits : ∃ lead, (follow lead tokens).isSome = true

theorem Viable.suffix (viable : Viable ctx tokens) (later : rest <:+ tokens) : Viable ctx rest := by
  refine ⟨viable.toProper.suffix later, fun t mem => viable.inner t (later.subset mem), ?_⟩
  obtain ⟨before, rfl⟩ := later
  obtain ⟨lead, fits⟩ := viable.fits
  rw [follow_append] at fits
  cases read : follow lead before with
  | none => rw [read] at fits; cases fits
  | some next => rw [read] at fits; exact ⟨next, fits⟩

theorem Viable.nil_of_next (viable : Viable ctx tokens) (atEnd : nextKind ctx tokens = .eof) : tokens = [] := by
  cases tokens with
  | nil => rfl
  | cons t ts => exact absurd atEnd (viable.inner t List.mem_cons_self)

def Ends (r : Reader α) (ctx : Context) (tokens : List Token) (known : Prop) : Prop :=
  ∀ c, c.rest = tokens → Viable ctx tokens → c.reported = [] → (r ctx c).CutOff → known

namespace Ends

variable {ctx : Context} {tokens : List Token} {known : Prop} {good : α → List Token → Prop}
  {r : Reader α} {f : α → Reader β}

theorem pure (a : α) : Ends (Pure.pure a) ctx tokens known :=
  fun _ _ _ clean cut => absurd clean cut.1

theorem weaken {weaker : Prop} (ends : Ends r ctx tokens known) (implies : known → weaker) :
    Ends r ctx tokens weaker :=
  fun c here viable clean cut => implies (ends c here viable clean cut)

-- A run is cut off in its first part, or in its second part behind what the first one has read.
theorem bind [Stepwise @Forward r] [∀ a, Stepwise @Forward (f a)] (yields : Yields r ctx tokens good)
    (first : Ends r ctx tokens known) (second : ∀ a rest, good a rest → Ends (f a) ctx rest known) :
    Ends (r >>= f) ctx tokens known := by
  intro c here viable clean cut
  cases read : r ctx c with
  | fail t fault next =>
    rw [Reader.bind_fail read] at cut
    exact first c here viable clean (read ▸ cut)
  | ok a next =>
    rw [Reader.bind_ok read] at cut
    by_cases cleanBefore : next.reported = []
    · have moved : next.Ahead c := Stepwise.forward.ok read
      have later := yields c a next here viable.toProper read cleanBefore
      exact second a next.rest later next rfl (viable.suffix (here ▸ moved.1)) cleanBefore cut
    · refine first c here viable clean (read ▸ ⟨cleanBefore, ?_⟩)
      cases after : f a ctx next with
      | ok b last =>
        rw [after] at cut
        have grown : last.Ahead next := Stepwise.forward.ok after
        exact fun d mem => cut.2 d (grown.2.subset mem)
      | fail t fault last =>
        rw [after] at cut
        have grown : last.Ahead next := (Stepwise.forward.fail after).1
        exact fun d mem => cut.2 d (grown.2.subset mem)

theorem peekKind {f : Kind → Reader β} (rest : Ends (f (nextKind ctx tokens)) ctx tokens known) :
    Ends (peekKind >>= f) ctx tokens known := by
  intro c here viable clean cut
  refine rest c here viable clean ?_
  rw [nextKind, ← here]
  exact cut

theorem peek {f : Token → Reader β} (rest : Ends (f (tokens.headD ctx.ending)) ctx tokens known) :
    Ends (peek >>= f) ctx tokens known := by
  intro c here viable clean cut
  refine rest c here viable clean ?_
  rw [← here]
  exact cut

theorem advance {f : Token → Reader β} (sees : nextKind ctx tokens = kind) (inner : kind ≠ .eof)
    (rest : ∀ t ts, tokens = t :: ts → t.kind = kind → Ends (f t) ctx ts known) :
    Ends (advance >>= f) ctx tokens known := by
  intro c here viable clean cut
  obtain ⟨t, ts, rfl, isKind⟩ := viable.cons_of_next sees inner
  refine rest t ts rfl isKind ⟨ts, some t, c.reported⟩ rfl (viable.suffix (List.suffix_cons t ts)) clean ?_
  obtain ⟨_, _, _⟩ := c
  cases here
  exact cut

theorem failHere (fault : Fault) (atEnd : tokens = [] → known) : Ends (@failHere α fault) ctx tokens known := by
  intro c here viable _ cut
  exact atEnd (viable.nil_of_next (here ▸ cut.1))

theorem expect {f : Token → Reader β} (inner : kind ≠ .eof) (atEnd : tokens = [] → known)
    (rest : ∀ t ts, tokens = t :: ts → t.kind = kind → Ends (f t) ctx ts known) :
    Ends (expect kind place >>= f) ctx tokens known := by
  rw [expect_eq, Reader.bind_assoc]
  refine peekKind ?_
  rw [Reader.ite_bind]
  split
  · next sees => exact advance sees inner rest
  · exact failHere _ atEnd

theorem lastStop {f : Position → Reader β} (rest : ∀ p, Ends (f p) ctx tokens known) :
    Ends (lastStop >>= f) ctx tokens known :=
  fun c here viable clean cut => rest _ c here viable clean cut

theorem map (g : α → β) (inner : Ends r ctx tokens known) : Ends (g <$> r) ctx tokens known := by
  intro c here viable clean cut
  refine inner c here viable clean ?_
  change ((r >>= fun a => Pure.pure (g a)) ctx c).CutOff at cut
  cases read : r ctx c with
  | ok a next => rw [Reader.bind_ok read] at cut; exact cut
  | fail t fault next => rw [Reader.bind_fail read] at cut; exact cut

theorem unlessNext (inner : Ends r ctx tokens known) : Ends (unlessNext kind r) ctx tokens known := by
  refine peekKind ?_
  split
  · exact pure none
  · exact map some inner

theorem behind (inner : kind ≠ .eof)
    (rest : ∀ t ts, tokens = t :: ts → t.kind = kind → Ends r ctx ts known) :
    Ends (behind kind r) ctx tokens known := by
  rw [behind_eq]
  refine peekKind ?_
  split
  · next sees => exact advance sees inner fun t ts here isKind => map some (rest t ts here isKind)
  · exact pure none

-- No run is cut off behind a report that more tokens cannot mend.
theorem of_report [∀ a, Stepwise @Forward (f a)]
    (reports : ∀ c, c.rest = tokens → ∃ a d, ¬ Mends d ∧ r ctx c = .ok a (c.report d)) :
    Ends (r >>= f) ctx tokens known := by
  intro c here _ _ cut
  obtain ⟨a, d, hopeless, read⟩ := reports c here
  rw [Reader.bind_ok read] at cut
  have reported : d ∈ (c.report d).reported := List.mem_append_right _ (List.mem_singleton.2 rfl)
  cases after : f a ctx (c.report d) with
  | ok b last =>
    rw [after] at cut
    have grown : last.Ahead (c.report d) := Stepwise.forward.ok after
    exact absurd (cut.2 d (grown.2.subset reported)) hopeless
  | fail t fault last =>
    rw [after] at cut
    have grown : last.Ahead (c.report d) := (Stepwise.forward.fail after).1
    exact absurd (cut.2 d (grown.2.subset reported)) hopeless

theorem countAgainst {f : Unit → Reader β} [∀ a, Stepwise @Forward (f a)] (counts : fault.code = Code.tooMany)
    (rest : count < maxArguments → Ends (f ()) ctx tokens known) :
    Ends (countAgainst count fault >>= f) ctx tokens known := by
  unfold Parse.countAgainst
  split
  · exact of_report fun c _ => ⟨(), _, fun mends => mends.roomy counts, rfl⟩
  · next few => exact rest (Nat.lt_of_not_le few)

theorem recovering [Stepwise @Forward r] (inner : Ends r ctx tokens known) :
    Ends (recovering r) ctx tokens known := by
  intro c here viable clean cut
  refine inner c here viable clean ?_
  cases read : r ctx c with
  | ok a next =>
    rw [recovering_ok read] at cut
    exact cut
  | fail t fault failed =>
    obtain ⟨next, eq, _, reports, _⟩ := recovering_fail read
    have legal : t.kind ≠ .illegal := by
      rcases (Stepwise.forward.fail read).2 with mem | rfl
      · exact viable.legal t (here ▸ mem)
      · rw [viable.ended]; decide
    have noted : noted failed t fault = failed.report (fault.diagnostic t) := if_neg legal
    rw [eq] at cut
    have mends : ∀ d ∈ (failed.report (fault.diagnostic t)).reported, Mends d := noted ▸ reports ▸ cut.2
    obtain ⟨before, here⟩ := List.forall_mem_append.1 mends
    exact ⟨(List.forall_mem_singleton.1 here).kind, before⟩

theorem within (bracket : Bracket) (same : (bracket.enter ctx).ending = ctx.ending)
    (inner : Ends r (bracket.enter ctx) tokens known) : Ends (within bracket r) ctx tokens known :=
  fun c here viable clean cut =>
    inner c here ⟨⟨same ▸ viable.ended, viable.legal⟩, viable.inner, viable.fits⟩ clean cut

theorem last [Stepwise @Forward r] [∀ a, Stepwise @Forward (f a)] (first : Ends r ctx tokens known)
    (second : ∀ a rest, Ends (f a) ctx rest known) : Ends (r >>= f) ctx tokens known :=
  bind (fun _ _ _ _ _ _ _ => trivial) first fun a rest (_ : True) => second a rest

theorem openReturn (sees : nextKind ctx tokens = .kwReturn) : Ends openReturn ctx tokens known := by
  intro c here viable clean cut
  obtain ⟨t, ts, rfl, isReturn⟩ := viable.cons_of_next sees (by decide)
  obtain ⟨rest, last, reported⟩ := c
  cases here
  cases clean
  rw [openReturn_eq] at cut
  cases inside : ctx.inFunction with
  | true =>
    rw [inside] at cut
    exact absurd rfl cut.1
  | false =>
    rw [inside] at cut
    have stray : Mends (Fault.strayReturn.diagnostic t) := cut.2 _ List.mem_cons_self
    exact nomatch isReturn.symm.trans stray.kind

end Ends

def mark (kind : Kind) : Token := ⟨kind, [], .nil, .unknown⟩

theorem mark_kind (kind : Kind) : (mark kind).kind = kind := rfl

def fillers : List Kind :=
  [.kwNil, .ident, .semicolon, .leftParen, .rightParen, .leftBrace, .rightBrace]

def Extends (sort : List Token → Prop) (tokens : List Token) : Prop :=
  ∃ kinds : List Kind, (∀ k ∈ kinds, k ∈ fillers) ∧ sort (tokens ++ kinds.map mark)

namespace Extends

variable {sort wider : List Token → Prop} {tokens whole : List Token}

theorem stop (kinds : List Kind) (allowed : ∀ k ∈ kinds, k ∈ fillers)
    (holds : sort (tokens ++ kinds.map mark)) : Extends sort tokens := ⟨kinds, allowed, holds⟩

theorem close (part : Extends sort tokens) (more : List Kind) (allowed : ∀ k ∈ more, k ∈ fillers)
    (rule : ∀ v, sort (tokens ++ v) → wider (whole ++ (v ++ more.map mark))) : Extends wider whole := by
  obtain ⟨kinds, known, holds⟩ := part
  refine ⟨kinds ++ more, List.forall_mem_append.2 ⟨known, allowed⟩, ?_⟩
  rw [List.map_append]
  exact rule _ holds

theorem lift (part : Extends sort tokens) (rule : ∀ v, sort (tokens ++ v) → wider (whole ++ v)) :
    Extends wider whole := by
  obtain ⟨kinds, known, holds⟩ := part
  exact ⟨kinds, known, rule _ holds⟩

end Extends

def Word (sym : Symbol α) (w : List Token) : Prop := ∃ a, Derives sym w a

theorem Word.of {sym : Symbol α} (derived : Derives sym w a) (same : v = w) : Word sym v :=
  ⟨a, same ▸ derived⟩

-- The shortest words, for what is missing altogether.

theorem nil_operation (p : Precedence) :
    Derives (.operation p) [mark .kwNil] (.literal .unknown .nil) := by
  have factor : Derives (.operation .factor) [mark .kwNil] (.literal .unknown .nil) :=
    .single _ (.operand (.callee (.nil rfl)))
  have term := Derives.single .term factor
  have comparison := Derives.single .comparison term
  have equality := Derives.single .equality comparison
  have conjunction := Derives.single .conjunction equality
  cases p with
  | factor => exact factor
  | term => exact term
  | comparison => exact comparison
  | equality => exact equality
  | conjunction => exact conjunction
  | disjunction => exact .single _ conjunction

theorem nil_expression : Derives .expression [mark .kwNil] (.literal .unknown .nil) :=
  .value (nil_operation .disjunction)

theorem nil_statement (inside : Bool) : Derives (.statement inside false) [mark .kwNil, mark .semicolon]
    (.expr .unknown (.literal .unknown .nil)) :=
  .simple (.expressionStatement nil_expression rfl)

theorem empty_block (inside : Bool) :
    Derives (.block inside) [mark .leftBrace, mark .rightBrace] (.braces .unknown []) :=
  .block rfl .noDeclarations rfl

section

variable {ctx : Context} {operand : Reader Expr} [Stepwise @Forward operand]

theorem chain_ends (p : Precedence)
    (sound : ∀ tokens, Yields operand ctx tokens fun e => Phrase p.operand tokens e.bare)
    (inner : ∀ tokens, Ends operand ctx tokens (Extends (Word p.operand) tokens)) (bound : Nat)
    (left : Expr) (whole tokens : List Token) (read : Phrase (.operation p) whole left.bare tokens) :
    Ends (chain (tierOf p) operand bound left) ctx tokens (Extends (Word (.operation p)) whole) := by
  induction bound generalizing left tokens with
  | zero => exact .pure left
  | succ bound ih =>
    refine .peekKind ?_
    split
    · next joins =>
      have found := (mem_tierOf p _).1 joins
      refine .advance rfl (precedence?_ne_eof found) fun t ts here isKind => ?_
      obtain ⟨w, rfl, before⟩ := read
      rw [← isKind] at found ⊢
      refine .bind (sound ts) ((inner ts).weaken fun rest => ?_) fun right rest ⟨v, split, derived⟩ => ?_
      · exact rest.lift fun v ⟨e, derived⟩ => .of (.joined p before found derived) (by simp [here])
      · refine ih _ rest ?_
        rw [bare_combine]
        exact ⟨w ++ t :: v, by simp [here, split], .joined p before found derived⟩
    · exact .pure left

theorem rung_ends (bound : Nat) (p : Precedence)
    (sound : ∀ tokens, Yields (ladder bound operand (tiers.drop (rank p + 1))) ctx tokens fun e =>
      Phrase p.operand tokens e.bare)
    (tighter : ∀ tokens, Ends (ladder bound operand (tiers.drop (rank p + 1))) ctx tokens
      (Extends (Word p.operand) tokens)) (tokens : List Token) :
    Ends (ladder bound operand (tiers.drop (rank p))) ctx tokens (Extends (Word (.operation p)) tokens) := by
  rw [tiers_drop]
  refine .bind (sound tokens) ((tighter tokens).weaken fun rest => ?_) fun left rest read => ?_
  · exact rest.lift fun v ⟨e, derived⟩ => ⟨e, .single p derived⟩
  · obtain ⟨w, split, derived⟩ := read
    exact chain_ends p sound tighter bound left tokens rest ⟨w, split, .single p derived⟩

theorem ladder_ends (bound : Nat)
    (sound : ∀ tokens, Yields operand ctx tokens fun e => Phrase .unary tokens e.bare)
    (inner : ∀ tokens, Ends operand ctx tokens (Extends (Word .unary) tokens)) (tokens : List Token) :
    Ends (ladder bound operand tiers) ctx tokens (Extends (Word (.operation .disjunction)) tokens) := by
  have factorsRead := rung_yields bound .factor sound
  have termsRead := rung_yields bound .term factorsRead
  have comparisonsRead := rung_yields bound .comparison termsRead
  have equalitiesRead := rung_yields bound .equality comparisonsRead
  have conjunctionsRead := rung_yields bound .conjunction equalitiesRead
  have factors := rung_ends bound .factor sound inner
  have terms := rung_ends bound .term factorsRead factors
  have comparisons := rung_ends bound .comparison termsRead terms
  have equalities := rung_ends bound .equality comparisonsRead comparisons
  have conjunctions := rung_ends bound .conjunction equalitiesRead equalities
  exact rung_ends bound .disjunction conjunctionsRead conjunctions tokens

theorem unary_ends (inner : ∀ tokens, Ends operand ctx tokens (Extends (Word .call) tokens)) (bound : Nat)
    (tokens : List Token) : Ends (unary operand bound) ctx tokens (Extends (Word .unary) tokens) := by
  have plain (tokens : List Token) : Ends operand ctx tokens (Extends (Word .unary) tokens) :=
    (inner tokens).weaken fun rest => rest.lift fun v ⟨e, derived⟩ => ⟨e, .operand derived⟩
  induction bound generalizing tokens with
  | zero => exact plain tokens
  | succ bound ih =>
    refine .peek ?_
    split
    · next signed =>
      refine .advance rfl (fun atEnd => ?_) fun t ts here isKind => ?_
      · unfold nextKind at atEnd
        rw [atEnd] at signed
        simp at signed
      · subst here
        refine .last ((ih ts).weaken fun rest => ?_) fun _ _ => .pure _
        exact rest.lift fun v ⟨e, derived⟩ => .of (.signed signed derived) rfl
    · exact plain tokens

def Within (sym : Symbol (List α)) (count : Nat) (w : List Token) : Prop :=
  ∃ items, Derives sym w items ∧ count + items.length ≤ most

theorem arguments_ends
    (sound : ∀ tokens, Yields operand ctx tokens fun e => Phrase .expression tokens e.bare)
    (inner : ∀ tokens, Ends operand ctx tokens (Extends (Word .expression) tokens))
    (bound count : Nat) (tokens : List Token) :
    Ends (arguments operand bound count) ctx tokens (Extends (Within .arguments count) tokens) := by
  have one (count : Nat) (few : count < maxArguments) (tokens : List Token) :
      Ends operand ctx tokens (Extends (Within .arguments count) tokens) :=
    (inner tokens).weaken fun rest => rest.lift fun v ⟨e, derived⟩ => ⟨[e], .argument derived, few⟩
  induction bound generalizing count tokens with
  | zero =>
    rw [arguments_zero]
    exact .countAgainst rfl fun few => .last (one count few tokens) fun _ _ => .pure _
  | succ bound ih =>
    rw [arguments_succ]
    refine .countAgainst rfl fun few => .bind (sound tokens) (one count few tokens) ?_
    intro e rest ⟨w, split, derived⟩
    refine .last (.behind (by decide) fun t ts here isComma => ?_) fun _ _ => .pure _
    refine (ih (count + 1) ts).weaken fun more => more.lift fun v ⟨args, read, short⟩ => ?_
    refine ⟨e.bare :: args, ?_, by rw [List.length_cons]; omega⟩
    rw [split, here, List.append_assoc]
    exact .argumentMore derived isComma read

theorem calls_ends
    (sound : ∀ tokens, Yields operand ctx tokens fun e => Phrase .expression tokens e.bare)
    (inner : ∀ tokens, Ends operand ctx tokens (Extends (Word .expression) tokens))
    (size bound : Nat) (callee : Expr) (whole tokens : List Token)
    (read : Phrase .call whole callee.bare tokens) :
    Ends (calls operand size bound callee) ctx tokens (Extends (Word .call) whole) := by
  induction bound generalizing callee tokens with
  | zero => exact .pure callee
  | succ bound ih =>
    rw [calls_succ]
    refine .peekKind ?_
    split
    · next sees =>
      refine .advance sees (by decide) fun t ts here isOpen => ?_
      obtain ⟨w, rfl, before⟩ := read
      have listed : Ends (arguments operand size 0) ctx ts (Extends (Word .call) (w ++ tokens)) := by
        refine (arguments_ends sound inner size 0 ts).weaken fun rest => rest.close [.rightParen] (by decide) ?_
        intro v ⟨args, read, short⟩
        exact .of (.callWith before isOpen read (by omega) (mark_kind _)) (by simp [here])
      refine .bind (callArguments_yields sound size ts) (.unlessNext listed) fun es rest read => ?_
      refine .expect (by decide) (fun atEnd => ?_) fun u us ends isClose => ih _ us ?_
      · refine .stop [.rightParen] (by decide) ?_
        rcases read with ⟨rfl, rfl⟩ | ⟨es, rfl, ⟨v, split, derived⟩, short⟩
        · exact .of (.callEmpty before isOpen (mark_kind _)) (by simp [here, atEnd])
        · exact .of (.callWith before isOpen derived short (mark_kind _)) (by simp [here, split, atEnd])
      · rcases read with ⟨rfl, rfl⟩ | ⟨es, rfl, ⟨v, split, derived⟩, short⟩
        · exact ⟨w ++ [t, u], by simp [here, ends], .callEmpty before isOpen isClose⟩
        · refine ⟨w ++ t :: v ++ [u], by simp [here, split, ends], ?_⟩
          exact .callWith before isOpen derived short isClose
    · exact .pure callee

end

theorem parameters_ends (ctx : Context) (bound count : Nat) (tokens : List Token) :
    Ends (parameters bound count) ctx tokens (Extends (Within .parameters count) tokens) := by
  have none (count : Nat) (few : count < maxArguments) (tokens : List Token) (atEnd : tokens = []) :
      Extends (Within .parameters count) tokens := by
    subst atEnd
    exact .stop [.ident] (by decide) ⟨[[]], .parameter rfl, few⟩
  induction bound generalizing count tokens with
  | zero =>
    rw [parameters_zero]
    exact .countAgainst rfl fun few => .expect (by decide) (none count few tokens) fun _ _ _ _ => .pure _
  | succ bound ih =>
    rw [parameters_succ]
    refine .countAgainst rfl fun few => .expect (by decide) (none count few tokens) ?_
    intro t ts here isName
    refine .last (.behind (by decide) fun u us next isComma => ?_) fun _ _ => .pure _
    refine (ih (count + 1) us).weaken fun more => more.lift fun v ⟨params, read, short⟩ => ?_
    refine ⟨t.lexeme :: params, ?_, by rw [List.length_cons]; omega⟩
    rw [here, next]
    exact .parameterMore isName isComma read

def StatementWord (inside : Bool) (w : List Token) : Prop := ∃ dangling, Word (.statement inside dangling) w

structure Nested.Ends (nested : Nested) : Prop where
  expression (ctx : Context) (tokens : List Token) :
    Parse.Ends nested.expression ctx tokens (Extends (Word .expression) tokens)
  statement (ctx : Context) (tokens : List Token) :
    Parse.Ends nested.statement ctx tokens (Extends (StatementWord ctx.inFunction) tokens)
  declaration (ctx : Context) (tokens : List Token) :
    Parse.Ends nested.declaration ctx tokens (Extends (Word (.declaration ctx.inFunction)) tokens)

section

variable {nested : Nested} [nested.Stepwise @Forward] (sound : nested.Sound) (inner : nested.Ends)
  (ctx : Context) (size : Nat)

include sound inner

theorem declarations_ends (braced : Bool) (bound : Nat) (tokens : List Token) :
    Ends (declarations nested.declaration braced bound) ctx tokens
      (Extends (Word (.declarations ctx.inFunction)) tokens) := by
  induction bound generalizing tokens with
  | zero => exact .pure _
  | succ bound ih =>
    refine .peekKind ?_
    split
    · exact .pure _
    · refine .bind (sound.declaration ctx tokens) ((inner.declaration ctx tokens).weaken fun rest => ?_) ?_
      · exact rest.lift fun v ⟨s, derived⟩ => .of (.declarations derived .noDeclarations) (by simp)
      · intro s rest ⟨stmt, _, w, split, derived⟩
        refine .last ((ih rest).weaken fun more => ?_) fun _ _ => .pure _
        exact more.lift fun v ⟨ss, read⟩ => .of (.declarations derived read) (by simp [split])

theorem block_ends (tokens : List Token) : Ends (block size nested) ctx tokens
    (Extends (Word (.block ctx.inFunction)) tokens) := by
  refine .expect (by decide) (fun atEnd => ?_) fun t ts here isOpen => ?_
  · exact .stop [.leftBrace, .rightBrace] (by decide) (.of (empty_block _) (by rw [atEnd]; rfl))
  have body : Ends (declarations nested.declaration true size) (Bracket.braces.enter ctx) ts
      (Extends (Word (.block ctx.inFunction)) tokens) := by
    refine (declarations_ends sound inner _ true size ts).weaken fun rest =>
      rest.close [.rightBrace] (by decide) ?_
    intro v ⟨ss, read⟩
    exact .of (.block isOpen read (mark_kind _)) (by simp [here])
  refine .bind (.within _ rfl (declarations_yields sound _ true size ts)) (.within _ rfl body) ?_
  intro ss rest ⟨⟨w, split, derived⟩, _⟩
  refine .expect (by decide) (fun atEnd => ?_) fun u us ends isClose => .lastStop fun _ => .pure _
  refine .stop [.rightBrace] (by decide) ?_
  exact .of (.block isOpen derived (mark_kind _)) (by simp [here, split, atEnd])

theorem functionRest_ends (afterName beforeBody : Place) (tokens : List Token) :
    Ends (functionRest size nested afterName beforeBody) ctx tokens (Extends (Word .function) tokens) := by
  rw [functionRest_eq]
  refine .expect (by decide) (fun atEnd => ?_) fun t ts here isOpen => ?_
  · refine .stop [.leftParen, .rightParen, .leftBrace, .rightBrace] (by decide) ?_
    exact .of (.thunk (mark_kind _) (mark_kind _) (empty_block true)) (by rw [atEnd]; rfl)
  have listed : Ends (parameters size 0) ctx ts (Extends (Word .function) tokens) := by
    refine (parameters_ends ctx size 0 ts).weaken fun rest =>
      rest.close [.rightParen, .leftBrace, .rightBrace] (by decide) ?_
    intro v ⟨names, read, short⟩
    exact .of (.function isOpen read (by omega) (mark_kind _) (empty_block true)) (by simp [here])
  refine .bind (functionParameters_yields ctx size ts) (.unlessNext listed) fun ps rest read => ?_
  refine .expect (by decide) (fun atEnd => ?_) fun u us ends isClose => .peekKind ?_
  · refine .stop [.rightParen, .leftBrace, .rightBrace] (by decide) ?_
    rcases read with ⟨rfl, rfl⟩ | ⟨names, rfl, ⟨v, split, names⟩, short⟩
    · exact .of (.thunk isOpen (mark_kind _) (empty_block true)) (by simp [here, atEnd])
    · exact .of (.function isOpen names short (mark_kind _) (empty_block true)) (by simp [here, split, atEnd])
  -- the body, whole or cut off, makes the function
  have made (v : List Token) (body : Word (.block true) (us ++ v)) : Word .function (tokens ++ v) := by
    obtain ⟨b, derived⟩ := body
    rcases read with ⟨rfl, rfl⟩ | ⟨names, rfl, ⟨w, split, names⟩, short⟩
    · exact .of (.thunk isOpen isClose derived) (by simp [here, ends])
    · exact .of (.function isOpen names short isClose derived) (by simp [here, split, ends])
  split
  · refine .last (.within _ rfl ((block_ends sound inner _ size us).weaken fun rest => ?_)) fun _ _ => .pure _
    exact rest.lift made
  · refine .failHere _ fun atEnd => .stop [.leftBrace, .rightBrace] (by decide) (made _ ?_)
    exact .of (empty_block true) (by rw [atEnd]; rfl)

theorem primary_ends (tokens : List Token) :
    Ends (primary size nested) ctx tokens (Extends (Word .primary) tokens) := by
  have leaf (make : Token → Expr) (kind : Kind) (inner : kind ≠ .eof) (sees : nextKind ctx tokens = kind) :
      Ends (leaf make) ctx tokens (Extends (Word .primary) tokens) :=
    .advance sees inner fun _ _ _ _ => .pure _
  rw [primary_eq]
  refine .peekKind ?_
  generalize sees : nextKind ctx tokens = kind
  cases kind with
  | kwFalse | kwTrue | kwNil | number | string | ident => exact leaf _ _ (by decide) sees
  | leftParen =>
    refine .advance sees (by decide) fun t ts here isOpen => ?_
    refine .bind (sound.expression ctx ts) ((inner.expression ctx ts).weaken fun rest => ?_) ?_
    · refine rest.close [.rightParen] (by decide) fun v ⟨e, derived⟩ => ?_
      exact .of (.grouping isOpen derived (mark_kind _)) (by simp [here])
    · intro e rest ⟨w, split, derived⟩
      refine .expect (by decide) (fun atEnd => ?_) fun _ _ _ _ => .lastStop fun _ => .pure _
      refine .stop [.rightParen] (by decide) ?_
      exact .of (.grouping isOpen derived (mark_kind _)) (by simp [here, split, atEnd])
  | kwFun =>
    refine .advance sees (by decide) fun t ts here isFun => ?_
    refine .last ((functionRest_ends sound inner ctx size _ _ ts).weaken fun rest => ?_) ?_
    · exact rest.lift fun v ⟨f, derived⟩ => .of (.lambda isFun derived) (by simp [here])
    · exact fun _ _ => .lastStop fun _ => .pure _
  | _ =>
    refine .failHere _ fun atEnd => .stop [.kwNil] (by decide) ?_
    exact .of (.nil (mark_kind _)) (by rw [atEnd]; rfl)

theorem call_ends (tokens : List Token) :
    Ends (call size nested) ctx tokens (Extends (Word .call) tokens) := by
  refine .bind (primary_yields sound ctx size tokens)
    ((primary_ends sound inner ctx size tokens).weaken fun rest => ?_) ?_
  · exact rest.lift fun v ⟨e, derived⟩ => ⟨e, .callee derived⟩
  · intro callee rest ⟨w, split, derived⟩
    exact calls_ends (sound.expression ctx) (inner.expression ctx) size size callee tokens rest
      ⟨w, split, .callee derived⟩

-- The value of an assignment may be missing, but not its target.
omit sound in
theorem assignTail_ends (left : Expr) (whole tokens : List Token)
    (read : Phrase (.operation .disjunction) whole left.bare tokens)
    (fits : (follow lead whole).isSome = true) :
    Ends (assignTail nested.expression left) ctx tokens (Extends (Word .expression) whole) := by
  obtain ⟨w, rfl, derived⟩ := read
  refine .peek ?_
  split
  · next sees =>
    refine .advance sees (by decide) fun t ts here isEqual => ?_
    subst here
    obtain ⟨n, rfl, isName⟩ := derived.name_of_follow isEqual fits
    have value : Ends nested.expression ctx ts (Extends (Word .expression) ([n] ++ t :: ts)) :=
      (inner.expression ctx ts).weaken fun rest => rest.lift fun v ⟨e, derived⟩ =>
        .of (.assignment isName isEqual derived) rfl
    cases left with
    | name span x => exact .last value fun _ _ => .pure _
    | _ =>
      refine .last value fun _ _ => .of_report fun c _ => ⟨(), _, fun mends => ?_, rfl⟩
      exact nomatch isEqual.symm.trans mends.kind
  · exact .pure _

theorem expression_ends (tokens : List Token) :
    Ends (expression size nested) ctx tokens (Extends (Word .expression) tokens) := by
  have operandsRead := unary_yields (call_yields sound ctx size) size
  have operands := unary_ends (call_ends sound inner ctx size) size
  rw [expression_eq]
  intro c here viable clean cut
  obtain ⟨lead, fits⟩ := viable.fits
  refine Ends.bind (ladder_yields size operandsRead tokens)
    ((ladder_ends size operandsRead operands tokens).weaken fun rest => ?_) ?_ c here viable clean cut
  · exact rest.lift fun v ⟨e, derived⟩ => ⟨e, .value derived⟩
  · exact fun left rest read => assignTail_ends inner ctx left tokens rest read fits

omit [nested.Stepwise @Forward] sound in
theorem clause_ends (kind : Kind) (tokens : List Token) :
    Ends (unlessNext kind nested.expression) ctx tokens (Extends (Word .clause) tokens) := by
  refine .unlessNext ((inner.expression ctx tokens).weaken fun rest => ?_)
  exact rest.lift fun v ⟨e, derived⟩ => ⟨some e, .clause derived⟩

theorem variableDeclaration_ends (tokens : List Token) (sees : nextKind ctx tokens = .kwVar) :
    Ends (variableDeclaration nested) ctx tokens (Extends (Word .variableDeclaration) tokens) := by
  rw [variableDeclaration_eq]
  refine .advance sees (by decide) fun t ts here isVar => ?_
  refine .expect (by decide) (fun atEnd => ?_) fun x xs named isName => ?_
  · refine .stop [.ident, .semicolon] (by decide) ?_
    exact .of (.unset isVar (mark_kind _) (mark_kind _)) (by simp [here, atEnd])
  refine .bind (initialValue_yields sound ctx xs) (.behind (by decide) fun u us set isEqual => ?_) ?_
  · refine (inner.expression ctx us).weaken fun rest => rest.close [.semicolon] (by decide) ?_
    intro v ⟨e, derived⟩
    exact .of (.set isVar isName isEqual derived (mark_kind _)) (by simp [here, named, set])
  · intro e rest read
    refine .expect (by decide) (fun atEnd => .stop [.semicolon] (by decide) ?_) ?_
    · rcases read with ⟨rfl, rfl⟩ | ⟨u, us, value, rfl, set, isEqual, w, split, derived⟩
      · exact .of (.unset isVar isName (mark_kind _)) (by simp [here, named, atEnd])
      · exact .of (.set isVar isName isEqual derived (mark_kind _)) (by simp [here, named, set, split, atEnd])
    · exact fun _ _ _ _ => .lastStop fun _ => .pure _

omit [nested.Stepwise @Forward] sound inner in
theorem expressionStatement_ends {operand : Reader Expr} [Stepwise @Forward operand] (tokens : List Token)
    (sound : Yields operand ctx tokens fun e => Phrase .expression tokens e.bare)
    (inner : Ends operand ctx tokens (Extends (Word .expression) tokens)) :
    Ends (expressionStatement operand) ctx tokens (Extends (Word .expressionStatement) tokens) := by
  refine .bind sound (inner.weaken fun rest => rest.close [.semicolon] (by decide) ?_) ?_
  · intro v ⟨e, derived⟩
    exact .of (.expressionStatement derived (mark_kind _)) (by simp)
  · intro e rest ⟨w, split, derived⟩
    refine .expect (by decide) (fun atEnd => .stop [.semicolon] (by decide) ?_) ?_
    · exact .of (.expressionStatement derived (mark_kind _)) (by simp [split, atEnd])
    · exact fun _ _ _ _ => .lastStop fun _ => .pure _

theorem functionDeclaration_ends (tokens : List Token) (sees : nextKind ctx tokens = .kwFun)
    (named : secondKind tokens = .ident) : Ends (functionDeclaration size nested) ctx tokens
      (Extends (Word (.declaration ctx.inFunction)) tokens) := by
  refine .advance sees (by decide) fun t ts here isFun => ?_
  subst here
  have seesName : nextKind ctx ts = .ident := by
    cases ts with
    | nil => cases named
    | cons x xs => exact named
  refine .advance seesName (by decide) fun x xs next isName => ?_
  refine .last ((functionRest_ends sound inner ctx size _ _ xs).weaken fun rest => ?_) ?_
  · exact rest.lift fun v ⟨f, derived⟩ => .of (.functionDeclaration isFun isName derived) (by simp [next])
  · exact fun _ _ => .lastStop fun _ => .pure _

theorem branchStatement_ends (tokens : List Token) (sees : nextKind ctx tokens = .kwIf) :
    Ends (branchStatement nested) ctx tokens (Extends (StatementWord ctx.inFunction) tokens) := by
  rw [branchStatement_eq]
  refine .advance sees (by decide) fun t ts here isIf => ?_
  refine .expect (by decide) (fun atEnd => ?_) fun l ls opens isOpen => ?_
  · refine .stop [.leftParen, .kwNil, .rightParen, .kwNil, .semicolon] (by decide) ⟨true, ?_⟩
    exact .of (.branch isIf (mark_kind _) nil_expression (mark_kind _) (nil_statement _))
      (by simp [here, atEnd])
  refine .bind (sound.expression ctx ls) ((inner.expression ctx ls).weaken fun rest =>
    rest.close [.rightParen, .kwNil, .semicolon] (by decide) ?_) ?_
  · intro v ⟨e, derived⟩
    exact ⟨true, .of (.branch isIf isOpen derived (mark_kind _) (nil_statement _)) (by simp [here, opens])⟩
  intro e es ⟨w, split, condition⟩
  refine .expect (by decide) (fun atEnd => ?_) fun r rs closes isClose => ?_
  · refine .stop [.rightParen, .kwNil, .semicolon] (by decide) ⟨true, ?_⟩
    exact .of (.branch isIf isOpen condition (mark_kind _) (nil_statement _))
      (by simp [here, opens, split, atEnd])
  refine .bind (sound.statement ctx rs) ((inner.statement ctx rs).weaken fun rest => rest.lift ?_) ?_
  · intro v ⟨dangling, s, derived⟩
    exact ⟨true, .of (.branch isIf isOpen condition isClose derived) (by simp [here, opens, split, closes])⟩
  intro yes us ⟨dangling, ⟨v, tail, taken⟩, free⟩
  refine .last (.behind (by decide) fun u zs next isElse => ?_) fun _ _ => .lastStop fun _ => .pure _
  -- the statement in front of an `else` did not take it, so it could not
  have closed : dangling = false := by
    cases dangling with
    | false => rfl
    | true => exact absurd (next ▸ isElse : nextKind ctx us = .kwElse) (free rfl)
  subst closed
  refine (inner.statement ctx zs).weaken fun rest => rest.lift fun z ⟨deep, s, refused⟩ => ⟨deep, ?_⟩
  exact .of (.branchElse isIf isOpen condition isClose taken isElse refused)
    (by simp [here, opens, split, closes, tail, next])

theorem whileStatement_ends (tokens : List Token) (sees : nextKind ctx tokens = .kwWhile) :
    Ends (whileStatement nested) ctx tokens (Extends (StatementWord ctx.inFunction) tokens) := by
  refine .advance sees (by decide) fun t ts here isWhile => ?_
  refine .expect (by decide) (fun atEnd => ?_) fun l ls opens isOpen => ?_
  · refine .stop [.leftParen, .kwNil, .rightParen, .kwNil, .semicolon] (by decide) ⟨false, ?_⟩
    exact .of (.loop isWhile (mark_kind _) nil_expression (mark_kind _) (nil_statement _))
      (by simp [here, atEnd])
  refine .bind (sound.expression ctx ls) ((inner.expression ctx ls).weaken fun rest =>
    rest.close [.rightParen, .kwNil, .semicolon] (by decide) ?_) ?_
  · intro v ⟨e, derived⟩
    exact ⟨false, .of (.loop isWhile isOpen derived (mark_kind _) (nil_statement _)) (by simp [here, opens])⟩
  intro e es ⟨w, split, condition⟩
  refine .expect (by decide) (fun atEnd => ?_) fun r rs closes isClose => ?_
  · refine .stop [.rightParen, .kwNil, .semicolon] (by decide) ⟨false, ?_⟩
    exact .of (.loop isWhile isOpen condition (mark_kind _) (nil_statement _))
      (by simp [here, opens, split, atEnd])
  refine .last ((inner.statement ctx rs).weaken fun rest => rest.lift ?_) fun _ _ => .lastStop fun _ => .pure _
  intro v ⟨dangling, s, derived⟩
  exact ⟨dangling, .of (.loop isWhile isOpen condition isClose derived) (by simp [here, opens, split, closes])⟩

theorem forFirst_ends (tokens : List Token) :
    Ends (forFirst nested) ctx tokens (Extends (Word .initial) tokens) := by
  refine .peekKind ?_
  split
  · next sees => exact .advance sees (by decide) fun _ _ _ _ => .pure _
  split
  · next sees =>
    refine .map some ((variableDeclaration_ends sound inner ctx tokens sees).weaken fun rest => ?_)
    exact rest.lift fun v ⟨s, derived⟩ => ⟨some s, .initialVariable derived⟩
  · have read := expressionStatement_ends ctx tokens (sound.expression ctx tokens) (inner.expression ctx tokens)
    refine .map some (read.weaken fun rest => ?_)
    exact rest.lift fun v ⟨s, derived⟩ => ⟨some s, .initialExpression derived⟩

theorem forStatement_ends (tokens : List Token) (sees : nextKind ctx tokens = .kwFor) :
    Ends (forStatement nested) ctx tokens (Extends (StatementWord ctx.inFunction) tokens) := by
  rw [forStatement_eq]
  refine .advance sees (by decide) fun t ts here isFor => ?_
  refine .expect (by decide) (fun atEnd => ?_) fun l ls opens isOpen => ?_
  · refine .stop [.leftParen, .semicolon, .semicolon, .rightParen, .kwNil, .semicolon] (by decide) ⟨false, ?_⟩
    exact .of (.counted isFor (mark_kind _) (.noInitial (mark_kind _)) .noClause (mark_kind _) .noClause
      (mark_kind _) (nil_statement _)) (by simp [here, atEnd])
  refine .bind (forFirst_yields sound ctx ls) ((forFirst_ends sound inner ctx ls).weaken fun rest =>
    rest.close [.semicolon, .rightParen, .kwNil, .semicolon] (by decide) ?_) ?_
  · intro v ⟨first, initial⟩
    exact ⟨false, .of (.counted isFor isOpen initial .noClause (mark_kind _) .noClause (mark_kind _)
      (nil_statement _)) (by simp [here, opens])⟩
  intro first as ⟨w₁, split₁, initial⟩
  refine .bind (clause_yields sound ctx .semicolon as) ((clause_ends inner ctx .semicolon as).weaken fun rest =>
    rest.close [.semicolon, .rightParen, .kwNil, .semicolon] (by decide) ?_) ?_
  · intro v ⟨condition, test⟩
    exact ⟨false, .of (.counted isFor isOpen initial test (mark_kind _) .noClause (mark_kind _)
      (nil_statement _)) (by simp [here, opens, split₁])⟩
  intro condition bs ⟨w₂, split₂, test⟩
  refine .expect (by decide) (fun atEnd => ?_) fun m ms ends isEnd => ?_
  · refine .stop [.semicolon, .rightParen, .kwNil, .semicolon] (by decide) ⟨false, ?_⟩
    exact .of (.counted isFor isOpen initial test (mark_kind _) .noClause (mark_kind _) (nil_statement _))
      (by simp [here, opens, split₁, split₂, atEnd])
  refine .bind (clause_yields sound ctx .rightParen ms) ((clause_ends inner ctx .rightParen ms).weaken fun rest =>
    rest.close [.rightParen, .kwNil, .semicolon] (by decide) ?_) ?_
  · intro v ⟨step, count⟩
    exact ⟨false, .of (.counted isFor isOpen initial test isEnd count (mark_kind _) (nil_statement _))
      (by simp [here, opens, split₁, split₂, ends])⟩
  intro step cs ⟨w₃, split₃, count⟩
  refine .expect (by decide) (fun atEnd => ?_) fun r rs closes isClose => ?_
  · refine .stop [.rightParen, .kwNil, .semicolon] (by decide) ⟨false, ?_⟩
    exact .of (.counted isFor isOpen initial test isEnd count (mark_kind _) (nil_statement _))
      (by simp [here, opens, split₁, split₂, ends, split₃, atEnd])
  refine .last ((inner.statement ctx rs).weaken fun rest => rest.lift ?_) fun _ _ => .lastStop fun _ => .pure _
  intro v ⟨dangling, s, derived⟩
  exact ⟨dangling, .of (.counted isFor isOpen initial test isEnd count isClose derived)
    (by simp [here, opens, split₁, split₂, ends, split₃, closes])⟩

theorem printStatement_ends (tokens : List Token) (sees : nextKind ctx tokens = .kwPrint) :
    Ends (printStatement nested) ctx tokens (Extends (StatementWord ctx.inFunction) tokens) := by
  refine .advance sees (by decide) fun t ts here isPrint => ?_
  refine .bind (sound.expression ctx ts) ((inner.expression ctx ts).weaken fun rest =>
    rest.close [.semicolon] (by decide) ?_) ?_
  · intro v ⟨e, derived⟩
    exact ⟨false, .of (.print isPrint derived (mark_kind _)) (by simp [here])⟩
  · intro e es ⟨w, split, derived⟩
    refine .expect (by decide) (fun atEnd => .stop [.semicolon] (by decide) ⟨false, ?_⟩) ?_
    · exact .of (.print isPrint derived (mark_kind _)) (by simp [here, split, atEnd])
    · exact fun _ _ _ _ => .lastStop fun _ => .pure _

theorem returnStatement_ends (tokens : List Token) (sees : nextKind ctx tokens = .kwReturn) :
    Ends (returnStatement nested) ctx tokens (Extends (StatementWord ctx.inFunction) tokens) := by
  rw [returnStatement_eq]
  refine .bind (.openReturn sees) (.openReturn sees) fun t ts ⟨here, isReturn, inside⟩ => ?_
  rw [inside]
  refine .bind (clause_yields sound ctx .semicolon ts) ((clause_ends inner ctx .semicolon ts).weaken fun rest =>
    rest.close [.semicolon] (by decide) ?_) ?_
  · intro v ⟨e, derived⟩
    exact ⟨false, .of (.giveBack isReturn derived (mark_kind _)) (by simp [here])⟩
  · intro e es ⟨w, split, derived⟩
    refine .expect (by decide) (fun atEnd => .stop [.semicolon] (by decide) ⟨false, ?_⟩) ?_
    · exact .of (.giveBack isReturn derived (mark_kind _)) (by simp [here, split, atEnd])
    · exact fun _ _ _ _ => .lastStop fun _ => .pure _

theorem statement_ends (tokens : List Token) :
    Ends (statement size nested) ctx tokens (Extends (StatementWord ctx.inFunction) tokens) := by
  rw [statement_eq]
  refine .peekKind ?_
  unfold statementBy
  split
  · next sees => exact forStatement_ends sound inner ctx tokens sees
  · next sees => exact branchStatement_ends sound inner ctx tokens sees
  · next sees => exact printStatement_ends sound inner ctx tokens sees
  · next sees => exact returnStatement_ends sound inner ctx tokens sees
  · next sees => exact whileStatement_ends sound inner ctx tokens sees
  · refine .map Stmt.block ((block_ends sound inner ctx size tokens).weaken fun rest => ?_)
    refine rest.lift fun v word => ?_
    obtain ⟨b, derived⟩ := word
    exact ⟨false, .block b, .braces derived⟩
  · have read := expressionStatement_ends ctx tokens (expression_yields sound ctx size tokens)
      (expression_ends sound inner ctx size tokens)
    refine read.weaken fun rest => rest.lift fun v word => ?_
    obtain ⟨s, derived⟩ := word
    exact ⟨false, s, .simple derived⟩

theorem declaration_ends (tokens : List Token) :
    Ends (declaration size nested) ctx tokens (Extends (Word (.declaration ctx.inFunction)) tokens) := by
  have plain : Ends (statement size nested) ctx tokens (Extends (Word (.declaration ctx.inFunction)) tokens) :=
    (statement_ends sound inner ctx size tokens).weaken fun rest =>
      rest.lift fun v ⟨dangling, s, derived⟩ => ⟨s, .statement derived⟩
  intro c here viable clean cut
  rw [declaration_eq] at cut
  subst here
  generalize sees : nextKind ctx c.rest = kind at cut
  cases kind with
  | kwFun =>
    generalize named : secondKind c.rest = second at cut
    cases second with
    | ident => exact functionDeclaration_ends sound inner ctx size c.rest sees named c rfl viable clean cut
    | _ => exact plain c rfl viable clean cut
  | kwVar =>
    have read := variableDeclaration_ends sound inner ctx c.rest sees c rfl viable clean cut
    exact read.lift fun v ⟨s, derived⟩ => ⟨s, .variableDeclaration derived⟩
  | kwClass => exact nomatch sees.symm.trans cut.1
  | _ => exact plain c rfl viable clean cut

end

theorem level_ends (n : Nat) : (level n).Ends := by
  induction n with
  | zero =>
    refine ⟨fun ctx tokens => .failHere _ fun atEnd => ?_, fun ctx tokens => .failHere _ fun atEnd => ?_,
      fun ctx tokens => .recovering (.failHere .noExpression fun atEnd => ?_)⟩
    · exact .stop [.kwNil] (by decide) (.of nil_expression (by rw [atEnd]; rfl))
    · exact .stop [.kwNil, .semicolon] (by decide) ⟨false, .of (nil_statement _) (by rw [atEnd]; rfl)⟩
    · exact .stop [.kwNil, .semicolon] (by decide) (.of (.statement (nil_statement _)) (by rw [atEnd]; rfl))
  | succ n ih =>
    have sound := level_sound n
    have made : Stepwise @Forward (declaration (n + 1) (level n)) := .given (.declaration (n + 1))
    exact ⟨fun ctx => expression_ends sound ih ctx (n + 1), fun ctx => statement_ends sound ih ctx (n + 1),
      fun ctx tokens => .recovering (declaration_ends sound ih ctx (n + 1) tokens)⟩

theorem parse_extends (ended : ending.kind = .eof) (inner : ∀ t ∈ body, t.kind ≠ .eof)
    (legal : ∀ t ∈ body, t.kind ≠ .illegal) (fits : (follow .other body).isSome = true)
    (faults : ∀ d ∈ (parse (body ++ [ending])).2, Mends d) :
    Extends (Word (.declarations false)) body := by
  by_cases clean : (parse (body ++ [ending])).2 = []
  · exact .stop [] nofun (.of (derives_of_parse ended inner legal clean) (by simp))
  · obtain ⟨stmts, c, ran, eq⟩ := parse_body ended inner
    rw [eq] at clean faults
    have viable : Viable ⟨ending, 0, 0⟩ body := ⟨⟨ended, legal⟩, inner, .other, fits⟩
    refine declarations_ends (level_sound body.length) (level_ends body.length) ⟨ending, 0, 0⟩ false
      body.length body ⟨body, none, []⟩ rfl viable rfl ?_
    rw [ran]
    exact ⟨clean, faults⟩

end Parse

end TinyScript
