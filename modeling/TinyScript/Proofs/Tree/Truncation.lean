import TinyScript.Proofs.Tree.Acceptance
import TinyScript.Proofs.Tree.Levels

namespace TinyScript.Parse

structure EndFault (d : Diagnostic) : Prop where
  severity : d.severity = .error
  stage : d.stage = Stage.parsing
  message : Report.atEnd <:+ d.message

theorem endFault (atEnd : t.kind = .eof) (fault : Fault) : EndFault (fault.diagnostic t) := by
  refine ⟨rfl, rfl, ?_⟩
  show _ <:+ fault.wording ++ Fault.whereabouts t
  rw [Fault.whereabouts, if_pos atEnd]
  exact List.suffix_append _ _

-- Elsewhere the message of a fault ends in a quotation mark.
theorem EndFault.kind (atEnd : EndFault (Fault.diagnostic fault t)) : t.kind = .eof := by
  refine Decidable.byContradiction fun other => ?_
  obtain ⟨before, same⟩ : Report.atEnd <:+ fault.wording ++ Fault.whereabouts t := atEnd.message
  rw [Fault.whereabouts, if_neg other, ← List.append_assoc] at same
  have last := congrArg List.getLast? same
  rw [List.getLast?_append, List.getLast?_append] at last
  cases last

structure Cursor.AtEnd (c : Cursor) : Prop where
  empty : c.rest = []
  faults : ∀ d ∈ c.reported, EndFault d

theorem Cursor.AtEnd.report {c : Cursor} (atEnd : c.AtEnd) (isEnd : t.kind = .eof) (fault : Fault) :
    (c.report (fault.diagnostic t)).AtEnd where
  empty := atEnd.empty
  faults d mem := by
    rcases List.mem_append.1 mem with old | new
    · exact atEnd.faults d old
    · exact List.mem_singleton.1 new ▸ endFault isEnd fault

def Reply.AtEnd : Reply α → Prop
  | .ok _ next => next.AtEnd
  | .fail t _ next => t.kind = .eof ∧ next.AtEnd

theorem bind_atEnd {r : Reader α} {f : α → Reader β} (first : (r ctx c).AtEnd)
    (second : ∀ a next, next.AtEnd → (f a ctx next).AtEnd) : ((r >>= f) ctx c).AtEnd := by
  cases read : r ctx c with
  | ok a next =>
    rw [read] at first
    rw [Reader.bind_ok read]
    exact second a next first
  | fail t fault next =>
    rw [read] at first
    rw [Reader.bind_fail read]
    exact first

theorem recovering_atEnd {r : Reader α} (atEnd : (r ctx c).AtEnd) : (recovering r ctx c).AtEnd := by
  cases read : r ctx c with
  | ok a next =>
    rw [read] at atEnd
    rw [recovering_ok read]
    exact atEnd
  | fail t fault failed =>
    rw [read] at atEnd
    obtain ⟨isEnd, atEnd⟩ := atEnd
    obtain ⟨next, eq, later, reports, _⟩ := recovering_fail read
    have legal : t.kind ≠ .illegal := by rw [isEnd]; decide
    have noted : noted failed t fault = failed.report (fault.diagnostic t) := if_neg legal
    rw [eq]
    refine ⟨List.suffix_nil.1 (atEnd.empty ▸ later), ?_⟩
    rw [reports, noted]
    exact (atEnd.report isEnd fault).faults

structure Context.Alike (ctx ctx' : Context) : Prop where
  ended : ctx.ending.kind = .eof
  ended' : ctx'.ending.kind = .eof
  inFunction : ctx'.inFunction = ctx.inFunction
  inBlock : ctx'.inBlock = ctx.inBlock

theorem Context.Alike.inBraces {ctx ctx' : Context} (alike : ctx.Alike ctx') :
    Context.Alike (Bracket.braces.enter ctx) (Bracket.braces.enter ctx') :=
  ⟨alike.ended, alike.ended', alike.inFunction, rfl⟩

theorem Context.Alike.inBody {ctx ctx' : Context} (alike : ctx.Alike ctx') :
    Context.Alike (Bracket.body.enter ctx) (Bracket.body.enter ctx') :=
  ⟨alike.ended, alike.ended', rfl, alike.inBlock⟩

structure Cursor.InStep (missing : List Token) (c c' : Cursor) : Prop where
  rest : c.rest = c'.rest ++ missing
  last : c'.last = c.last
  clean : c'.reported = []
  legal : ∀ t ∈ c.rest, t.kind ≠ .illegal

theorem Cursor.InStep.atEnd {c c' : Cursor} (inStep : c.InStep missing c') (empty : c'.rest = []) :
    c'.AtEnd := ⟨empty, by rw [inStep.clean]; nofun⟩

theorem Cursor.InStep.next {c c' : Cursor} (inStep : c.InStep missing c') (found : c'.rest = t :: ts)
    (ctx ctx' : Context) : c.rest.headD ctx.ending = c'.rest.headD ctx'.ending := by
  rw [inStep.rest, found]
  rfl

theorem Cursor.InStep.advance {c c' : Cursor} (inStep : c.InStep missing c') (found : c'.rest = t :: ts) :
    c.advance.InStep missing c'.advance := by
  obtain ⟨rest, last, reported⟩ := c
  obtain ⟨rest', last', reported'⟩ := c'
  cases found
  cases inStep.rest
  exact ⟨rfl, rfl, inStep.clean, fun t mem => inStep.legal t (List.mem_cons_of_mem _ mem)⟩

-- The short run gives the same and stays in step, or it ends at the end of its list.
def Reply.Follows (missing : List Token) (a : α) (next : Cursor) (short : Reply α) : Prop :=
  (∃ next', short = .ok a next' ∧ next.InStep missing next') ∨ short.AtEnd

structure Cut (r : Reader α) : Prop where
  forward : Forward r
  stays : ∀ {ctx c}, ctx.ending.kind = .eof → c.AtEnd → (r ctx c).AtEnd
  cut : ∀ {ctx ctx' c c' missing a next}, ctx.Alike ctx' → c.InStep missing c' → r ctx c = .ok a next →
    next.reported = [] → (r ctx' c').Follows missing a next

namespace Cut

theorem of_token {r : Reader α} (forward : Forward r)
    (stays : ∀ ctx c, ctx.ending.kind = .eof → c.AtEnd → (r ctx c).AtEnd)
    (cut : ∀ ctx ctx' c c' missing a next t ts, ctx.Alike ctx' → c.InStep missing c' → c'.rest = t :: ts →
      r ctx c = .ok a next → next.reported = [] → (r ctx' c').Follows missing a next) : Cut r where
  forward := forward
  stays := stays _ _
  cut {ctx ctx' c c' missing a next} alike inStep ran clean := by
    cases found : c'.rest with
    | nil => exact .inr (stays ctx' c' alike.ended' (inStep.atEnd found))
    | cons t ts => exact cut ctx ctx' c c' missing a next t ts alike inStep found ran clean

theorem pure (a : α) : Cut (Pure.pure a) := by
  refine of_token (.pure a) (fun _ _ _ atEnd => atEnd) ?_
  intro ctx ctx' c c' missing b next t ts _ inStep _ ran _
  cases ran
  exact .inl ⟨c', rfl, inStep⟩

theorem peek : Cut peek := by
  refine of_token Stepwise.forward (fun _ _ _ atEnd => atEnd) ?_
  intro ctx ctx' c c' missing a next t ts _ inStep found ran _
  cases ran
  rw [inStep.next found ctx ctx']
  exact .inl ⟨c', rfl, inStep⟩

theorem peekKind : Cut peekKind := by
  refine of_token Stepwise.forward (fun _ _ _ atEnd => atEnd) ?_
  intro ctx ctx' c c' missing a next t ts _ inStep found ran _
  cases ran
  rw [inStep.next found ctx ctx']
  exact .inl ⟨c', rfl, inStep⟩

theorem advance : Cut advance := by
  refine of_token .advance (fun ctx c _ atEnd => ?_) ?_
  · show c.advance.AtEnd
    rw [Cursor.advance, atEnd.empty]
    exact atEnd
  · intro ctx ctx' c c' missing a next t ts _ inStep found ran _
    cases ran
    rw [inStep.next found ctx ctx']
    exact .inl ⟨c'.advance, rfl, inStep.advance found⟩

theorem lastStop : Cut lastStop := by
  refine of_token Stepwise.forward (fun _ _ _ atEnd => atEnd) ?_
  intro ctx ctx' c c' missing a next t ts _ inStep found ran _
  cases ran
  refine .inl ⟨c', ?_, inStep⟩
  rw [Parse.lastStop, Reader.plain_reply, inStep.next found ctx ctx', inStep.last]

theorem failHere (fault : Fault) : Cut (@failHere α fault) := by
  refine of_token (.failHere fault) (fun ctx c ended atEnd => ⟨?_, atEnd⟩) ?_
  · rw [atEnd.empty]
    exact ended
  · intro ctx ctx' c c' missing a next t ts _ _ _ ran
    cases ran

theorem reportHere (fault : Fault) : Cut (reportHere fault) := by
  refine of_token Stepwise.forward (fun ctx c ended atEnd => atEnd.report ?_ fault) ?_
  · rw [atEnd.empty]
    exact ended
  · intro ctx ctx' c c' missing a next t ts _ _ _ ran clean
    cases ran
    exact absurd clean (by simp [Cursor.report])

theorem bind {r : Reader α} {f : α → Reader β} (first : Cut r) (second : ∀ a, Cut (f a)) :
    Cut (r >>= f) where
  forward := first.forward.bind fun a => (second a).forward
  stays ended atEnd := bind_atEnd (first.stays ended atEnd) fun a _ => (second a).stays ended
  cut {ctx ctx' c c' missing b last} alike inStep ran clean := by
    obtain ⟨a, mid, ran₁, ran₂⟩ := Reader.of_bind_ok ran
    have grown : mid.reported <+: [] := clean ▸ ((second a).forward.ok ran₂).2
    rcases first.cut alike inStep ran₁ (List.prefix_nil.1 grown) with ⟨mid', read, inStep'⟩ | atEnd
    · rw [Reader.bind_ok read]
      exact (second a).cut alike inStep' ran₂ clean
    · exact .inr (bind_atEnd atEnd fun a _ => (second a).stays alike.ended')

-- Both runs stand in a function body or neither does, and outside one the whole run reports.
theorem openReturn : Cut openReturn := by
  refine of_token Stepwise.forward (fun ctx c ended atEnd => ?_) ?_
  · have still : c.advance = c := by rw [Cursor.advance, atEnd.empty]
    rw [openReturn_eq, still, atEnd.empty]
    show (if ctx.inFunction then c else c.report (Fault.strayReturn.diagnostic ctx.ending)).AtEnd
    split
    · exact atEnd
    · exact atEnd.report ended _
  · intro ctx ctx' c c' missing a next t ts alike inStep found ran clean
    rw [openReturn_eq] at ran ⊢
    rw [alike.inFunction, ← inStep.next found ctx ctx']
    cases inside : ctx.inFunction with
    | false =>
      rw [inside] at ran
      cases ran
      exact absurd clean (by simp [Cursor.report])
    | true =>
      rw [inside] at ran
      cases ran
      exact .inl ⟨c'.advance, rfl, inStep.advance found⟩

-- Only a name is assigned to without a report, and then the sign is not looked at again.
theorem assignTail {value : Reader Expr} (left : Expr) (inner : Cut value) : Cut (assignTail value left) := by
  refine of_token (inner.forward.assignTail left) (fun ctx c ended atEnd => ?_) ?_
  · have unsigned : nextKind ctx c.rest ≠ .equal := by
      rw [nextKind, atEnd.empty]
      show ctx.ending.kind ≠ _
      rw [ended]
      decide
    rw [assignTail_value left unsigned]
    exact atEnd
  · intro ctx ctx' c c' missing a next t ts alike inStep found ran clean
    have same : nextKind ctx' c'.rest = nextKind ctx c.rest :=
      congrArg Token.kind (inStep.next found ctx ctx').symm
    by_cases signed : nextKind ctx c.rest = .equal
    · cases left with
      | name span x =>
        have assigned : Cut (Parse.advance >>= fun _ => value >>= fun v =>
            Pure.pure (Expr.assign (span.upTo v.span) x v)) :=
          advance.bind fun _ => inner.bind fun v => pure _
        rw [assignTail_name span x signed] at ran
        rw [assignTail_name span x (same.trans signed)]
        exact assigned.cut alike inStep ran clean
      | _ => exact absurd clean (assignTail_reports signed (by intro _ _ eq; cases eq) ran)
    · rw [assignTail_value left signed] at ran
      cases ran
      exact .inl ⟨c', assignTail_value left (same ▸ signed), inStep⟩

theorem within {r : Reader α} (inner : Cut r) (bracket : Bracket)
    (same : ∀ ctx, (bracket.enter ctx).ending = ctx.ending)
    (alike : ∀ ctx ctx', ctx.Alike ctx' → (bracket.enter ctx).Alike (bracket.enter ctx')) : Cut (within bracket r) where
  forward := {
    ok := inner.forward.ok
    fail := fun {ctx} _ _ _ _ ran => by
      obtain ⟨ahead, found⟩ := inner.forward.fail ran
      exact ⟨ahead, found.imp_right (·.trans (same ctx))⟩ }
  stays {ctx _} ended atEnd := inner.stays (same ctx ▸ ended) atEnd
  cut paired inStep ran clean := inner.cut (alike _ _ paired) inStep ran clean

theorem recovering {r : Reader α} (inner : Cut r) : Cut (recovering r) where
  forward := inner.forward.recovering
  stays ended atEnd := recovering_atEnd (inner.stays ended atEnd)
  cut {ctx ctx' c c' missing a next} alike inStep ran clean := by
    obtain ⟨b, rfl, whole⟩ := recovering_clean inner.forward alike.ended inStep.legal ran clean
    rcases inner.cut alike inStep whole clean with ⟨next', read, inStep'⟩ | atEnd
    · exact .inl ⟨next', recovering_ok read, inStep'⟩
    · exact .inr (recovering_atEnd atEnd)

end Cut

theorem Stepwise.cuts {r : Reader α} [made : Stepwise @Cut r] : Cut r := by
  induction made with
  | given known => exact known
  | pure a => exact .pure a
  | bind _ _ first second => exact first.bind second
  | peek => exact .peek
  | peekKind => exact .peekKind
  | advance => exact .advance
  | lastStop => exact .lastStop
  | failHere fault => exact .failHere fault
  | reportHere fault => exact .reportHere fault
  | openReturn => exact .openReturn
  | assignTail left _ value => exact value.assignTail left
  | inBraces _ inner => exact inner.within _ (fun _ => rfl) fun _ _ alike => alike.inBraces
  | inBody _ inner => exact inner.within _ (fun _ => rfl) fun _ _ alike => alike.inBody
  | recovering _ inner => exact inner.recovering

section

variable {size : Nat} {nested : Nested}

-- With nothing behind its keyword a function has no name, so it is read as one in an expression.
theorem function_cut (ended : ctx.ending.kind = .eof) (found : c.rest = [t]) (isFun : t.kind = .kwFun) :
    declaration (size + 1) nested ctx c =
      .fail ctx.ending (.expected .leftParen .afterLambdaName) ⟨[], some t, c.reported⟩ := by
  have sees : nextKind ctx c.rest = .kwFun := by rw [found]; exact isFun
  have opened : expect .leftParen .afterLambdaName ctx ⟨[], some t, c.reported⟩ =
      .fail ctx.ending (.expected .leftParen .afterLambdaName) ⟨[], some t, c.reported⟩ :=
    expect_fail (by show ctx.ending.kind ≠ _; rw [ended]; decide) _
  have failed : primary (size + 1) nested ctx c =
      .fail ctx.ending (.expected .leftParen .afterLambdaName) ⟨[], some t, c.reported⟩ := by
    have read : advance ctx c = .ok t ⟨[], some t, c.reported⟩ := by
      rw [advance, Reader.plain_reply, Cursor.advance, found]
      rfl
    rw [primary_eq]
    show primaryBy (size + 1) nested (nextKind ctx c.rest) ctx c = _
    rw [sees, primaryBy, Reader.bind_ok read, functionRest_eq]
    exact Reader.bind_fail (Reader.bind_fail opened)
  have single : secondKind c.rest ≠ .ident := by rw [found]; exact nofun
  rw [declaration_eq, sees, declarationBy, if_neg single, statement_eq]
  show statementBy (size + 1) nested (nextKind ctx c.rest) ctx c = _
  rw [sees]
  exact Reader.bind_fail (expression_fail (by rw [sees]; decide) failed)

theorem declarationBy_second (same : first = .kwFun → second' = second) :
    declarationBy size nested first second' = declarationBy size nested first second := by
  unfold declarationBy
  split
  · rw [same rfl]
  all_goals rfl

theorem Cut.declaration [nested.Stepwise @Cut] [nested.Stepwise @Forward] :
    Cut (declaration (size + 1) nested) := by
  refine .of_token (.declaration _) (fun ctx c ended atEnd => ?_) ?_
  · rw [declaration_end ended atEnd.empty]
    exact ⟨ended, atEnd⟩
  · intro ctx ctx' c c' missing a next t ts alike inStep found ran clean
    have first : nextKind ctx' c'.rest = nextKind ctx c.rest :=
      congrArg Token.kind (inStep.next found ctx ctx').symm
    by_cases alone : nextKind ctx c.rest = .kwFun ∧ ts = []
    · obtain ⟨isFun, rfl⟩ := alone
      have isFun : t.kind = .kwFun := by
        rw [← first, found] at isFun
        exact isFun
      rw [function_cut alike.ended' found isFun]
      exact .inr ⟨alike.ended', rfl, by rw [inStep.clean]; nofun⟩
    · have second (isFun : nextKind ctx c.rest = .kwFun) : secondKind c'.rest = secondKind c.rest := by
        cases ts with
        | nil => exact absurd ⟨isFun, rfl⟩ alone
        | cons u us => rw [inStep.rest, found]; rfl
      rw [declaration_eq] at ran ⊢
      rw [first, declarationBy_second second]
      exact Stepwise.cuts.cut alike inStep ran clean

end

instance level_cuts (n : Nat) : (level n).Stepwise @Cut :=
  Stepwise.level (fun _ _ => .declaration) n

theorem parse_level (ended : ending.kind = .eof) (ended' : ending'.kind = .eof)
    (inner : ∀ t ∈ start ++ missing, t.kind ≠ .eof) :
    ∃ n stmts stmts' c c',
      declarations (level n).declaration false n ⟨ending, 0, 0⟩ ⟨start ++ missing, none, []⟩
        = .ok stmts c ∧
      declarations (level n).declaration false n ⟨ending', 0, 0⟩ ⟨start, none, []⟩ = .ok stmts' c' ∧
      (parse (start ++ missing ++ [ending])).2 = c.reported ∧ (parse (start ++ [ending'])).2 = c'.reported := by
  obtain ⟨stmts, c, ran, eq⟩ := parse_body ended inner
  obtain ⟨stmts', c', ran', eq'⟩ :=
    parse_body ended' fun t mem => inner t (List.mem_append_left missing mem)
  have fewer : start.length ≤ (start ++ missing).length := by simp
  have agree : Agree start.length (declarations (level start.length).declaration false start.length)
      (declarations (level (start ++ missing).length).declaration false (start ++ missing).length) :=
    .declarations (level_agree fewer).declaration false (Nat.le_refl _) fewer
  rw [agree.same ended' (Nat.le_refl _)] at ran'
  exact ⟨_, stmts, stmts', c, c', ran, ran', congrArg Prod.snd eq, congrArg Prod.snd eq'⟩

theorem parse_beginning (ended : ending.kind = .eof) (ended' : ending'.kind = .eof)
    (inner : ∀ t ∈ start ++ missing, t.kind ≠ .eof) (legal : ∀ t ∈ start ++ missing, t.kind ≠ .illegal)
    (clean : (parse (start ++ missing ++ [ending])).2 = []) :
    ∀ d ∈ (parse (start ++ [ending'])).2, EndFault d := by
  obtain ⟨n, stmts, stmts', c, c', ran, ran', whole, short⟩ := parse_level ended ended' inner
  have cut : Cut (declarations (level n).declaration false n) := Stepwise.cuts
  have inStep : Cursor.InStep missing ⟨start ++ missing, none, []⟩ ⟨start, none, []⟩ := ⟨rfl, rfl, rfl, legal⟩
  have alike : Context.Alike ⟨ending, 0, 0⟩ ⟨ending', 0, 0⟩ := ⟨ended, ended', rfl, rfl⟩
  rw [short]
  rcases cut.cut alike inStep ran (whole ▸ clean) with ⟨next, read, inStep'⟩ | atEnd
  · rw [ran'] at read
    cases read
    rw [inStep'.clean]
    nofun
  · rw [ran'] at atEnd
    exact atEnd.faults

end TinyScript.Parse
