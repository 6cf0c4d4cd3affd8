import TinyScript.Proofs.Tree.Concatenation
import TinyScript.Proofs.Tree.Lockstep
import TinyScript.Token.Scan

namespace TinyScript

namespace Parse

def Cursor.after (notes : List Diagnostic) (c : Cursor) : Cursor := { c with reported := notes ++ c.reported }

def Reply.after (notes : List Diagnostic) : Reply α → Reply α
  | .ok a next => .ok a (next.after notes)
  | .fail t fault next => .fail t fault (next.after notes)

theorem Cursor.after_advance (notes : List Diagnostic) (c : Cursor) :
    (c.after notes).advance = c.advance.after notes := by
  obtain ⟨rest, last, reported⟩ := c
  cases rest <;> rfl

theorem Cursor.after_report (notes : List Diagnostic) (c : Cursor) (d : Diagnostic) :
    (c.after notes).report d = (c.report d).after notes := by
  unfold Cursor.report Cursor.after
  rw [List.append_assoc]

theorem resume_after (notes : List Diagnostic) (inBlock : Bool) (reported : List Diagnostic)
    (last : Option Token) (rest : List Token) :
    resume inBlock (notes ++ reported) last rest = (resume inBlock reported last rest).after notes := by
  induction rest generalizing last with
  | nil => rfl
  | cons t ts ih =>
    unfold resume
    split
    · rfl
    · exact ih (some t)

def Blind (r : Reader α) : Prop := ∀ notes ctx c, r ctx (c.after notes) = (r ctx c).after notes

namespace Blind

variable {r : Reader α}

theorem bind {f : α → Reader β} (first : Blind r) (second : ∀ a, Blind (f a)) : Blind (r >>= f) := by
  intro notes ctx c
  have same := first notes ctx c
  cases read : r ctx c with
  | ok a next =>
    rw [read] at same
    rw [Reader.bind_ok read, Reader.bind_ok same]
    exact second a notes ctx next
  | fail t fault next =>
    rw [read] at same
    rw [Reader.bind_fail read, Reader.bind_fail same]
    rfl

theorem pure (a : α) : Blind (Pure.pure a) := fun _ _ _ => rfl

theorem advance : Blind advance := by
  intro notes ctx c
  simp only [Parse.advance, Reader.plain_reply, Cursor.after_advance]
  rfl

theorem report (t : Token) (fault : Fault) : Blind (report t fault) := by
  intro notes ctx c
  simp only [Parse.report, Reader.plain_reply, Cursor.after_report]
  rfl

theorem reportHere (fault : Fault) : Blind (reportHere fault) := by
  intro notes ctx c
  simp only [Parse.reportHere, Reader.plain_reply, Cursor.after_report]
  rfl

theorem openReturn : Blind openReturn := by
  refine bind advance fun start => bind (fun _ _ _ => rfl) fun inside => ?_
  cases inside with
  | true => exact pure start
  | false => exact bind (report start _) fun _ => pure start

theorem assignTail {value : Reader Expr} (left : Expr) (inner : Blind value) :
    Blind (assignTail value left) := by
  refine bind (fun _ _ _ => rfl) fun t => ?_
  split
  · refine bind advance fun _ => bind inner fun v => ?_
    cases left with
    | name span x => exact pure _
    | _ => exact bind (report t _) fun _ => pure _
  · exact pure left

theorem recovering (inner : Blind r) : Blind (recovering r) := by
  intro notes ctx c
  have same := inner notes ctx c
  cases read : r ctx c with
  | ok a next =>
    rw [read] at same
    rw [recovering_ok read, recovering_ok same]
    rfl
  | fail t fault failed =>
    rw [read] at same
    have noting : noted (failed.after notes) t fault = (noted failed t fault).after notes := by
      unfold noted
      split
      · rfl
      · exact Cursor.after_report notes failed _
    have moving (n : Cursor) : moved (c.after notes) (n.after notes) = (moved c n).after notes := by
      unfold moved
      rw [Cursor.after_advance]
      show (if n.rest.length = c.rest.length then _ else _) = _
      split <;> rfl
    rw [recovering_resume read, recovering_resume same, noting, moving]
    exact congrArg (Reply.ok none) (resume_after notes _ _ _ _)

end Blind

theorem Stepwise.blind {r : Reader α} [made : Stepwise @Blind r] : Blind r := by
  induction made with
  | given known => exact known
  | pure a => exact .pure a
  | bind _ _ first second => exact first.bind second
  | peek => exact fun _ _ _ => rfl
  | peekKind => exact fun _ _ _ => rfl
  | advance => exact .advance
  | lastStop => exact fun _ _ _ => rfl
  | failHere fault => exact fun _ _ _ => rfl
  | reportHere fault => exact .reportHere fault
  | openReturn => exact .openReturn
  | assignTail left _ value => exact value.assignTail left
  | inBraces _ inner => exact fun notes _ c => inner notes _ c
  | inBody _ inner => exact fun notes _ c => inner notes _ c
  | recovering _ inner => exact inner.recovering

instance level_blind (n : Nat) : (level n).Stepwise @Blind := by
  refine Stepwise.level (fun n known notes ctx c => ?_) n
  rw [declaration_eq, declaration_eq]
  exact Stepwise.blind notes ctx c

-- A statement that begins with its keyword does not depend on the token before it: the keyword is read
-- first, or it is the fault and is skipped.
theorem declaration_behind (n : Nat) (starts : startsStatement t.kind = true) (last last' : Option Token) :
    (level (n + 1)).declaration ctx ⟨t :: ts, last, notes⟩ =
      (level (n + 1)).declaration ctx ⟨t :: ts, last', notes⟩ := by
  show recovering (declaration (n + 1) (level n)) ctx _ = recovering (declaration (n + 1) (level n)) ctx _
  by_cases isClass : t.kind = .kwClass
  · have failed (last : Option Token) : declaration (n + 1) (level n) ctx ⟨t :: ts, last, notes⟩ =
        .fail t .classes ⟨t :: ts, last, notes⟩ := by
      rw [declaration_eq]
      show declarationBy (n + 1) (level n) t.kind _ ctx _ = _
      rw [isClass]
      rfl
    have skipped (last : Option Token) :
        moved ⟨t :: ts, last, notes⟩ (noted ⟨t :: ts, last, notes⟩ t .classes) =
          ⟨ts, some t, notes ++ [Fault.classes.diagnostic t]⟩ := by
      have legal : t.kind ≠ .illegal := by rw [isClass]; decide
      have note : noted ⟨t :: ts, last, notes⟩ t .classes =
          ⟨t :: ts, last, notes ++ [Fault.classes.diagnostic t]⟩ := if_neg legal
      rw [note]
      exact if_pos rfl
    rw [recovering_resume (failed last), recovering_resume (failed last'), skipped, skipped]
  · have same : declaration (n + 1) (level n) ctx ⟨t :: ts, last, notes⟩ =
        declaration (n + 1) (level n) ctx ⟨t :: ts, last', notes⟩ := by
      rw [declaration_eq, declaration_eq]
      show declarationBy (n + 1) (level n) t.kind _ ctx _ = declarationBy (n + 1) (level n) t.kind _ ctx _
      obtain ⟨kind, lexeme, literal, span⟩ := t
      cases kind <;> first | (cases starts; done) | exact absurd rfl isClass | rfl
    exact recovering_congr same rfl

theorem declarations_behind (n bound : Nat) (ctx : Context) (starts : startsStatement t.kind = true)
    (ts : List Token) (last : Option Token) (notes : List Diagnostic) :
    declarations (level (n + 1)).declaration false (bound + 1) ctx ⟨t :: ts, last, notes⟩ =
      (declarations (level (n + 1)).declaration false (bound + 1) ctx ⟨t :: ts, none, []⟩).after notes := by
  have going (last : Option Token) : nextKind ctx (Cursor.mk (t :: ts) last notes).rest ≠ .eof := by
    intro eof
    rw [show t.kind = .eof from eof] at starts
    cases starts
  have blind : Blind (declarations (level (n + 1)).declaration false (bound + 1)) := Stepwise.blind
  rw [← blind notes ctx, Cursor.after, List.append_nil, declarations_going _ _ (going last),
    declarations_going _ _ (going none)]
  exact Reader.bind_congr (declaration_behind n starts last none)

theorem declarations_step {item : Reader (Option Stmt)} (going : nextKind ctx c.rest ≠ .eof)
    (read : item ctx c = .ok s next) (more : declarations item false bound ctx next = .ok ss final) :
    declarations item false (bound + 1) ctx c = .ok (s.toList ++ ss) final := by
  rw [declarations_going item bound going, Reader.bind_ok read, Reader.bind_ok more]
  rfl

theorem declaration_seam (n : Nat) (alike : Context.Alike ctx ctx') (beside : c.Beside tail 0 (t :: ts) c') :
    ∃ s next next' later, (level n).declaration ctx c = .ok s next ∧
      (level n).declaration ctx' c' = .ok s next' ∧ next.Beside tail 0 later next' ∧ later <:+ ts := by
  have outside : ¬0 < 0 := Nat.lt_irrefl 0
  have replies := (level_together tail n).declaration 0 ctx ctx' c c' (t :: ts) alike
    (fun inside => absurd inside outside) beside ⟨t, ts, rfl, fun inside => absurd inside outside⟩
  generalize read : (level n).declaration ctx c = reply at replies
  generalize read' : (level n).declaration ctx' c' = reply' at replies
  cases replies with
  | @ok s next next' later beside' _ =>
    have moved := (Stepwise.forward.ok read').1
    have fewer := Shrinks.shorter read' (by rw [beside.rest']; exact List.cons_ne_nil t ts)
    rw [beside.rest', beside'.rest'] at moved fewer
    refine ⟨s, next, next', later, rfl, rfl, beside', (List.suffix_cons_iff.1 moved).resolve_left ?_⟩
    rintro rfl
    exact Nat.lt_irrefl _ fewer
  | fail =>
    obtain ⟨_, _, ran⟩ := level_declaration_total n ctx c
    rw [read] at ran
    cases ran

-- The two readings arrive at the seam together, with the same statements. The induction is on the bound,
-- and the tokens in front of the seam get fewer with every declaration.
theorem declarations_seam (n : Nat) (alike : Context.Alike ctx ctx') (beside : c.Beside tail 0 ahead c')
    (inner : ∀ t ∈ ahead, t.kind ≠ .eof) (enough : ahead.length + tail.length ≤ bound) :
    ∃ ss final' bound' last notes, tail.length ≤ bound' ∧
      declarations (level n).declaration false bound ctx' c' = .ok ss final' ∧
      ∀ more final,
        declarations (level n).declaration false bound' ctx ⟨tail, last, notes⟩ = .ok more final →
        declarations (level n).declaration false bound ctx c = .ok (ss ++ more) final := by
  induction bound generalizing c c' ahead with
  | zero =>
    obtain ⟨u, us, rfl, _⟩ := beside.starts
    simp at enough
  | succ bound ih =>
    cases ahead with
    | nil =>
      have stopped : nextKind ctx' c'.rest = .eof := by
        rw [beside.rest']
        exact alike.ended'
      have here : c = ⟨tail, c.last, c.reported⟩ := congrArg (Cursor.mk · c.last c.reported) beside.rest
      refine ⟨[], c', bound + 1, c.last, c.reported, by simpa using enough, ?_, fun more final ran => ?_⟩
      · exact declarations_stop _ _ stopped
      · rw [here]
        exact ran
    | cons t ts =>
      have going : nextKind ctx c.rest ≠ .eof := by
        rw [nextKind, beside.next ctx]
        exact inner t List.mem_cons_self
      have going' : nextKind ctx' c'.rest ≠ .eof := by
        rw [nextKind, beside.next' ctx']
        exact inner t List.mem_cons_self
      obtain ⟨s, next, next', later, read, read', beside', moved⟩ := declaration_seam n alike beside
      have shorter : later.length < (t :: ts).length := Nat.lt_succ_of_le moved.length_le
      obtain ⟨ss, final', bound', last, notes, few, ran, joined⟩ :=
        ih beside' (fun u mem => inner u (List.mem_cons_of_mem t (moved.subset mem))) (by omega)
      refine ⟨s.toList ++ ss, final', bound', last, notes, few, declarations_step going' read' ran, ?_⟩
      intro more final rest
      rw [List.append_assoc]
      exact declarations_step going read (joined more final rest)

-- The whole list is read as the list in front of the seam and then as the list behind it, with the reports
-- of the latter behind those made before. All three are read by the readers for the whole list.
theorem declarations_joined (alike : Context.Alike ctx ctx') (endless : ∀ t ∈ g, t.kind ≠ .eof)
    (nested : nests 0 g = true) (closed : g.getLast?.map Token.kind = some .semicolon)
    (starts : startsStatement u.kind = true)
    (first : declarations (level g.length).declaration false g.length ctx' ⟨g, none, []⟩ = .ok ss cg)
    (second : declarations (level (u :: us).length).declaration false (u :: us).length ctx
      ⟨u :: us, none, []⟩ = .ok tt ct) :
    ∃ notes, declarations (level (g ++ u :: us).length).declaration false (g ++ u :: us).length ctx
      ⟨g ++ u :: us, none, []⟩ = .ok (ss ++ tt) (ct.after notes) := by
  have beside : Cursor.Beside (u :: us) 0 g ⟨g ++ u :: us, none, []⟩ ⟨g, none, []⟩ := by
    obtain ⟨v, isLast, semicolon⟩ := Option.map_eq_some_iff.1 closed
    refine ⟨rfl, rfl, rfl, ⟨u, us, rfl, starts⟩, ⟨0, Nat.le_refl 0, nested⟩, ?_, ?_⟩
    · intro w isLast'
      cases isLast.symm.trans isLast'
      exact semicolon
    · rintro rfl
      cases isLast
  have fewer : g.length ≤ (g ++ u :: us).length := by simp
  have fewer' : (u :: us).length ≤ (g ++ u :: us).length := by simp
  obtain ⟨ss', final', bound, last, notes, few, ran, joined⟩ :=
    declarations_seam (g ++ u :: us).length alike beside endless (Nat.le_of_eq List.length_append.symm)
  rw [(declarations_agree fewer fewer).same alike.ended' (Nat.le_refl _)] at first
  rw [(declarations_agree fewer' few).same alike.ended (Nat.le_refl _)] at second
  cases ran.symm.trans first
  refine ⟨notes, joined tt (ct.after notes) ?_⟩
  obtain ⟨bound, rfl⟩ : ∃ b, bound = b + 1 :=
    Nat.exists_eq_add_one.2 (Nat.lt_of_lt_of_le (Nat.succ_pos _) few)
  obtain ⟨n, long⟩ : ∃ n, (g ++ u :: us).length = n + 1 :=
    Nat.exists_eq_add_one.2 (Nat.lt_of_lt_of_le (Nat.succ_pos _) fewer')
  rw [long] at second ⊢
  rw [declarations_behind n bound ctx starts us last notes, second]
  rfl

end Parse

open Parse

def readable (tokens : List Token) : List Token := tokens.takeWhile fun t => t.kind ≠ .eof

def endOf (tokens : List Token) : Token := (tokens.find? fun t => t.kind = .eof).getD (missingEnd tokens)

theorem endOf_kind (tokens : List Token) : (endOf tokens).kind = .eof := by
  unfold endOf
  cases found : tokens.find? fun t => t.kind = .eof with
  | none => rfl
  | some t => simpa using List.find?_some found

theorem parse_run (tokens : List Token) : ∃ stmts c,
    declarations (level (readable tokens).length).declaration false (readable tokens).length
      ⟨endOf tokens, 0, 0⟩ ⟨readable tokens, none, []⟩ = .ok stmts c ∧
    parse tokens = (stmts, c.reported) := by
  obtain ⟨stmts, c, ran⟩ := declarations_total (level_declaration_total (readable tokens).length) false
    (readable tokens).length ⟨endOf tokens, 0, 0⟩ ⟨readable tokens, none, []⟩
  refine ⟨stmts, c, ran, ?_⟩
  unfold readable endOf at ran
  simp only [parse, ran]

section

variable {g t : List Token} (endless : ∀ u ∈ g, u.kind ≠ .eof)
include endless

theorem readable_append : readable (g ++ t) = g ++ readable t :=
  List.takeWhile_append_of_pos fun u mem => decide_eq_true (endless u mem)

theorem endOf_append (u : Token) (us : List Token) : endOf (g ++ u :: us) = endOf (u :: us) := by
  have none : g.find? (fun t => t.kind = .eof) = none :=
    List.find?_eq_none.2 fun u mem eof => endless u mem (of_decide_eq_true eof)
  have last : missingEnd (g ++ u :: us) = missingEnd (u :: us) := by
    unfold missingEnd
    rw [List.getLast?_append, List.getLast?_cons]
    rfl
  unfold endOf
  rw [List.find?_append, none, Option.none_or, last]

end

theorem recovery_keeps_next (g t : List Token) (endless : ∀ u ∈ g, u.kind ≠ .eof)
    (nested : nests 0 g = true) (closed : g.getLast?.map Token.kind = some .semicolon)
    (starts : t.head?.any (fun u => startsStatement u.kind) = true) :
    (parse (g ++ t)).1 = (parse g).1 ++ (parse t).1 ∧ (parse t).2 <:+ (parse (g ++ t)).2 := by
  obtain ⟨u, us, rfl⟩ := List.exists_cons_of_ne_nil (show t ≠ [] by rintro rfl; cases starts)
  have starts : startsStatement u.kind = true := starts
  have inner : u.kind ≠ .eof := by
    intro eof
    rw [eof] at starts
    cases starts
  have alone : readable g = g := by simpa [readable] using readable_append (t := []) endless
  have tail : readable (u :: us) = u :: readable us := List.takeWhile_cons_of_pos (decide_eq_true inner)
  have alike : Context.Alike ⟨endOf (u :: us), 0, 0⟩ ⟨endOf g, 0, 0⟩ :=
    ⟨endOf_kind _, endOf_kind _, rfl, rfl⟩
  obtain ⟨all, final, whole, eqWhole⟩ := parse_run (g ++ u :: us)
  obtain ⟨ss, cg, first, eqFirst⟩ := parse_run g
  obtain ⟨tt, ct, second, eqSecond⟩ := parse_run (u :: us)
  rw [readable_append endless, endOf_append endless, tail] at whole
  rw [alone] at first
  rw [tail] at second
  obtain ⟨notes, joined⟩ := declarations_joined alike endless nested closed starts first second
  cases whole.symm.trans joined
  rw [eqWhole, eqFirst, eqSecond]
  exact ⟨rfl, notes, rfl⟩

-- A loop that is abandoned in its header, in the parameters of a function, two braces deep.
def brokenTokens : List Token :=
  (scan (text "for (var x = \x7b fun (a, \x7b @ ) \x7d if ( \x7d ; x = ;")).dropLast

def nextTokens : List Token := scan (text "print \"a\"; \x7d x")

theorem recovery_keeps_next_abandoned :
    (parse brokenTokens).2 ≠ [] ∧ (parse nextTokens).1.length = 1 ∧
    (parse (brokenTokens ++ nextTokens)).1 = (parse brokenTokens).1 ++ (parse nextTokens).1 ∧
    (parse nextTokens).2 <:+ (parse (brokenTokens ++ nextTokens)).2 :=
  ⟨by decide +kernel, by decide +kernel, recovery_keeps_next brokenTokens nextTokens (by decide +kernel)
    (by decide +kernel) (by decide +kernel) (by decide +kernel)⟩

end TinyScript
