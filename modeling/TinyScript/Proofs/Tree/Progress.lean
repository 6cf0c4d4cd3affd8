import TinyScript.Proofs.Tree.Walk
import TinyScript.Proofs.Tree.Acceptance

namespace TinyScript

namespace Parse.Walk

theorem declaration_moves (n : Nat) (depth : Depth) (before : s.pos < endAt tokens) :
    ∃ stmt next, Runs tokens (level n).declaration depth s (.ok stmt next) ∧ s.pos < next.pos ∧
      next.pos ≤ endAt tokens := by
  have inside : s.pos ≤ endAt tokens := Nat.le_of_lt before
  have readable : Walkable (level n).declaration := walkable
  obtain ⟨out, runs⟩ : ∃ out, Runs tokens (level n).declaration depth s out := readable inside
  have told := runs.tells inside
  obtain ⟨stmt, last, total⟩ := level_declaration_total n (depth.context tokens) (s.cursor tokens)
  cases out with
  | fail t fault failed =>
    have impossible := total.symm.trans told.replies
    cases impossible
  | ok stmt next =>
    refine ⟨stmt, next, runs, ?_, told.inside⟩
    obtain ⟨t, _, _, rest⟩ := token_inside before
    have some : (s.cursor tokens).rest ≠ [] := fun none => nomatch rest.symm.trans none
    have shorter : ((body tokens).drop next.pos).length < ((body tokens).drop s.pos).length :=
      Shrinks.shorter told.replies some
    rw [rest_length, rest_length] at shorter
    omega

-- So the declarations of a program go to its end, if their bound allows for every token left.
theorem declarations_finish (n : Nat) (depth : Depth) (inside : s.pos ≤ endAt tokens)
    (enough : endAt tokens - s.pos ≤ bound) :
    ∃ stmts next, Runs tokens (declarations (level n).declaration false bound) depth s (.ok stmts next) ∧
      next.pos = endAt tokens := by
  induction bound generalizing s with
  | zero => exact ⟨[], s, .pure [], by omega⟩
  | succ bound ih =>
    have sees : Sees tokens s.pos _ := sees_iff.2 rfl
    unfold declarations
    by_cases atEnd : s.pos = endAt tokens
    · refine ⟨[], s, .bind (.peekKind sees) ?_, atEnd⟩
      rw [if_pos (.inl ((sees.eof_iff inside).2 atEnd))]
      exact .pure []
    · obtain ⟨stmt, mid, read, moved, within⟩ := declaration_moves n depth (Nat.lt_of_le_of_ne inside atEnd)
      obtain ⟨stmts, next, rest, ended⟩ := ih within (by omega)
      refine ⟨stmt.toList ++ stmts, next, .bind (.peekKind sees) ?_, ended⟩
      rw [if_neg (by simp [sees.eof_iff inside, atEnd])]
      exact .bind read (.bind rest (.pure _))

-- Where two readers agree, the walk of one is the only walk of the other.
theorem runs_agree {r r' : Reader α} (readable : Walkable r') (agree : Agree n r r')
    (inside : s.pos ≤ endAt tokens) (few : endAt tokens - s.pos ≤ n) (runs : Runs tokens r depth s out)
    (out' : Outcome α) : Runs tokens r' depth s out' ↔ out' = out := by
  have told := runs.tells inside
  have short : (s.cursor tokens).rest.length ≤ n := by
    show ((body tokens).drop s.pos).length ≤ n
    rwa [rest_length]
  have same : r (depth.context tokens) (s.cursor tokens) = r' (depth.context tokens) (s.cursor tokens) :=
    agree.same (ending_kind tokens) short
  rw [runs_iff readable inside]
  constructor
  · intro told'
    exact reply_inj told'.inside told.inside (told'.replies.symm.trans (same.symm.trans told.replies))
  · rintro rfl
    exact ⟨same.symm.trans told.replies, told.onward, told.inside⟩

theorem parse_of_reply (ran : declarations (level (endAt tokens)).declaration false (endAt tokens)
    (Depth.outer.context tokens) (Seat.start.cursor tokens) = .ok stmts c) :
    parse tokens = (stmts, c.reported) := by
  rw [← body_length] at ran
  unfold parse
  dsimp only
  split
  · next read =>
    cases read.symm.trans ran
    rfl
  · next read => cases read.symm.trans ran

theorem parse_walk (enough : endAt tokens ≤ n) (out : Outcome (List Stmt)) :
    Runs tokens (declarations (level n).declaration false n) .outer .start out ↔
      out = .ok (parse tokens).1 ⟨endAt tokens, (parse tokens).2⟩ := by
  have inside : Seat.start.pos ≤ endAt tokens := Nat.zero_le _
  obtain ⟨stmts, ⟨pos, reported⟩, runs, ended⟩ :=
    declarations_finish (endAt tokens) .outer inside (Nat.sub_le _ _)
  have parsed : parse tokens = (stmts, reported) := parse_of_reply (runs.tells inside).replies
  have agree : Agree (endAt tokens) (declarations (level (endAt tokens)).declaration false (endAt tokens))
      (declarations (level n).declaration false n) :=
    .declarations (level_agree enough).declaration false (Nat.le_refl _) enough
  rw [parsed, ← ended]
  exact runs_agree walkable agree inside (Nat.sub_le _ _) runs out

section

variable {ts : List Token} (inner : ∀ t ∈ ts, t.kind ≠ .eof) (last : Token) (rest : List Token)

include inner

theorem endAt_open : endAt ts = ts.length := by
  unfold endAt
  rw [List.findIdx_eq_length]
  simpa using inner

theorem body_open : body ts = ts := by
  rw [body_eq_take, endAt_open inner, List.take_length]

theorem body_closed (isEnd : last.kind = .eof) : body (ts ++ last :: rest) = ts := by
  unfold body
  rw [List.takeWhile_append_of_pos (by simpa using inner)]
  simp [isEnd]

theorem endAt_closed (isEnd : last.kind = .eof) : endAt (ts ++ last :: rest) = ts.length := by
  rw [← body_length, body_closed inner last rest isEnd]

theorem ending_closed (isEnd : last.kind = .eof) : ending (ts ++ last :: rest) = last := by
  rw [ending_eq, endAt_closed inner last rest isEnd]
  simp

theorem ending_open : ending ts = missingEnd ts := by
  rw [ending_eq, endAt_open inner]
  simp

end

theorem parse_congr (bodies : body tokens = body tokens') (endings : ending tokens = ending tokens') :
    parse tokens = parse tokens' := by
  unfold body at bodies
  unfold ending at endings
  unfold parse
  rw [bodies, endings]

end Parse.Walk

open Parse Parse.Walk

theorem reading_makes_progress (tokens : List Token) :
    (∀ n, endAt tokens ≤ n → ∀ out, Runs tokens (declarations (level n).declaration false n) .outer .start out ↔
      out = .ok (parse tokens).1 ⟨endAt tokens, (parse tokens).2⟩) ∧
    ∀ depth s, s.pos < endAt tokens → ∃ stmt next, s.pos < next.pos ∧ next.pos ≤ endAt tokens ∧
      ∀ n, endAt tokens - s.pos ≤ n → ∀ out, Runs tokens (level n).declaration depth s out ↔ out = .ok stmt next := by
  refine ⟨fun n enough out => parse_walk enough out, fun depth s before => ?_⟩
  obtain ⟨stmt, next, runs, moved, within⟩ := declaration_moves (endAt tokens - s.pos) depth before
  refine ⟨stmt, next, moved, within, fun n enough => ?_⟩
  exact runs_agree walkable (level_agree enough).declaration (Nat.le_of_lt before) (Nat.le_refl _) runs

theorem missing_end_supplied (ts rest : List Token) (nonempty : ts ≠ []) (inner : ∀ t ∈ ts, t.kind ≠ .eof) :
    parse ts = parse (ts ++ .ending (ts.getLast nonempty).span.stop :: rest) ∧
    ∀ n, ts.length ≤ n → ∀ tokens ∈ [ts, ts ++ .ending (ts.getLast nonempty).span.stop :: rest], ∀ out,
      Runs tokens (declarations (level n).declaration false n) .outer .start out ↔
        out = .ok (parse ts).1 ⟨ts.length, (parse ts).2⟩ := by
  have isEnd : (Token.ending (ts.getLast nonempty).span.stop).kind = .eof := rfl
  have missing : missingEnd ts = .ending (ts.getLast nonempty).span.stop := by
    unfold missingEnd
    rw [List.getLast?_eq_some_getLast nonempty]
    rfl
  have same : parse ts = parse (ts ++ .ending (ts.getLast nonempty).span.stop :: rest) := by
    apply parse_congr
    · rw [body_open inner, body_closed inner _ rest isEnd]
    · rw [ending_open inner, ending_closed inner _ rest isEnd, missing]
  refine ⟨same, fun n enough tokens mem out => ?_⟩
  rcases List.mem_cons.1 mem with rfl | mem
  · have ended := endAt_open inner
    rw [← ended] at enough ⊢
    exact parse_walk enough out
  · have ended := endAt_closed inner _ rest isEnd
    rw [← List.mem_singleton.1 mem] at ended same
    rw [← ended] at enough ⊢
    rw [same]
    exact parse_walk enough out

-- `print 1; var x = } print`, broken off, and a statement behind its end.
def brokenProgram : List Token :=
  let mark (kind : Kind) (offset : Nat) : Token :=
    ⟨kind, [], .nil, ⟨⟨offset, 1, offset + 1⟩, ⟨offset + 1, 1, offset + 2⟩⟩⟩
  [mark .kwPrint 0, mark .number 2, mark .semicolon 3, mark .kwVar 5, mark .ident 7, mark .equal 9,
   mark .rightBrace 11, mark .kwPrint 13]

theorem missing_end_supplied_brokenProgram :
    brokenProgram ≠ [] ∧ (∀ t ∈ brokenProgram, t.kind ≠ .eof) ∧
    parse brokenProgram = parse (brokenProgram ++ .ending ⟨14, 1, 15⟩ :: brokenProgram) ∧
    (parse brokenProgram).1.length = 1 ∧ (parse brokenProgram).2.map (·.span.start.offset) = [11, 14] := by
  have nonempty : brokenProgram ≠ [] := by decide
  have inner : ∀ t ∈ brokenProgram, t.kind ≠ .eof := by decide
  exact ⟨nonempty, inner, (missing_end_supplied brokenProgram brokenProgram nonempty inner).1, by decide, by decide⟩

end TinyScript
