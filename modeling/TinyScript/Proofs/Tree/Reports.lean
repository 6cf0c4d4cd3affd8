import TinyScript.Proofs.Tree.Stepwise

namespace TinyScript

namespace Parse

-- What is reported later was reported before, or is a fault at a token that was still to be read.
def Cursor.Answers (ctx : Context) (c next : Cursor) : Prop :=
  ∀ d ∈ next.reported, d ∈ c.reported ∨
    ∃ (fault : Fault) (t : Token), d = fault.diagnostic t ∧ (t ∈ c.rest ∨ t = ctx.ending)

namespace Cursor.Answers

variable {ctx : Context} {c mid next : Cursor}

theorem of_same (same : next.reported = c.reported) : c.Answers ctx next := by
  intro d mem
  rw [same] at mem
  exact .inl mem

theorem trans (first : c.Answers ctx mid) (moved : mid.Ahead c) (second : mid.Answers ctx next) :
    c.Answers ctx next := by
  intro d mem
  rcases second d mem with old | ⟨fault, t, isFault, here⟩
  · exact first d old
  · exact .inr ⟨fault, t, isFault, here.imp_left fun mem => moved.1.subset mem⟩

theorem report (here : t ∈ c.rest ∨ t = ctx.ending) (fault : Fault) (told : c.Answers ctx next) :
    c.Answers ctx (next.report (fault.diagnostic t)) := by
  intro d mem
  rcases List.mem_append.1 mem with old | new
  · exact told d old
  · exact .inr ⟨fault, t, List.mem_singleton.1 new, here⟩

end Cursor.Answers

def Reply.next : Reply α → Cursor
  | .ok _ next => next
  | .fail _ _ next => next

structure Reports (r : Reader α) : Prop where
  forward : Forward r
  told : ∀ (ctx : Context) (c : Cursor), c.Answers ctx (r ctx c).next

namespace Reports

theorem of_same {r : Reader α} (forward : Forward r)
    (same : ∀ (ctx : Context) (c : Cursor), (r ctx c).next.reported = c.reported) : Reports r :=
  ⟨forward, fun ctx c => .of_same (same ctx c)⟩

theorem advance : Reports advance := .of_same .advance fun _ c => c.advance_reported

theorem bind {r : Reader α} {f : α → Reader β} (first : Reports r) (second : ∀ a, Reports (f a)) :
    Reports (r >>= f) := by
  refine ⟨first.forward.bind fun a => (second a).forward, fun ctx c => ?_⟩
  have told := first.told ctx c
  cases read : r ctx c with
  | ok a mid =>
    rw [read] at told
    rw [Reader.bind_ok read]
    exact told.trans (first.forward.ok read) ((second a).told ctx mid)
  | fail t fault failed =>
    rw [read] at told
    rw [Reader.bind_fail read]
    exact told

theorem openReturn : Reports openReturn := by
  refine ⟨Stepwise.forward, fun ctx c => ?_⟩
  have read := advance.told ctx c
  rw [openReturn_eq]
  show c.Answers ctx (if ctx.inFunction then c.advance
    else c.advance.report (Fault.strayReturn.diagnostic (c.rest.headD ctx.ending)))
  split
  · exact read
  · exact read.report (next_mem ctx c) _

-- The sign is reported after the value was read, so it is no longer to be read by then.
theorem assignTail {value : Reader Expr} (left : Expr) (inner : Reports value) :
    Reports (assignTail value left) := by
  refine ⟨inner.forward.assignTail left, fun ctx c => ?_⟩
  by_cases signed : nextKind ctx c.rest = .equal
  · have valued : Reports (Parse.advance >>= fun _ => value) := advance.bind fun _ => inner
    cases read : (Parse.advance >>= fun _ => value) ctx c with
    | fail t fault failed =>
      have told := valued.told ctx c
      rw [read] at told
      cases left with
      | name span x =>
        rw [assignTail_name span x signed, ← Reader.bind_assoc, Reader.bind_fail read]
        exact told
      | _ =>
        rw [assignTail_other signed (by intro _ _ eq; cases eq), ← Reader.bind_assoc,
          Reader.bind_fail read]
        exact told
    | ok v next =>
      have told := valued.told ctx c
      rw [read] at told
      cases left with
      | name span x =>
        rw [assignTail_name span x signed, ← Reader.bind_assoc, Reader.bind_ok read]
        exact told
      | _ =>
        rw [assignTail_other signed (by intro _ _ eq; cases eq), ← Reader.bind_assoc,
          Reader.bind_ok read]
        exact told.report (next_mem ctx c) _
  · rw [assignTail_value left signed]
    exact .of_same rfl

theorem recovering {r : Reader α} (inner : Reports r) : Reports (recovering r) := by
  refine ⟨inner.forward.recovering, fun ctx c => ?_⟩
  have told := inner.told ctx c
  cases read : r ctx c with
  | ok a next =>
    rw [read] at told
    rw [recovering_ok read]
    exact told
  | fail t fault failed =>
    rw [read] at told
    obtain ⟨next, eq, _, reports, _⟩ := recovering_fail read
    have heard : c.Answers ctx (noted failed t fault) := by
      unfold noted
      split
      · exact told
      · exact told.report (inner.forward.fail read).2 fault
    rw [eq]
    intro d mem
    change d ∈ next.reported at mem
    rw [reports] at mem
    exact heard d mem

end Reports

theorem Stepwise.reports {r : Reader α} [made : Stepwise @Reports r] : Reports r := by
  induction made with
  | given known => exact known
  | pure a => exact .of_same (.pure a) fun _ _ => rfl
  | bind _ _ first second => exact first.bind second
  | peek => exact .of_same Stepwise.forward fun _ _ => rfl
  | peekKind => exact .of_same Stepwise.forward fun _ _ => rfl
  | advance => exact .advance
  | lastStop => exact .of_same Stepwise.forward fun _ _ => rfl
  | failHere fault => exact .of_same (.failHere fault) fun _ _ => rfl
  | reportHere fault =>
    exact ⟨Stepwise.forward, fun ctx c => .report (next_mem ctx c) fault (.of_same rfl)⟩
  | openReturn => exact .openReturn
  | assignTail left _ value => exact value.assignTail left
  | inBraces _ inner => exact ⟨⟨inner.forward.ok, inner.forward.fail⟩, fun _ c => inner.told _ c⟩
  | inBody _ inner => exact ⟨⟨inner.forward.ok, inner.forward.fail⟩, fun _ c => inner.told _ c⟩
  | recovering _ inner => exact inner.recovering

instance level_reports (n : Nat) : (level n).Stepwise @Reports := by
  refine Stepwise.level (fun n known => ⟨.declaration (n + 1), fun ctx c => ?_⟩) n
  rw [declaration_eq]
  exact Stepwise.reports.told ctx c

end Parse

open Parse

theorem parse_reports {tokens : List Token} (reported : d ∈ (parse tokens).2) :
    ∃ (fault : Fault) (t : Token), d = fault.diagnostic t ∧ (t ∈ tokens ∨ t = missingEnd tokens) := by
  let body := tokens.takeWhile fun t => t.kind ≠ .eof
  let ending := (tokens.find? fun t => t.kind = .eof).getD (missingEnd tokens)
  have reads : Reports (declarations (level body.length).declaration false body.length) := Stepwise.reports
  have told := reads.told ⟨ending, 0, 0⟩ ⟨body, none, []⟩
  have found : d ∈ (declarations (level body.length).declaration false body.length ⟨ending, 0, 0⟩
      ⟨body, none, []⟩).next.reported := by
    unfold parse at reported
    dsimp only at reported
    split at reported
    all_goals
      rename_i read
      rw [read]
      exact reported
  rcases told d found with old | ⟨fault, t, isFault, here⟩
  · cases old
  · refine ⟨fault, t, isFault, ?_⟩
    rcases here with mem | atEnd
    · exact .inl ((List.takeWhile_prefix _).subset mem)
    · cases search : tokens.find? fun t => t.kind = .eof with
      | none => exact .inr (by rw [atEnd]; simp only [ending, search, Option.getD_none])
      | some t' =>
        refine .inl ?_
        rw [atEnd]
        simp only [ending, search, Option.getD_some]
        exact List.mem_of_find?_eq_some search

end TinyScript
