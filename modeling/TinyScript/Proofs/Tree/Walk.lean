import TinyScript.Proofs.Tree.Levels

namespace TinyScript.Parse.Walk

def endAt (tokens : List Token) : Nat := tokens.findIdx (·.kind = .eof)

inductive Sees (tokens : List Token) (pos : Nat) : Token → Prop where
  | token : tokens[pos]? = some t → Sees tokens pos t
  | beyond : tokens.length ≤ pos → Sees tokens pos (missingEnd tokens)

inductive SeesSecond (tokens : List Token) (pos : Nat) : Kind → Prop where
  | token : tokens[pos + 1]? = some t → SeesSecond tokens pos t.kind
  | beyond : tokens.length ≤ pos + 1 → SeesSecond tokens pos .eof

inductive Leaves (tokens : List Token) : Nat → Option Token → Prop where
  | nothing : Leaves tokens 0 none
  | token : tokens[pos]? = some t → Leaves tokens (pos + 1) (some t)

inductive Moves (tokens : List Token) (pos : Nat) : Nat → Prop where
  | on : Sees tokens pos t → t.kind ≠ .eof → Moves tokens pos (pos + 1)
  | stay : Sees tokens pos t → t.kind = .eof → Moves tokens pos pos

-- A failed step that has read nothing is one token on.
inductive Budges (tokens : List Token) (start : Nat) : Nat → Nat → Prop where
  | first : Moves tokens start pos → Budges tokens start start pos
  | later : pos ≠ start → Budges tokens start pos pos

-- Where a skipping reader stops: behind a semicolon, before a keyword that opens a statement, and in braces
-- before a closing one.
def Stops (inBlock : Bool) (last : Option Token) (t : Token) : Prop :=
  last.any (·.kind = .semicolon) = true ∨ opensStatement t.kind = true ∨ inBlock = true ∧ t.kind = .rightBrace

inductive Skips (tokens : List Token) (inBlock : Bool) : Nat → Nat → Prop where
  | ends : Sees tokens pos t → t.kind = .eof → Skips tokens inBlock pos pos
  | stops : Sees tokens pos t → t.kind ≠ .eof → Leaves tokens pos last → Stops inBlock last t →
    Skips tokens inBlock pos pos
  | on : Sees tokens pos t → t.kind ≠ .eof → Leaves tokens pos last → ¬Stops inBlock last t →
    Skips tokens inBlock (pos + 1) stop → Skips tokens inBlock pos stop

-- How many function bodies and braces a reader stands in.
structure Depth where
  functions : Nat
  blocks : Nat

namespace Depth

def outer : Depth := ⟨0, 0⟩

def inFunction (depth : Depth) : Bool := 0 < depth.functions

def inBlock (depth : Depth) : Bool := 0 < depth.blocks

end Depth

-- How many tokens were read, and the reports so far.
structure Seat where
  pos : Nat
  reported : List Diagnostic

def Seat.start : Seat := ⟨0, []⟩

def Seat.note (s : Seat) (d : Diagnostic) : Seat := { s with reported := s.reported ++ [d] }

def Seat.noted (s : Seat) (t : Token) (fault : Fault) : Seat :=
  if t.kind = .illegal then s else s.note (fault.diagnostic t)

inductive Outcome (α : Type) where
  | ok (value : α) (seat : Seat)
  | fail (token : Token) (fault : Fault) (seat : Seat)

def Outcome.seat : Outcome α → Seat
  | .ok _ seat => seat
  | .fail _ _ seat => seat

inductive Runs (tokens : List Token) : {α : Type} → Reader α → Depth → Seat → Outcome α → Prop where
  | pure (a : α) : Runs tokens (Pure.pure a) depth s (.ok a s)
  | bind {r : Reader α} {f : α → Reader β} : Runs tokens r depth s (.ok a mid) →
    Runs tokens (f a) depth mid out → Runs tokens (r >>= f) depth s out
  | bindFail {r : Reader α} {f : α → Reader β} : Runs tokens r depth s (.fail t fault failed) →
    Runs tokens (r >>= f) depth s (.fail t fault failed)
  | peek : Sees tokens s.pos t → Runs tokens peek depth s (.ok t s)
  | peekKind : Sees tokens s.pos t → Runs tokens peekKind depth s (.ok t.kind s)
  | peekSecond : Sees tokens s.pos t → t.kind ≠ .eof → SeesSecond tokens s.pos kind →
    Runs tokens peekSecond depth s (.ok kind s)
  | advance : Sees tokens s.pos t → Moves tokens s.pos pos →
    Runs tokens advance depth s (.ok t { s with pos })
  | failAt (t : Token) (fault : Fault) : Runs tokens (@failAt α t fault) depth s (.fail t fault s)
  | report (t : Token) (fault : Fault) :
    Runs tokens (report t fault) depth s (.ok () (s.note (fault.diagnostic t)))
  | lastStop : Leaves tokens s.pos (some t) → Runs tokens lastStop depth s (.ok t.span.stop s)
  | firstStart : Leaves tokens s.pos none → Sees tokens s.pos t →
    Runs tokens lastStop depth s (.ok t.span.start s)
  | inFunction : Runs tokens inFunction depth s (.ok depth.inFunction s)
  | inBraces {r : Reader α} : Runs tokens r { depth with blocks := depth.blocks + 1 } s out →
    Runs tokens (within .braces r) depth s out
  | inBody {r : Reader α} : Runs tokens r { depth with functions := depth.functions + 1 } s out →
    Runs tokens (within .body r) depth s out
  | recovered {r : Reader α} : Runs tokens r depth s (.ok a next) →
    Runs tokens (recovering r) depth s (.ok (some a) next)
  | recovering {r : Reader α} : Runs tokens r depth s (.fail t fault failed) →
    Budges tokens s.pos failed.pos pos → Skips tokens depth.inBlock pos stop →
    Runs tokens (recovering r) depth s (.ok none ⟨stop, (failed.noted t fault).reported⟩)

-- The cursor that stands at a position.

def body (tokens : List Token) : List Token := tokens.takeWhile fun t => t.kind ≠ .eof

def ending (tokens : List Token) : Token := (tokens.find? fun t => t.kind = .eof).getD (missingEnd tokens)

def lastRead (tokens : List Token) : Nat → Option Token
  | 0 => none
  | pos + 1 => tokens[pos]?

def Seat.cursor (tokens : List Token) (s : Seat) : Cursor :=
  ⟨(body tokens).drop s.pos, lastRead tokens s.pos, s.reported⟩

def Depth.context (tokens : List Token) (depth : Depth) : Context :=
  ⟨ending tokens, depth.functions, depth.blocks⟩

def Outcome.reply (tokens : List Token) : Outcome α → Reply α
  | .ok a s => .ok a (s.cursor tokens)
  | .fail t fault s => .fail t fault (s.cursor tokens)

section

variable {tokens : List Token}

theorem body_eq_take (tokens : List Token) : body tokens = tokens.take (endAt tokens) := by
  unfold body endAt
  rw [List.takeWhile_eq_take_findIdx_not]
  simp

theorem endAt_le_length (tokens : List Token) : endAt tokens ≤ tokens.length := List.findIdx_le_length

theorem body_length (tokens : List Token) : (body tokens).length = endAt tokens := by
  rw [body_eq_take, List.length_take, Nat.min_eq_left (endAt_le_length tokens)]

theorem ending_eq (tokens : List Token) : ending tokens = tokens[endAt tokens]?.getD (missingEnd tokens) := by
  unfold ending endAt
  rw [List.find?_eq_getElem?_findIdx]

theorem ending_kind (tokens : List Token) : (ending tokens).kind = .eof := by
  unfold ending
  cases found : tokens.find? fun t => t.kind = .eof with
  | none => rfl
  | some t => simpa using List.find?_some found

theorem token_inside (inside : pos < endAt tokens) :
    ∃ t, tokens[pos]? = some t ∧ t.kind ≠ .eof ∧ (body tokens).drop pos = t :: (body tokens).drop (pos + 1) := by
  have here : pos < tokens.length := Nat.lt_of_lt_of_le inside (endAt_le_length tokens)
  have within : pos < (body tokens).length := by rwa [body_length]
  refine ⟨tokens[pos], List.getElem?_eq_getElem here, ?_, ?_⟩
  · have other := List.not_of_lt_findIdx inside
    simpa using other
  · rw [List.drop_eq_getElem_cons within]
    simp only [body_eq_take, List.getElem_take]

theorem rest_endAt (tokens : List Token) : (body tokens).drop (endAt tokens) = [] := by
  rw [← body_length, List.drop_length]

theorem sees_iff : Sees tokens pos t ↔ t = tokens[pos]?.getD (missingEnd tokens) := by
  constructor
  · rintro (found | beyond)
    · rw [found, Option.getD_some]
    · rw [List.getElem?_eq_none beyond, Option.getD_none]
  · rintro rfl
    cases found : tokens[pos]? with
    | some t => exact .token found
    | none => exact .beyond (List.getElem?_eq_none_iff.1 found)

theorem sees_next (inside : pos ≤ endAt tokens) :
    Sees tokens pos t ↔ t = ((body tokens).drop pos).headD (ending tokens) := by
  rw [sees_iff]
  rcases Nat.lt_or_eq_of_le inside with before | rfl
  · obtain ⟨u, here, _, rest⟩ := token_inside before
    rw [here, rest]
    rfl
  · rw [rest_endAt, ending_eq]
    rfl

theorem Sees.eof_iff (sees : Sees tokens pos t) (inside : pos ≤ endAt tokens) :
    t.kind = .eof ↔ pos = endAt tokens := by
  rw [sees_next inside] at sees
  rw [sees]
  rcases Nat.lt_or_eq_of_le inside with before | rfl
  · obtain ⟨u, _, other, rest⟩ := token_inside before
    rw [rest]
    exact ⟨fun isEnd => absurd isEnd other, fun atEnd => absurd atEnd (Nat.ne_of_lt before)⟩
  · rw [rest_endAt]
    exact ⟨fun _ => rfl, fun _ => ending_kind tokens⟩

theorem Sees.ahead (sees : Sees tokens pos t) (inside : pos ≤ endAt tokens) (inner : t.kind ≠ .eof) :
    pos < endAt tokens ∧ tokens[pos]? = some t ∧ (body tokens).drop pos = t :: (body tokens).drop (pos + 1) := by
  have before : pos < endAt tokens :=
    Nat.lt_of_le_of_ne inside fun atEnd => inner ((sees.eof_iff inside).2 atEnd)
  obtain ⟨u, here, _, rest⟩ := token_inside before
  have same : t = u := by rw [sees_iff.1 sees, here, Option.getD_some]
  exact ⟨before, same ▸ here, same ▸ rest⟩

theorem SeesSecond.eq (second : SeesSecond tokens pos k) (before : pos < endAt tokens) :
    k = secondKind ((body tokens).drop pos) := by
  have next : k = (tokens[pos + 1]?.getD (missingEnd tokens)).kind := by
    cases second with
    | token found => rw [found, Option.getD_some]
    | beyond past => rw [List.getElem?_eq_none past]; rfl
  obtain ⟨_, _, _, rest⟩ := token_inside before
  rw [next, (sees_next before).1 (sees_iff.2 rfl), rest]
  unfold secondKind
  rw [List.drop_succ_cons, List.drop_zero]
  cases (body tokens).drop (pos + 1) with
  | nil => exact ending_kind tokens
  | cons t ts => rfl

theorem seesSecond_exists (tokens : List Token) (pos : Nat) : ∃ k, SeesSecond tokens pos k := by
  cases found : tokens[pos + 1]? with
  | some t => exact ⟨t.kind, .token found⟩
  | none => exact ⟨.eof, .beyond (List.getElem?_eq_none_iff.1 found)⟩

theorem Leaves.eq (left : Leaves tokens pos last) : last = lastRead tokens pos := by
  cases left with
  | nothing => rfl
  | token found => exact found.symm

theorem leaves_inside (inside : pos ≤ endAt tokens) : Leaves tokens pos (lastRead tokens pos) := by
  cases pos with
  | zero => exact .nothing
  | succ pos =>
    obtain ⟨t, here, _⟩ := token_inside inside
    rw [lastRead, here]
    exact .token here

theorem Moves.advance {s : Seat} (moves : Moves tokens s.pos pos) (inside : s.pos ≤ endAt tokens) :
    (s.cursor tokens).advance = Seat.cursor tokens { s with pos } ∧ s.pos ≤ pos ∧ pos ≤ endAt tokens := by
  unfold Seat.cursor Cursor.advance
  dsimp only
  cases moves with
  | on sees inner =>
    obtain ⟨before, here, rest⟩ := sees.ahead inside inner
    refine ⟨?_, Nat.le_succ _, before⟩
    rw [rest, lastRead, here]
  | stay sees isEnd =>
    refine ⟨?_, Nat.le_refl _, inside⟩
    rw [(sees.eof_iff inside).1 isEnd, rest_endAt]

theorem moves_exists (tokens : List Token) (pos : Nat) : ∃ next, Moves tokens pos next := by
  have sees : Sees tokens pos _ := sees_iff.2 rfl
  by_cases isEnd : (tokens[pos]?.getD (missingEnd tokens)).kind = .eof
  · exact ⟨pos, .stay sees isEnd⟩
  · exact ⟨pos + 1, .on sees isEnd⟩

theorem rest_length (tokens : List Token) (pos : Nat) :
    ((body tokens).drop pos).length = endAt tokens - pos := by
  rw [List.length_drop, body_length]

theorem noted_cursor (s : Seat) (t : Token) (fault : Fault) :
    noted (s.cursor tokens) t fault = (s.noted t fault).cursor tokens := by
  unfold noted Seat.noted
  split <;> rfl

theorem noted_pos (s : Seat) (t : Token) (fault : Fault) : (s.noted t fault).pos = s.pos := by
  unfold Seat.noted
  split <;> rfl

theorem Budges.moved {s failed : Seat} (budges : Budges tokens s.pos failed.pos pos)
    (inside : s.pos ≤ endAt tokens) (within : failed.pos ≤ endAt tokens) :
    moved (s.cursor tokens) (failed.cursor tokens) = Seat.cursor tokens { failed with pos } ∧
      failed.pos ≤ pos ∧ pos ≤ endAt tokens := by
  unfold Parse.moved
  have lengths : (failed.cursor tokens).rest.length = (s.cursor tokens).rest.length ↔ failed.pos = s.pos := by
    show ((body tokens).drop failed.pos).length = ((body tokens).drop s.pos).length ↔ _
    rw [rest_length, rest_length]
    omega
  obtain ⟨failedAt, reported⟩ := failed
  cases budges with
  | first moves =>
    rw [if_pos (lengths.2 rfl)]
    exact moves.advance (s := ⟨s.pos, reported⟩) inside
  | later past =>
    rw [if_neg fun still => past (lengths.1 still)]
    exact ⟨rfl, Nat.le_refl _, within⟩

theorem budges_exists (tokens : List Token) (start pos : Nat) : ∃ next, Budges tokens start pos next := by
  by_cases still : pos = start
  · obtain ⟨next, moves⟩ := moves_exists tokens start
    subst still
    exact ⟨next, .first moves⟩
  · exact ⟨pos, .later still⟩

theorem stops_iff : Stops inBlock last t ↔
    (last.any (·.kind = .semicolon) || opensStatement t.kind || (inBlock && t.kind = .rightBrace)) = true := by
  simp [Stops, or_assoc]

theorem Skips.resume (skips : Skips tokens inBlock pos stop) (inside : pos ≤ endAt tokens)
    (reported : List Diagnostic) :
    resume inBlock reported (lastRead tokens pos) ((body tokens).drop pos) = Seat.cursor tokens ⟨stop, reported⟩ ∧
      pos ≤ stop ∧ stop ≤ endAt tokens := by
  induction skips with
  | ends sees isEnd =>
    refine ⟨?_, Nat.le_refl _, inside⟩
    unfold Seat.cursor
    rw [(sees.eof_iff inside).1 isEnd, rest_endAt]
    rfl
  | stops sees inner left here =>
    obtain ⟨_, _, rest⟩ := sees.ahead inside inner
    refine ⟨?_, Nat.le_refl _, inside⟩
    unfold Seat.cursor
    rw [rest, Parse.resume, ← left.eq, if_pos (stops_iff.1 here)]
  | on sees inner left onward _ ih =>
    obtain ⟨before, here, rest⟩ := sees.ahead inside inner
    obtain ⟨skipped, later, within⟩ := ih before
    refine ⟨?_, Nat.le_of_succ_le later, within⟩
    rw [lastRead, here] at skipped
    rw [rest, Parse.resume, ← left.eq, if_neg fun stops => onward (stops_iff.2 stops), skipped]

theorem skips_exists (inBlock : Bool) (inside : pos ≤ endAt tokens) : ∃ stop, Skips tokens inBlock pos stop := by
  induction left : endAt tokens - pos generalizing pos with
  | zero =>
    have sees : Sees tokens pos _ := sees_iff.2 rfl
    exact ⟨pos, .ends sees ((sees.eof_iff inside).2 (by omega))⟩
  | succ n ih =>
    have before : pos < endAt tokens := by omega
    obtain ⟨t, here, inner, _⟩ := token_inside before
    by_cases stops : Stops inBlock (lastRead tokens pos) t
    · exact ⟨pos, .stops (.token here) inner (leaves_inside inside) stops⟩
    · obtain ⟨stop, later⟩ := ih before (by omega)
      exact ⟨stop, .on (.token here) inner (leaves_inside inside) stops later⟩

end

-- What the reader itself comes to at the cursor is the outcome, and the outcome lies further on.
structure Tells (tokens : List Token) (r : Reader α) (depth : Depth) (s : Seat) (out : Outcome α) : Prop where
  replies : r (depth.context tokens) (s.cursor tokens) = out.reply tokens
  onward : s.pos ≤ out.seat.pos
  inside : out.seat.pos ≤ endAt tokens

theorem Tells.recovering {r : Reader α} {s failed : Seat} (failing : Tells tokens r depth s (.fail t fault failed))
    (inside : s.pos ≤ endAt tokens) (budges : Budges tokens s.pos failed.pos pos)
    (skips : Skips tokens depth.inBlock pos stop) :
    Tells tokens (recovering r) depth s (.ok none ⟨stop, (failed.noted t fault).reported⟩) := by
  rw [← noted_pos failed t fault] at budges
  obtain ⟨budged, later, within⟩ := budges.moved inside (noted_pos failed t fault ▸ failing.inside)
  obtain ⟨resumed, further, ended⟩ := skips.resume within (failed.noted t fault).reported
  refine ⟨?_, ?_, ended⟩
  · refine (recovering_resume failing.replies).trans ?_
    rw [noted_cursor, budged]
    exact congrArg (Reply.ok none) resumed
  · have onward : s.pos ≤ failed.pos := failing.onward
    rw [noted_pos] at later
    exact Nat.le_trans onward (Nat.le_trans later further)

theorem Runs.tells {r : Reader α} (runs : Runs tokens r depth s out) (inside : s.pos ≤ endAt tokens) :
    Tells tokens r depth s out := by
  induction runs with
  | pure a => exact ⟨rfl, Nat.le_refl _, inside⟩
  | bind _ _ first second =>
    have one := first inside
    have two := second one.inside
    exact ⟨(Reader.bind_ok one.replies).trans two.replies, Nat.le_trans one.onward two.onward, two.inside⟩
  | bindFail _ first =>
    have one := first inside
    exact ⟨Reader.bind_fail one.replies, one.onward, one.inside⟩
  | peek sees =>
    refine ⟨?_, Nat.le_refl _, inside⟩
    rw [(sees_next inside).1 sees]
    rfl
  | peekKind sees =>
    refine ⟨?_, Nat.le_refl _, inside⟩
    rw [(sees_next inside).1 sees]
    rfl
  | peekSecond sees inner second =>
    refine ⟨?_, Nat.le_refl _, inside⟩
    rw [second.eq (sees.ahead inside inner).1]
    rfl
  | advance sees moves =>
    obtain ⟨moved, later, within⟩ := moves.advance inside
    refine ⟨?_, later, within⟩
    rw [(sees_next inside).1 sees]
    exact congrArg (Reply.ok _) moved
  | failAt t fault => exact ⟨rfl, Nat.le_refl _, inside⟩
  | report t fault => exact ⟨rfl, Nat.le_refl _, inside⟩
  | lastStop left =>
    refine ⟨?_, Nat.le_refl _, inside⟩
    show Reply.ok ((lastRead tokens _).elim _ _) _ = _
    rw [← left.eq]
    rfl
  | firstStart left sees =>
    refine ⟨?_, Nat.le_refl _, inside⟩
    show Reply.ok ((lastRead tokens _).elim _ _) _ = _
    rw [← left.eq, (sees_next inside).1 sees]
    rfl
  | inFunction => exact ⟨rfl, Nat.le_refl _, inside⟩
  | inBraces _ inner => exact ⟨(inner inside).replies, (inner inside).onward, (inner inside).inside⟩
  | inBody _ inner => exact ⟨(inner inside).replies, (inner inside).onward, (inner inside).inside⟩
  | recovered _ inner => exact ⟨recovering_ok (inner inside).replies, (inner inside).onward, (inner inside).inside⟩
  | recovering _ budges skips inner => exact (inner inside).recovering inside budges skips

def Walkable (r : Reader α) : Prop :=
  ∀ ⦃tokens depth s⦄, s.pos ≤ endAt tokens → ∃ out, Runs tokens r depth s out

namespace Walkable

theorem of_sees {r : Reader α} (walk : ∀ tokens depth s t, Sees tokens s.pos t → ∃ out, Runs tokens r depth s out) :
    Walkable r := fun tokens depth s _ => walk tokens depth s _ (sees_iff.2 rfl)

theorem bind {r : Reader α} {f : α → Reader β} (first : Walkable r) (second : ∀ a, Walkable (f a)) :
    Walkable (r >>= f) := by
  intro tokens depth s inside
  obtain ⟨out, runs⟩ := first inside
  cases out with
  | ok a mid =>
    obtain ⟨out, further⟩ := second a (runs.tells inside).inside
    exact ⟨out, .bind runs further⟩
  | fail t fault failed => exact ⟨_, .bindFail runs⟩

theorem byToken {f : Token → Reader α} (rest : ∀ tokens depth s t, s.pos ≤ endAt tokens → Sees tokens s.pos t →
    ∃ out, Runs tokens (f t) depth s out) : Walkable (Parse.peek >>= f) := by
  intro tokens depth s inside
  have sees : Sees tokens s.pos _ := sees_iff.2 rfl
  obtain ⟨out, runs⟩ := rest tokens depth s _ inside sees
  exact ⟨out, .bind (.peek sees) runs⟩

theorem pure (a : α) : Walkable (Pure.pure a) := fun _ _ _ _ => ⟨_, .pure a⟩

theorem peek : Walkable peek := .of_sees fun _ _ _ _ sees => ⟨_, .peek sees⟩

theorem advance : Walkable advance := .of_sees fun tokens _ s _ sees =>
  let ⟨_, moves⟩ := moves_exists tokens s.pos
  ⟨_, .advance sees moves⟩

theorem report (t : Token) (fault : Fault) : Walkable (report t fault) := fun _ _ _ _ => ⟨_, .report t fault⟩

theorem lastStop : Walkable lastStop := by
  intro tokens depth s inside
  have left := leaves_inside inside
  cases last : lastRead tokens s.pos with
  | none => exact ⟨_, .firstStart (last ▸ left) (sees_iff.2 rfl)⟩
  | some t => exact ⟨_, .lastStop (last ▸ left)⟩

theorem checkReturn (start : Token) : Walkable (checkReturn start) := by
  refine .bind (fun _ _ _ _ => ⟨_, .inFunction⟩) fun inside => ?_
  cases inside with
  | false => exact .bind (.report start _) fun _ => .pure start
  | true => exact .pure start

theorem assignTail {value : Reader Expr} (left : Expr) (inner : Walkable value) :
    Walkable (assignTail value left) := by
  refine .bind .peek fun t => ?_
  split
  · refine .bind .advance fun _ => .bind inner fun value => ?_
    split
    · exact .pure _
    · exact .bind (.report t _) fun _ => .pure left
  · exact .pure left

theorem recovering {r : Reader α} (inner : Walkable r) : Walkable (recovering r) := by
  intro tokens depth s inside
  obtain ⟨out, runs⟩ := inner inside
  cases out with
  | ok a next => exact ⟨_, .recovered runs⟩
  | fail t fault failed =>
    have failing := runs.tells inside
    obtain ⟨pos, budges⟩ := budges_exists tokens s.pos failed.pos
    have within := (budges.moved inside failing.inside).2.2
    obtain ⟨stop, skips⟩ := skips_exists depth.inBlock within
    exact ⟨_, .recovering runs budges skips⟩

end Walkable

theorem walkable {r : Reader α} [made : Stepwise @Walkable r] : Walkable r := by
  induction made with
  | given known => exact known
  | pure a => exact .pure a
  | bind _ _ first second => exact first.bind second
  | peek => exact .peek
  | peekKind => exact .of_sees fun _ _ _ _ sees => ⟨_, .peekKind sees⟩
  | advance => exact .advance
  | lastStop => exact .lastStop
  | failHere fault => exact .bind .peek fun t _ _ _ _ => ⟨_, .failAt t fault⟩
  | reportHere fault => exact .bind .peek fun t => .report t fault
  | openReturn => exact .bind .advance .checkReturn
  | assignTail left _ value => exact value.assignTail left
  | inBraces _ inner =>
    intro tokens depth s inside
    obtain ⟨out, runs⟩ := inner inside
    exact ⟨out, .inBraces runs⟩
  | inBody _ inner =>
    intro tokens depth s inside
    obtain ⟨out, runs⟩ := inner inside
    exact ⟨out, .inBody runs⟩
  | recovering _ inner => exact inner.recovering

-- The second token is looked up behind a keyword only, so never behind an end.
theorem Walkable.declaration {nested : Nested} (size : Nat) [nested.Stepwise @Walkable] :
    Walkable (declaration size nested) := by
  refine .byToken fun tokens depth s t inside sees => ?_
  split
  · next isFun =>
    obtain ⟨kind, second⟩ := seesSecond_exists tokens s.pos
    have chosen : Walkable
        (if kind = .ident then functionDeclaration size nested else statement size nested) := walkable
    obtain ⟨out, runs⟩ := chosen inside
    exact ⟨out, .bind (.peekSecond sees (by rw [isFun]; decide) second) runs⟩
  · have declared : Walkable (variableDeclaration nested) := walkable
    exact declared inside
  · exact ⟨_, .failAt t .classes⟩
  · have stated : Walkable (statement size nested) := walkable
    exact stated inside

instance level_walkable (n : Nat) : (level n).Stepwise @Walkable :=
  Stepwise.level (fun n _ => .declaration (n + 1)) n

theorem cursor_inj {s s' : Seat} (inside : s.pos ≤ endAt tokens) (inside' : s'.pos ≤ endAt tokens)
    (same : s.cursor tokens = s'.cursor tokens) : s = s' := by
  obtain ⟨pos, reported⟩ := s
  obtain ⟨pos', reported'⟩ := s'
  have rests : (body tokens).drop pos = (body tokens).drop pos' := congrArg Cursor.rest same
  have lengths : endAt tokens - pos = endAt tokens - pos' := by
    rw [← rest_length, ← rest_length, rests]
  have positions : pos = pos' := by
    have : pos ≤ endAt tokens := inside
    have : pos' ≤ endAt tokens := inside'
    omega
  have reports : reported = reported' := congrArg Cursor.reported same
  rw [positions, reports]

theorem reply_inj {out out' : Outcome α} (inside : out.seat.pos ≤ endAt tokens)
    (inside' : out'.seat.pos ≤ endAt tokens) (same : out.reply tokens = out'.reply tokens) : out = out' := by
  cases out with
  | ok a s =>
    cases out' with
    | ok a' s' =>
      injection same with values cursors
      have seats : s = s' := cursor_inj inside inside' cursors
      rw [values, seats]
    | fail => cases same
  | fail t fault s =>
    cases out' with
    | ok => cases same
    | fail t' fault' s' =>
      injection same with places faults cursors
      have seats : s = s' := cursor_inj inside inside' cursors
      rw [places, faults, seats]

theorem runs_iff {r : Reader α} (walkable : Walkable r) (inside : s.pos ≤ endAt tokens) :
    Runs tokens r depth s out ↔ Tells tokens r depth s out := by
  refine ⟨fun runs => runs.tells inside, fun told => ?_⟩
  obtain ⟨out', runs⟩ : ∃ out', Runs tokens r depth s out' := walkable inside
  have told' := runs.tells inside
  have same : out = out' := reply_inj told.inside told'.inside (told.replies.symm.trans told'.replies)
  exact same ▸ runs

end TinyScript.Parse.Walk
