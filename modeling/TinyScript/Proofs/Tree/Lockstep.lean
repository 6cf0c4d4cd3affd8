import TinyScript.Proofs.Tree.Truncation

namespace TinyScript

-- From so many open braces on, every brace is closed and none is closed that is not open.
def nests : (depth : Nat) → List Token → Bool
  | depth, [] => depth = 0
  | depth, t :: ts =>
    if t.kind = .leftBrace then nests (depth + 1) ts
    else if t.kind = .rightBrace then 0 < depth && nests (depth - 1) ts
    else nests depth ts

def startsStatement : Kind → Bool
  | .kwClass | .kwVar | .kwFor | .kwIf | .kwWhile | .kwPrint | .kwReturn => true
  | _ => false

namespace Parse

-- So many braces at least are still to be closed, over those that will be opened.
def Unclosed (k : Nat) (ahead : List Token) : Prop := ∃ depth, k ≤ depth ∧ nests depth ahead = true

namespace Unclosed

variable {t : Token} {ts : List Token}

theorem mono (unclosed : Unclosed k ahead) (fewer : j ≤ k) : Unclosed j ahead := by
  obtain ⟨depth, enough, nested⟩ := unclosed
  exact ⟨depth, Nat.le_trans fewer enough, nested⟩

theorem ne_nil (unclosed : Unclosed (k + 1) ahead) : ahead ≠ [] := by
  rintro rfl
  obtain ⟨depth, enough, nested⟩ := unclosed
  simp only [nests, decide_eq_true_eq] at nested
  omega

theorem opened (unclosed : Unclosed k (t :: ts)) (isOpen : t.kind = .leftBrace) : Unclosed (k + 1) ts := by
  obtain ⟨depth, enough, nested⟩ := unclosed
  rw [nests, if_pos isOpen] at nested
  exact ⟨depth + 1, Nat.succ_le_succ enough, nested⟩

theorem closed (unclosed : Unclosed (k + 1) (t :: ts)) (isClose : t.kind = .rightBrace) : Unclosed k ts := by
  obtain ⟨depth, enough, nested⟩ := unclosed
  rw [nests, if_neg (by rw [isClose]; decide), if_pos isClose, Bool.and_eq_true] at nested
  exact ⟨depth - 1, Nat.le_sub_of_add_le enough, nested.2⟩

theorem passed (unclosed : Unclosed k (t :: ts)) (other : t.kind ≠ .rightBrace) : Unclosed k ts := by
  by_cases isOpen : t.kind = .leftBrace
  · exact (unclosed.opened isOpen).mono (Nat.le_succ k)
  · obtain ⟨depth, enough, nested⟩ := unclosed
    rw [nests, if_neg isOpen, if_neg other] at nested
    exact ⟨depth, enough, nested⟩

theorem skipped (unclosed : Unclosed k (t :: ts)) (mayClose : 0 < k → t.kind ≠ .rightBrace) :
    Unclosed k ts := by
  by_cases isClose : t.kind = .rightBrace
  · obtain rfl : k = 0 := Nat.eq_zero_of_not_pos fun inside => mayClose inside isClose
    obtain ⟨depth, _, nested⟩ := unclosed
    rw [nests, if_neg (by rw [isClose]; decide), if_pos isClose, Bool.and_eq_true] at nested
    exact ⟨depth - 1, Nat.zero_le _, nested.2⟩
  · exact unclosed.passed isClose

end Unclosed

-- Both cursors have the tokens `ahead` in front of the seam, and the first one the `tail` behind it.
structure Cursor.Beside (tail : List Token) (k : Nat) (ahead : List Token) (c c' : Cursor) : Prop where
  rest : c.rest = ahead ++ tail
  rest' : c'.rest = ahead
  last : c'.last = c.last
  starts : ∃ u us, tail = u :: us ∧ startsStatement u.kind = true
  unclosed : Unclosed k ahead
  closed : ∀ t ∈ ahead.getLast?, t.kind = .semicolon
  seam : ahead = [] → c.last.any (·.kind = .semicolon) = true

namespace Cursor.Beside

variable {tail ahead : List Token} {c c' : Cursor}

theorem mono (beside : c.Beside tail k ahead c') (unclosed : Unclosed j ahead) : c.Beside tail j ahead c' :=
  { beside with unclosed }

theorem next (beside : c.Beside tail k (t :: ts) c') (ctx : Context) : c.rest.headD ctx.ending = t := by
  rw [beside.rest]
  rfl

theorem next' (beside : c.Beside tail k (t :: ts) c') (ctx : Context) : c'.rest.headD ctx.ending = t := by
  rw [beside.rest']
  rfl

theorem atSeam (beside : c.Beside tail k [] c') (ctx : Context) :
    startsStatement (c.rest.headD ctx.ending).kind = true := by
  obtain ⟨u, us, rfl, starts⟩ := beside.starts
  rw [beside.rest]
  exact starts

theorem reported (beside : c.Beside tail k ahead c') (notes notes' : List Diagnostic) :
    Cursor.Beside tail k ahead { c with reported := notes } { c' with reported := notes' } :=
  ⟨beside.rest, beside.rest', beside.last, beside.starts, beside.unclosed, beside.closed, beside.seam⟩

theorem behind (beside : c.Beside tail k (t :: ts) c') (unclosed : Unclosed j ts)
    (notes notes' : List Diagnostic) :
    Cursor.Beside tail j ts ⟨ts ++ tail, some t, notes⟩ ⟨ts, some t, notes'⟩ where
  rest := rfl
  rest' := rfl
  last := rfl
  starts := beside.starts
  unclosed := unclosed
  closed u isLast := beside.closed u (by rw [List.getLast?_cons, show ts.getLast? = some u from isLast]; rfl)
  seam := by
    rintro rfl
    exact decide_eq_true (beside.closed t rfl)

theorem advance (beside : c.Beside tail k (t :: ts) c') (unclosed : Unclosed j ts) :
    c.advance.Beside tail j ts c'.advance := by
  have moved : c.advance = ⟨ts ++ tail, some t, c.reported⟩ := by
    unfold Cursor.advance
    rw [beside.rest]
    rfl
  have moved' : c'.advance = ⟨ts, some t, c'.reported⟩ := by
    unfold Cursor.advance
    rw [beside.rest']
  rw [moved, moved']
  exact beside.behind unclosed _ _

-- Whatever is skipped, it is the same in both lists, and the seam is not skipped.
theorem resume (beside : c.Beside tail k ahead c') {inBlock : Bool} (blocks : 0 < k → inBlock = true) :
    ∃ later, (resume inBlock c.reported c.last c.rest).Beside tail k later
      (Parse.resume inBlock c'.reported c'.last c'.rest) := by
  induction ahead generalizing c c' with
  | nil =>
    obtain ⟨u, us, isTail, _⟩ := beside.starts
    have stopped : Parse.resume inBlock c.reported c.last c.rest = c := by
      rw [beside.rest, isTail, List.nil_append, Parse.resume, beside.seam rfl]
      rw [Bool.true_or, Bool.true_or, if_pos rfl, ← isTail]
      obtain ⟨rest, last, reported⟩ := c
      exact congrArg (Cursor.mk · last reported) beside.rest.symm
    have stopped' : Parse.resume inBlock c'.reported c'.last c'.rest = c' := by
      obtain ⟨rest, last, reported⟩ := c'
      obtain rfl : rest = [] := beside.rest'
      rfl
    rw [stopped, stopped']
    exact ⟨[], beside⟩
  | cons t ts ih =>
    obtain ⟨rest, last, reported⟩ := c
    obtain ⟨rest', last', reported'⟩ := c'
    obtain rfl : rest = t :: (ts ++ tail) := beside.rest
    obtain rfl : rest' = t :: ts := beside.rest'
    obtain rfl : last' = last := beside.last
    dsimp only [Parse.resume]
    split
    · exact ⟨t :: ts, beside⟩
    · rename_i going
      have mayClose : 0 < k → t.kind ≠ .rightBrace := by
        intro inside isClose
        rw [blocks inside] at going
        simp [isClose] at going
      exact ih (beside.behind (beside.unclosed.skipped mayClose) _ _)

end Cursor.Beside

-- Replies that say the same of the two lists. The faults may differ, and so may the reports.
inductive Reply.Alike (tail : List Token) (k : Nat) (q : α → List Token → Prop) :
    Reply α → Reply α → Prop where
  | ok {a : α} {next next' : Cursor} {ahead : List Token} :
    next.Beside tail k ahead next' → q a ahead → Alike tail k q (.ok a next) (.ok a next')
  | fail {t t' : Token} {fault fault' : Fault} {next next' : Cursor} {ahead : List Token} :
    next.Beside tail k ahead next' → Alike tail k q (.fail t fault next) (.fail t' fault' next')

-- From where `p` holds of the tokens in front of the seam, with `k` blocks open, the reader does the
-- same with both lists, and where it succeeds `q` holds of its value and the tokens that are left.
def Together (tail : List Token) (k : Nat) (p : List Token → Prop) (r : Reader α)
    (q : α → List Token → Prop) : Prop :=
  ∀ ctx ctx' c c' ahead, ctx.Alike ctx' → (0 < k → ctx.inBlock = true) → c.Beside tail k ahead c' →
    p ahead → Reply.Alike tail k q (r ctx c) (r ctx' c')

def Anywhere (_ : List Token) : Prop := True

def Ahead (ahead : List Token) : Prop := ahead ≠ []

def Facing (kind : Kind) (ahead : List Token) : Prop := ∃ t ts, ahead = t :: ts ∧ t.kind = kind

namespace Together

variable {tail : List Token} {k : Nat} {p p' : List Token → Prop} {r : Reader α} {q : α → List Token → Prop}

theorem pure (holds : ∀ ahead, p ahead → q a ahead) : Together tail k p (Pure.pure a) q :=
  fun _ _ _ _ ahead _ _ beside here => .ok beside (holds ahead here)

theorem bind {f : α → Reader β} {s : β → List Token → Prop} (first : Together tail k p r q)
    (second : ∀ a, Together tail k (q a) (f a) s) : Together tail k p (r >>= f) s := by
  intro ctx ctx' c c' ahead alike blocks beside here
  have replies := first ctx ctx' c c' ahead alike blocks beside here
  generalize ran : r ctx c = reply at replies
  generalize ran' : r ctx' c' = reply' at replies
  cases replies with
  | ok later holds =>
    rw [Reader.bind_ok ran, Reader.bind_ok ran']
    exact second _ ctx ctx' _ _ _ alike blocks later holds
  | fail later =>
    rw [Reader.bind_fail ran, Reader.bind_fail ran']
    exact .fail later

theorem narrow (together : Together tail k p r q) (implies : ∀ ahead, p' ahead → p ahead) :
    Together tail k p' r q :=
  fun ctx ctx' c c' ahead alike blocks beside here =>
    together ctx ctx' c c' ahead alike blocks beside (implies ahead here)

theorem anywhere (together : Together tail k Anywhere r q) : Together tail k p r q :=
  together.narrow fun _ _ => trivial

theorem done (a : α) : Together tail k p (Pure.pure a) fun _ => Anywhere := pure fun _ _ => trivial

theorem map {f : α → β} (inner : Together tail k p r q) : Together tail k p (f <$> r) fun _ => Anywhere :=
  bind inner fun a => done (f a)

theorem failHere (fault : Fault) : Together tail k p (failHere fault) q :=
  fun _ _ _ _ _ _ _ beside _ => .fail beside

theorem report (t : Token) (fault : Fault) : Together tail k p (report t fault) fun _ => p :=
  fun _ _ _ _ _ _ _ beside here => .ok (beside.reported _ _) here

theorem reportHere (fault : Fault) : Together tail k p (reportHere fault) fun _ => p :=
  fun _ _ _ _ _ _ _ beside here => .ok (beside.reported _ _) here

theorem countAgainst (count : Nat) (fault : Fault) :
    Together tail k p (countAgainst count fault) fun _ => p := by
  unfold Parse.countAgainst
  split
  · exact reportHere fault
  · exact pure fun _ => id

theorem checkReturn (start : Token) : Together tail k p (checkReturn start) fun _ => p := by
  intro ctx ctx' c c' ahead alike blocks beside here
  rw [checkReturn_eq, checkReturn_eq, alike.inFunction]
  cases ctx.inFunction with
  | true => exact .ok beside here
  | false => exact .ok (beside.reported _ _) here

theorem lastStop : Together tail k p lastStop fun _ => p := by
  intro ctx ctx' c c' ahead alike blocks beside here
  have same : c'.last.elim (c'.rest.headD ctx'.ending).span.start (fun t => t.span.stop) =
      c.last.elim (c.rest.headD ctx.ending).span.start fun t => t.span.stop := by
    rw [beside.last]
    cases ahead with
    | nil =>
      cases found : c.last with
      | none =>
        have semicolon := beside.seam rfl
        rw [found] at semicolon
        cases semicolon
      | some t => rfl
    | cons t ts => rw [beside.next ctx, beside.next' ctx']
  rw [Parse.lastStop, Reader.plain_reply, Reader.plain_reply, same]
  exact .ok beside here

theorem advance {q : Token → List Token → Prop} :
    Together tail k (fun ahead => ∃ t ts, ahead = t :: ts ∧ t.kind ≠ .rightBrace ∧ q t ts)
      advance q := by
  rintro ctx ctx' c c' ahead alike blocks beside ⟨t, ts, rfl, other, holds⟩
  rw [Parse.advance, Reader.plain_reply, Reader.plain_reply, beside.next ctx, beside.next' ctx']
  exact .ok (beside.advance (beside.unclosed.passed other)) holds

theorem byToken {f : Token → Reader α} {s : Reader α}
    (inside : ∀ t, Together tail k (fun ahead => p ahead ∧ ∃ ts, ahead = t :: ts) (f t) q)
    (ended : ∀ t, t.kind = .eof ∨ startsStatement t.kind = true → f t = s)
    (there : Together tail k p s q) : Together tail k p (peek >>= f) q := by
  intro ctx ctx' c c' ahead alike blocks beside here
  show Reply.Alike tail k q (f (c.rest.headD ctx.ending) ctx c) (f (c'.rest.headD ctx'.ending) ctx' c')
  cases ahead with
  | nil =>
    have eof : (c'.rest.headD ctx'.ending).kind = .eof := by
      rw [beside.rest']
      exact alike.ended'
    rw [ended _ (.inr (beside.atSeam ctx)), ended _ (.inl eof)]
    exact there ctx ctx' c c' [] alike blocks beside here
  | cons t ts =>
    rw [beside.next ctx, beside.next' ctx']
    exact inside t ctx ctx' c c' (t :: ts) alike blocks beside ⟨here, ts, rfl⟩

theorem ofHead (inner : Together tail k (Facing t.kind) r q) :
    Together tail k (fun ahead => p ahead ∧ ∃ ts, ahead = t :: ts) r q :=
  inner.narrow fun _ ⟨_, ts, isHead⟩ => ⟨t, ts, isHead, rfl⟩

theorem byKind {f : Kind → Reader α} {s : Reader α}
    (inside : ∀ kind, Together tail k (fun ahead => p ahead ∧ Facing kind ahead) (f kind) q)
    (ended : ∀ kind, kind = .eof ∨ startsStatement kind = true → f kind = s)
    (there : Together tail k p s q) : Together tail k p (peekKind >>= f) q :=
  byToken (f := fun t => f t.kind)
    (fun t => (inside t.kind).narrow fun _ ⟨here, ts, isHead⟩ => ⟨here, t, ts, isHead, rfl⟩)
    (fun t ends => ended t.kind ends) there

theorem facing {f : Kind → Reader α} (inside : ∀ kind, Together tail k (Facing kind) (f kind) q) :
    Together tail k Ahead (peekKind >>= f) q := by
  intro ctx ctx' c c' ahead alike blocks beside here
  show Reply.Alike tail k q (f (c.rest.headD ctx.ending).kind ctx c)
    (f (c'.rest.headD ctx'.ending).kind ctx' c')
  cases ahead with
  | nil => exact absurd rfl here
  | cons t ts =>
    rw [beside.next ctx, beside.next' ctx']
    exact inside t.kind ctx ctx' c c' (t :: ts) alike blocks beside ⟨t, ts, rfl, rfl⟩

-- The kinds of tokens that a statement may go on with. Those that are ordinary leave the seam ahead.
def Continues (kind : Kind) : Prop := kind ≠ .eof ∧ startsStatement kind = false

def Ordinary (kind : Kind) : Prop := kind ≠ .rightBrace ∧ kind ≠ .semicolon

instance (kind : Kind) : Decidable (Continues kind) := inferInstanceAs (Decidable (_ ∧ _))

instance (kind : Kind) : Decidable (Ordinary kind) := inferInstanceAs (Decidable (_ ∧ _))

theorem Continues.ne {kind other : Kind} (goesOn : Continues kind)
    (ends : other = .eof ∨ startsStatement other = true) : other ≠ kind := by
  rintro rfl
  rcases ends with eof | starts
  · exact goesOn.1 eof
  · exact Bool.false_ne_true (goesOn.2.symm.trans starts)

theorem ite {kind : Kind} (goesOn : Continues kind) {s : Reader α}
    (yes : Together tail k (fun ahead => p ahead ∧ Facing kind ahead) r q) (no : Together tail k p s q) :
    Together tail k p (peekKind >>= fun next => if next = kind then r else s) q := by
  refine byKind (fun next => ?_) (fun next ends => if_neg (goesOn.ne ends)) no
  split
  · rename_i isKind
    exact isKind ▸ yes
  · exact no.narrow fun _ here => here.1

theorem past {kind : Kind} {f : Token → Reader α} (ordinary : Ordinary kind)
    (rest : ∀ t, Together tail k Ahead (f t) q) :
    Together tail k (Facing kind) (Parse.advance >>= f) q := by
  rintro ctx ctx' c c' ahead alike blocks beside ⟨t, ts, rfl, isKind⟩
  refine bind (advance (q := fun _ => Ahead)) rest ctx ctx' c c' (t :: ts) alike blocks beside
    ⟨t, ts, rfl, isKind ▸ ordinary.1, ?_⟩
  rintro rfl
  exact ordinary.2 (isKind.symm.trans (beside.closed t rfl))

theorem pastIf {kind : Kind} {f : Token → Reader α} {s : Reader α} (goesOn : Continues kind)
    (ordinary : Ordinary kind) (yes : ∀ t, Together tail k Ahead (f t) q) (no : Together tail k p s q) :
    Together tail k p (peekKind >>= fun next => if next = kind then Parse.advance >>= f else s) q :=
  ite goesOn ((past ordinary yes).narrow fun _ here => here.2) no

theorem expect {kind : Kind} (goesOn : Continues kind) (brace : kind ≠ .rightBrace) (place : Place) :
    Together tail k p (expect kind place) fun _ => Anywhere := by
  rw [expect_eq]
  refine ite goesOn (advance.narrow ?_) (failHere _)
  rintro _ ⟨_, t, ts, rfl, isKind⟩
  exact ⟨t, ts, rfl, isKind ▸ brace, trivial⟩

theorem expectPast {kind : Kind} {f : Token → Reader α} (goesOn : Continues kind)
    (ordinary : Ordinary kind) (place : Place) (rest : ∀ t, Together tail k Ahead (f t) q) :
    Together tail k p (Parse.expect kind place >>= f) q := by
  rw [expect_eq, Reader.bind_assoc]
  simp only [Reader.ite_bind]
  exact pastIf goesOn ordinary rest (bind (failHere _) fun t => rest t)

theorem unlessNext {kind : Kind} (goesOn : Continues kind) (inner : Together tail k p r q) :
    Together tail k p (unlessNext kind r) fun _ => Anywhere :=
  ite goesOn (done _) inner.map

theorem behind {kind : Kind} (goesOn : Continues kind) (ordinary : Ordinary kind)
    (inner : Together tail k Ahead r q) : Together tail k p (behind kind r) fun _ => Anywhere := by
  rw [behind_eq]
  exact pastIf goesOn ordinary (fun _ => inner.map) (done _)

theorem inBody (inner : Together tail k p r q) : Together tail k p (within .body r) q :=
  fun _ _ c c' ahead alike blocks beside here => inner _ _ c c' ahead alike.inBody blocks beside here

theorem placed {make : Position → α} :
    Together tail k p (do return make (← Parse.lastStop)) fun _ => Anywhere :=
  bind lastStop fun _ => done _

section

variable {operand : Reader Expr} (inner : Together tail k Anywhere operand fun _ => Anywhere)
include inner

theorem chain {tier : Tier} (known : ∀ op ∈ tier.ops, Continues op ∧ Ordinary op) (bound : Nat)
    (left : Expr) : Together tail k Anywhere (chain tier operand bound left) fun _ => Anywhere := by
  induction bound generalizing left with
  | zero => exact done _
  | succ bound ih =>
    unfold Parse.chain
    refine byKind (fun op => ?_) (fun op ends => ?_) (done left)
    · split
      · rename_i ofTier
        have ordinary := (known op (List.contains_iff_mem.1 ofTier)).2
        refine (past ordinary fun _ => ?_).narrow fun _ here => here.2
        exact bind inner.anywhere fun right => ih _
      · exact done _
    · refine if_neg fun ofTier => ?_
      exact (known op (List.contains_iff_mem.1 ofTier)).1.ne ends rfl

theorem ladder {rungs : List Tier}
    (known : ∀ tier ∈ rungs, ∀ op ∈ tier.ops, Continues op ∧ Ordinary op) (bound : Nat) :
    Together tail k Anywhere (ladder bound operand rungs) fun _ => Anywhere := by
  induction rungs with
  | nil => exact inner
  | cons tier tighter ih =>
    have tightly := ih fun tier mem => known tier (List.mem_cons_of_mem _ mem)
    exact bind tightly fun left => chain tightly (known tier List.mem_cons_self) bound left

theorem unary (bound : Nat) : Together tail k Anywhere (unary operand bound) fun _ => Anywhere := by
  induction bound with
  | zero => exact inner
  | succ bound ih =>
    refine byToken (f := fun t => if t.kind = .bang ∨ t.kind = .minus then _ else _) (fun t => ?_)
      (fun t ends => ?_) inner
    · split
      · rename_i signed
        have ordinary : Ordinary t.kind := by rcases signed with sign | sign <;> rw [sign] <;> decide
        exact ofHead (past ordinary fun _ => bind ih.anywhere fun e => done _)
      · exact inner.anywhere
    · refine if_neg fun signed => ?_
      rcases signed with sign | sign
      · exact Continues.ne (by decide) ends sign
      · exact Continues.ne (by decide) ends sign

theorem arguments (bound count : Nat) :
    Together tail k Anywhere (arguments operand bound count) fun _ => Anywhere := by
  induction bound generalizing count with
  | zero =>
    rw [arguments_zero]
    exact bind (countAgainst count _) fun _ => bind inner fun e => done _
  | succ bound ih =>
    rw [arguments_succ]
    refine bind (countAgainst count _) fun _ => bind inner fun e => ?_
    exact bind (behind (by decide) (by decide) (ih _).anywhere) fun _ => done _

theorem calls (size bound : Nat) (callee : Expr) :
    Together tail k Anywhere (calls operand size bound callee) fun _ => Anywhere := by
  induction bound generalizing callee with
  | zero => exact done _
  | succ bound ih =>
    rw [calls_succ]
    refine pastIf (by decide) (by decide) (fun _ => ?_) (done _)
    refine bind (unlessNext (by decide) (arguments inner size 0).anywhere) fun args => ?_
    exact bind (expect (by decide) (by decide) _) fun close => ih _

theorem assignTail (left : Expr) :
    Together tail k Anywhere (assignTail operand left) fun _ => Anywhere := by
  refine byToken (f := fun t => if t.kind = .equal then _ else Pure.pure left) (fun t => ?_)
    (fun t ends => if_neg (Continues.ne (by decide) ends)) (done _)
  split
  · rename_i signed
    have ordinary : Ordinary t.kind := by rw [signed]; decide
    refine ofHead (past ordinary fun _ => bind inner.anywhere fun value => ?_)
    cases left with
    | name span x => exact done _
    | _ => exact bind (report t _) fun _ => done _
  · exact done _

theorem expressionStatement :
    Together tail k Anywhere (expressionStatement operand) fun _ => Anywhere :=
  bind inner fun _ => bind (expect (by decide) (by decide) _) fun _ => placed

end

theorem parameters (bound count : Nat) :
    Together tail k Anywhere (parameters bound count) fun _ => Anywhere := by
  induction bound generalizing count with
  | zero =>
    rw [parameters_zero]
    exact bind (countAgainst count _) fun _ => bind (expect (by decide) (by decide) _) fun _ => done _
  | succ bound ih =>
    rw [parameters_succ]
    refine bind (countAgainst count _) fun _ => bind (expect (by decide) (by decide) _) fun _ => ?_
    exact bind (behind (by decide) (by decide) (ih _).anywhere) fun _ => done _

def Begins (k : Nat) (ahead : List Token) : Prop :=
  ∃ t ts, ahead = t :: ts ∧ (0 < k → t.kind ≠ .rightBrace)

theorem recovering (forward : Forward r) (inner : Together tail k (Begins k) r q) :
    Together tail k (Begins k) (recovering r) fun _ => Anywhere := by
  rintro ctx ctx' c c' ahead alike blocks beside ⟨t, ts, rfl, mayClose⟩
  have replies := inner ctx ctx' c c' (t :: ts) alike blocks beside ⟨t, ts, rfl, mayClose⟩
  generalize read : r ctx c = reply at replies
  generalize read' : r ctx' c' = reply' at replies
  cases replies with
  | ok later holds =>
    rw [recovering_ok read, recovering_ok read']
    exact .ok later trivial
  | @fail token token' fault fault' failed failed' ahead later =>
    rw [recovering_resume read, recovering_resume read', alike.inBlock]
    have notes : (noted failed token fault).Beside tail k ahead (noted failed' token' fault') := by
      unfold noted
      split <;> split
      · exact later
      · exact later.reported _ _
      · exact later.reported _ _
      · exact later.reported _ _
    have suffix : ahead <:+ t :: ts := by
      have moved := (forward.fail read').1.1
      rwa [later.rest', beside.rest'] at moved
    have goesOn : ∃ ahead, (moved c (noted failed token fault)).Beside tail k ahead
        (moved c' (noted failed' token' fault')) := by
      unfold moved
      simp only [notes.rest, notes.rest', beside.rest, beside.rest', List.length_append,
        Nat.add_right_cancel_iff]
      split
      · rename_i still
        obtain rfl : ahead = t :: ts := suffix.eq_of_length still
        exact ⟨ts, notes.advance (beside.unclosed.skipped mayClose)⟩
      · exact ⟨ahead, notes⟩
    obtain ⟨_, moved⟩ := goesOn
    obtain ⟨_, resumed⟩ := moved.resume blocks
    exact .ok resumed trivial

-- Inside a block the seam is never reached: there is still a brace to be closed.
theorem declarations {item : Reader (Option Stmt)}
    (inner : Together tail (k + 1) (Begins (k + 1)) item fun _ => Anywhere) (bound : Nat) :
    Together tail (k + 1) Anywhere (declarations item true bound) fun _ => Anywhere := by
  induction bound with
  | zero => exact done _
  | succ bound ih =>
    intro ctx ctx' c c' ahead alike blocks beside _
    refine facing (fun kind => ?_) ctx ctx' c c' ahead alike blocks beside beside.unclosed.ne_nil
    split
    · exact done _
    · rename_i going
      refine bind (inner.narrow ?_) fun _ => bind ih fun _ => done _
      rintro _ ⟨t, ts, rfl, isKind⟩
      exact ⟨t, ts, rfl, fun _ isClose => going (.inr ⟨rfl, isKind ▸ isClose⟩)⟩

theorem openBrace (place : Place) :
    Together tail k p (Parse.expect .leftBrace place) fun _ => Unclosed (k + 1) := by
  rw [expect_eq]
  refine ite (by decide) ?_ (failHere _)
  rintro ctx ctx' c c' ahead alike blocks beside ⟨_, t, ts, rfl, isOpen⟩
  refine advance ctx ctx' c c' (t :: ts) alike blocks beside ⟨t, ts, rfl, ?_, beside.unclosed.opened isOpen⟩
  rw [isOpen]
  decide

theorem closeBrace (place : Place) :
    Together tail k (Unclosed (k + 1)) (Parse.expect .rightBrace place) fun _ => Anywhere := by
  rw [expect_eq]
  refine ite (by decide) ?_ (failHere _)
  rintro ctx ctx' c c' ahead alike blocks beside ⟨unclosed, t, ts, rfl, isClose⟩
  rw [Parse.advance, Reader.plain_reply, Reader.plain_reply, beside.next ctx, beside.next' ctx']
  exact .ok (beside.advance (unclosed.closed isClose)) trivial

theorem inBraces (inner : Together tail (k + 1) Anywhere r fun _ => Anywhere) :
    Together tail k (Unclosed (k + 1)) (within .braces r) fun _ => Unclosed (k + 1) := by
  intro ctx ctx' c c' ahead alike blocks beside unclosed
  have replies := inner _ _ c c' ahead alike.inBraces (fun _ => rfl) (beside.mono unclosed) trivial
  rw [within_eq, within_eq]
  revert replies
  generalize r (Bracket.braces.enter ctx) c = reply
  generalize r (Bracket.braces.enter ctx') c' = reply'
  rintro (⟨later, _⟩ | later)
  · exact .ok (later.mono (later.unclosed.mono (Nat.le_succ k))) later.unclosed
  · exact .fail (later.mono (later.unclosed.mono (Nat.le_succ k)))

end Together

structure Nested.Together (tail : List Token) (nested : Nested) : Prop where
  expression : ∀ k, Parse.Together tail k Anywhere nested.expression fun _ => Anywhere
  statement : ∀ k, Parse.Together tail k Ahead nested.statement fun _ => Anywhere
  declaration : ∀ k, Parse.Together tail k (Together.Begins k) nested.declaration fun _ => Anywhere

namespace Together

variable {tail : List Token} {nested : Nested} (inner : nested.Together tail) (k size : Nat)
include inner

theorem block : Together tail k Anywhere (block size nested) fun _ => Anywhere :=
  bind (openBrace _) fun _ => bind (inBraces (declarations (inner.declaration (k + 1)) size)) fun _ =>
    bind (closeBrace _) fun _ => placed

theorem functionRest (afterName beforeBody : Place) :
    Together tail k Anywhere (functionRest size nested afterName beforeBody) fun _ => Anywhere := by
  rw [functionRest_eq]
  refine bind (expect (by decide) (by decide) _) fun _ => ?_
  refine bind (unlessNext (by decide) (parameters size 0).anywhere) fun params => ?_
  refine bind (expect (by decide) (by decide) _) fun _ => ite (by decide) ?_ (failHere _)
  exact bind (inBody (block inner k size).anywhere) fun body => done _

theorem primaryBy (first : Kind) :
    Together tail k (Facing first) (primaryBy size nested first) fun _ => Anywhere := by
  unfold Parse.primaryBy
  cases first with
  | leftParen =>
    refine past (by decide) fun _ => bind (inner.expression k).anywhere fun _ => ?_
    exact bind (expect (by decide) (by decide) _) fun _ => placed
  | kwFun => exact past (by decide) fun _ => bind (functionRest inner k size _ _).anywhere fun _ => placed
  | _ => first | exact past (by decide) fun _ => done _ | exact failHere _

theorem expression : Together tail k Anywhere (expression size nested) fun _ => Anywhere := by
  have primaries : Together tail k Anywhere (primary size nested) fun _ => Anywhere := by
    rw [primary_eq]
    refine byKind (s := Parse.failHere .noExpression) (fun kind => ?_) (fun kind ends => ?_) (failHere _)
    · exact (primaryBy inner k size kind).narrow fun _ here => here.2
    · cases kind <;> first | rfl | simp [startsStatement] at ends
  have operands : Together tail k Anywhere (call size nested) fun _ => Anywhere :=
    bind primaries fun callee => calls (inner.expression k) size size callee
  rw [expression_eq]
  refine bind (ladder (unary operands size) ?_ size) fun left => assignTail (inner.expression k) left
  decide

omit size

theorem variableDeclaration :
    Together tail k (Facing .kwVar) (variableDeclaration nested) fun _ => Anywhere := by
  rw [variableDeclaration_eq]
  refine past (by decide) fun _ => bind (expect (by decide) (by decide) _) fun _ => ?_
  refine bind (behind (by decide) (by decide) (inner.expression k).anywhere) fun _ => ?_
  exact bind (expect (by decide) (by decide) _) fun _ => placed

theorem branchStatement : Together tail k (Facing .kwIf) (branchStatement nested) fun _ => Anywhere := by
  rw [branchStatement_eq]
  refine past (by decide) fun _ => bind (expect (by decide) (by decide) _) fun _ => ?_
  refine bind (inner.expression k) fun _ => expectPast (by decide) (by decide) _ fun _ => ?_
  refine bind (inner.statement k) fun _ => ?_
  exact bind (behind (by decide) (by decide) (inner.statement k)) fun _ => placed

theorem whileStatement : Together tail k (Facing .kwWhile) (whileStatement nested) fun _ => Anywhere := by
  refine past (by decide) fun _ => bind (expect (by decide) (by decide) _) fun _ => ?_
  refine bind (inner.expression k) fun _ => expectPast (by decide) (by decide) _ fun _ => ?_
  exact bind (inner.statement k) fun _ => placed

theorem forFirst : Together tail k Ahead (forFirst nested) fun _ => Anywhere := by
  refine facing fun kind => ?_
  split
  · rename_i isMark
    refine bind (advance (q := fun _ => Anywhere)) (fun _ => done _) |>.narrow ?_
    rintro _ ⟨t, ts, rfl, isKind⟩
    exact ⟨t, ts, rfl, by rw [isKind, isMark]; decide, trivial⟩
  · split
    · rename_i isVar
      rw [isVar]
      exact (variableDeclaration inner k).map
    · exact (expressionStatement (inner.expression k)).map.anywhere

theorem forStatement : Together tail k (Facing .kwFor) (forStatement nested) fun _ => Anywhere := by
  rw [forStatement_eq]
  refine past (by decide) fun _ => expectPast (by decide) (by decide) _ fun _ => ?_
  refine bind (forFirst inner k) fun first => ?_
  refine bind (unlessNext (by decide) (inner.expression k)) fun condition => ?_
  refine bind (expect (by decide) (by decide) _) fun _ => ?_
  refine bind (unlessNext (by decide) (inner.expression k)) fun step => ?_
  refine expectPast (by decide) (by decide) _ fun _ => ?_
  exact bind (inner.statement k) fun _ => placed

theorem printStatement : Together tail k (Facing .kwPrint) (printStatement nested) fun _ => Anywhere :=
  past (by decide) fun _ => bind (inner.expression k).anywhere fun _ =>
    bind (expect (by decide) (by decide) _) fun _ => placed

theorem returnStatement : Together tail k (Facing .kwReturn) (returnStatement nested) fun _ => Anywhere := by
  rw [returnStatement_eq, openReturn, Reader.bind_assoc]
  refine past (by decide) fun start => bind (checkReturn start) fun _ => ?_
  refine bind (unlessNext (by decide) (inner.expression k).anywhere) fun _ => ?_
  exact bind (expect (by decide) (by decide) _) fun _ => placed

theorem functionDeclaration (size : Nat) :
    Together tail k (fun ahead => Facing .kwFun ahead ∧ secondKind ahead = .ident)
      (functionDeclaration size nested) fun _ => Anywhere := by
  refine bind ((advance (q := fun _ => Facing .ident)).narrow ?_) fun start => ?_
  · rintro _ ⟨⟨t, ts, rfl, isFun⟩, named⟩
    cases ts with
    | nil => cases named
    | cons u us => exact ⟨t, u :: us, rfl, by rw [isFun]; decide, u, us, rfl, named⟩
  · exact past (by decide) fun _ => bind (functionRest inner k size _ _).anywhere fun _ => placed

theorem statement (size : Nat) : Together tail k Ahead (statement size nested) fun _ => Anywhere := by
  rw [statement_eq]
  refine facing fun kind => ?_
  unfold statementBy
  split
  · exact forStatement inner k
  · exact branchStatement inner k
  · exact printStatement inner k
  · exact returnStatement inner k
  · exact whileStatement inner k
  · exact (block inner k size).map.anywhere
  · exact (expressionStatement (expression inner k size)).anywhere

theorem declarationBy (size : Nat) (first second : Kind) :
    Together tail k (fun ahead => Facing first ahead ∧ secondKind ahead = second)
      (declarationBy size nested first second) fun _ => Anywhere := by
  have ahead {kind : Kind} (ahead : List Token) (here : Facing kind ahead ∧ secondKind ahead = second) :
      Ahead ahead := by
    obtain ⟨⟨t, ts, rfl, _⟩, _⟩ := here
    exact List.cons_ne_nil t ts
  unfold Parse.declarationBy
  split
  · split
    · rename_i named
      rw [named]
      exact functionDeclaration inner k size
    · exact (statement inner k size).narrow ahead
  · exact (variableDeclaration inner k).narrow fun _ here => here.1
  · exact failHere _
  · exact (statement inner k size).narrow ahead

-- The second token matters only if it is a name, and no name comes at the seam.
theorem declaration (size : Nat) :
    Together tail k (Begins k) (declaration size nested) fun _ => Anywhere := by
  rintro ctx ctx' c c' ahead alike blocks beside ⟨t, ts, rfl, mayClose⟩
  have first : nextKind ctx c.rest = t.kind := congrArg Token.kind (beside.next ctx)
  have first' : nextKind ctx' c'.rest = t.kind := congrArg Token.kind (beside.next' ctx')
  have second : (secondKind c.rest = .ident) = (secondKind c'.rest = .ident) := by
    rw [beside.rest, beside.rest']
    cases ts with
    | nil =>
      obtain ⟨u, us, rfl, starts⟩ := beside.starts
      refine propext ⟨fun named => ?_, nofun⟩
      rw [show u.kind = .ident from named] at starts
      cases starts
    | cons u us => rfl
  have same : Parse.declarationBy size nested t.kind (secondKind c.rest) =
      Parse.declarationBy size nested t.kind (secondKind c'.rest) := by
    unfold Parse.declarationBy
    simp only [second]
  rw [declaration_eq, declaration_eq, first, first', same]
  refine declarationBy inner k size t.kind _ ctx ctx' c c' (t :: ts) alike blocks beside
    ⟨⟨t, ts, rfl, rfl⟩, ?_⟩
  rw [beside.rest']

end Together

theorem level_together (tail : List Token) (n : Nat) : (level n).Together tail := by
  induction n with
  | zero =>
    have missing {α : Type} (k : Nat) (p : List Token → Prop) :
        Together tail k p (@failHere α .noExpression) fun _ => Anywhere := .failHere _
    exact ⟨fun k => missing k _, fun k => missing k _, fun k => .recovering (.failHere _) (missing k _)⟩
  | succ n ih =>
    exact ⟨fun k => .expression ih k (n + 1), fun k => .statement ih k (n + 1),
      fun k => .recovering (.declaration _) (.declaration ih k (n + 1))⟩

end Parse

end TinyScript
