import TinyScript.Proofs.Run.Beside
import TinyScript.Proofs.Run.Safety
import TinyScript.Proofs.Run.Scopes
import TinyScript.Proofs.Session.Returns

namespace TinyScript

namespace Parse

theorem unbinding_tree {clauses : ForClauses} (whole keyword : Span) (made : body.Unbinding) :
    (clauses.tree whole keyword body).Unbinding := by
  obtain ⟨first, condition, step⟩ := clauses
  cases first <;> cases step <;> simp_all [ForClauses.tree, forLoop, Stmt.Unbinding]

-- A statement binds names in blocks of its own only: what binds them in its scope is a declaration.
theorem statement_unbinding {nested : Nested} (inner : Makes Stmt.Unbinding nested.statement) (size : Nat) :
    Makes Stmt.Unbinding (statement size nested) := by
  rw [statement_eq]
  refine .step fun first => ?_
  unfold statementBy
  split
  · rw [forStatement_clauses]
    exact .step fun _ => .step fun _ => .bind inner fun _ made => .step fun _ =>
      .pure (unbinding_tree _ _ made)
  · rw [branchStatement_eq]
    refine .step fun _ => .step fun _ => .step fun _ => .step fun _ => .bind inner fun yes made => ?_
    refine .bind (.behind _ inner) fun no each => .step fun _ => .pure ?_
    cases no with
    | none => exact made
    | some s => exact ⟨made, each s rfl⟩
  · exact .step fun _ => .step fun _ => .step fun _ => .step fun _ => .pure trivial
  · rw [returnStatement_eq]
    exact .step fun _ => .step fun _ => .step fun _ => .step fun _ => .pure trivial
  · exact .step fun _ => .step fun _ => .step fun _ => .step fun _ => .bind inner fun _ made =>
      .step fun _ => .pure made
  · exact .step fun _ => .pure trivial
  · exact .step fun _ => .step fun _ => .step fun _ => .pure trivial

theorem level_unbinding (n : Nat) : Makes Stmt.Unbinding (level n).statement := by
  induction n with
  | zero => exact .failHere .noExpression
  | succ n ih => exact statement_unbinding ih (n + 1)

namespace ForClauses

open Interpret Machine

def holds (clauses : ForClauses) (host : Host) : Step Value :=
  match clauses.condition with
  | none => return .boolean true
  | some e => eval host e

-- The body and then the step, which is not evaluated when the body returns.
def turn (clauses : ForClauses) (host : Host) (body : Stmt) : Step Signal := do
  match ← exec host body with
  | .returned v => return .returned v
  | .next =>
    match clauses.step with
    | none => return .next
    | some e => do
      let _ ← eval host e
      return .next

def opened (clauses : ForClauses) (host : Host) (rounds : Step Signal) : Step Signal :=
  match clauses.first with
  | none => rounds
  | some s => inBlock do
    let _ ← exec host s
    rounds

def direct (clauses : ForClauses) (host : Host) (whole : Span) (body : Stmt) : Step Signal :=
  clauses.opened host
    (repeating host.patience (Evaluate.round host.steps whole (clauses.holds host) (clauses.turn host body)))

def test (clauses : ForClauses) (keyword : Span) : Expr :=
  clauses.condition.getD (.literal keyword (.boolean true))

def wrapped (clauses : ForClauses) (whole : Span) (body : Stmt) : Stmt :=
  match clauses.step with
  | none => body
  | some e => .block (.braces whole [body, .expr e.span e])

def loopRound (clauses : ForClauses) (host : Host) (whole keyword : Span) (body : Stmt) :
    Step (Option Signal) :=
  Evaluate.round host.steps whole (eval host (clauses.test keyword)) (exec host (clauses.wrapped whole body))

end ForClauses

end Parse

namespace Interpret

variable {host : Host}

theorem execEach_single (s : Stmt) : Evaluate.execEach host.steps [s] = exec host s := by
  funext m
  unfold exec
  simp only [Evaluate.execEach]
  cases ran : Evaluate.exec host.steps s m with
  | done signal after =>
    rw [Step.bind_done ran]
    cases signal <;> rfl
  | failed e after => rw [Step.bind_failed ran]
  | unfinished => rw [Step.bind_unfinished ran]

theorem GoesOn.execEach_cons (goesOn : GoesOn (Interpret.exec host s)) (ss : List Stmt) :
    Evaluate.execEach host.steps (s :: ss) = Interpret.exec host s >>= fun _ => Evaluate.execEach host.steps ss := by
  funext m
  unfold Interpret.exec at goesOn ⊢
  simp only [Evaluate.execEach]
  cases ran : Evaluate.exec host.steps s m with
  | done signal after => rw [Step.bind_done ran, Step.bind_done ran, goesOn m signal after ran]
  | failed e after => rw [Step.bind_failed ran, Step.bind_failed ran]
  | unfinished => rw [Step.bind_unfinished ran, Step.bind_unfinished ran]

end Interpret

namespace Parse.ForClauses

open Interpret Machine

variable {clauses : ForClauses} {host : Host}

theorem exec_tree (opening : IfAny Stmt.Enclosed clauses.first) (whole keyword : Span) (body : Stmt) :
    exec host (clauses.tree whole keyword body) =
      clauses.opened host (repeating host.patience (clauses.loopRound host whole keyword body)) := by
  obtain ⟨first, condition, step⟩ := clauses
  cases first with
  | none => rfl
  | some s =>
    have goesOn : Interpret.GoesOn (exec host s) := .exec host (opening s rfl)
    show inBlock (Evaluate.execEach host.steps [s, .loop whole _ _]) = inBlock _
    rw [goesOn.execEach_cons, execEach_single]
    rfl

theorem turn_single (noStep : clauses.step = none) (body : Stmt) :
    clauses.turn host body = exec host body := by
  funext m
  unfold turn
  rw [noStep]
  cases ran : exec host body m with
  | done signal after =>
    rw [Step.bind_done ran]
    cases signal <;> rfl
  | failed e after => rw [Step.bind_failed ran]
  | unfinished => rw [Step.bind_unfinished ran]

variable {site : Site} {k : Pairing}

theorem test_follows (calls : host.Follows anywhere) (keyword : Span) :
    Follows anywhere site k (Value.Paired anywhere) (eval host (clauses.test keyword))
      (clauses.holds host) := by
  unfold test holds
  cases clauses.condition with
  | none => exact .pure fun _ _ => .boolean true
  | some e => exact .eval calls e.placed_anywhere

-- The scope of the block around the body and the step stays hollow.
theorem wrapped_follows (calls : host.Follows anywhere) (unbinding : body.Unbinding) (whole : Span) :
    Follows anywhere site k (Signal.Paired anywhere) (exec host (clauses.wrapped whole body))
      (clauses.turn host body) := by
  unfold wrapped
  split
  · next noStep =>
    rw [turn_single noStep]
    exact .exec calls body.placed_anywhere (.inr unbinding)
  · next e isStep =>
    unfold turn
    rw [isStep]
    show Follows _ _ _ _ (inBlock (Evaluate.execEach host.steps [body, .expr e.span e])) _
    rw [Evaluate.execEach, execEach_single]
    refine .hollowBlock (.bind (.exec calls body.placed_anywhere (.inr unbinding)) fun _ _ _ _ same => ?_)
    cases same with
    | next => exact .bind (.eval calls e.placed_anywhere) fun _ _ _ _ _ => .pure fun _ _ => .next
    | returned same => exact .pure fun _ more => .returned (same.mono more)

theorem opened_follows (calls : host.Follows anywhere) {rounds rounds' : Step Signal}
    (inner : ∀ {site k}, Follows anywhere site k (Signal.Paired anywhere) rounds rounds') :
    Follows anywhere site k (Signal.Paired anywhere) (clauses.opened host rounds)
      (clauses.opened host rounds') := by
  unfold opened
  split
  · exact inner
  · next s _ => exact .inBlock (.bind (.exec calls s.placed_anywhere (.inl rfl)) fun _ _ _ _ _ => inner)

theorem tree_follows (calls : host.Follows anywhere) (opening : IfAny Stmt.Enclosed clauses.first)
    (unbinding : body.Unbinding) (whole keyword : Span) :
    Follows anywhere site k (Signal.Paired anywhere) (exec host (clauses.tree whole keyword body))
      (clauses.direct host whole body) := by
  rw [exec_tree opening]
  refine opened_follows calls fun {site k} => .repeating ?_ host.patience
  refine following.lawful.round (w := (site, k)) (fun _ _ => ?_) (fun _ _ => ?_) fun _ _ => ?_
  · exact .tick host.limits trivial
  · exact test_follows calls keyword
  · exact wrapped_follows calls unbinding whole

end Parse.ForClauses

inductive Ending where
  | next
  | returned (form : Bytes)
  | failed (code : Code) (message : Bytes)
  deriving DecidableEq

structure Effect where
  ending : Ending
  output : Bytes
  steps : Nat
  deriving DecidableEq

def Signal.ending : Signal → Ending
  | .next => .next
  | .returned v => .returned v.render

def Outcome.effect? : Outcome Signal → Option Effect
  | .done signal m => some ⟨signal.ending, m.output, m.steps⟩
  | .failed e m => some ⟨.failed e.error.fault.code e.error.fault.message, m.output, m.steps⟩
  | .unfinished => none

theorem Signal.Paired.ending {signal signal' : Signal} (same : signal.Paired allowed k signal') :
    signal.ending = signal'.ending := by
  cases same with
  | next => rfl
  | returned same => exact congrArg Ending.returned same.like.render

theorem Outcome.Beside.effect {o o' : Outcome Signal}
    (beside : o.Beside allowed (Signal.Paired allowed) k m m' o') : o.effect? = o'.effect? := by
  unfold effect?
  cases beside with
  | done later same => simp only [later.paired.output, later.paired.steps, same.ending]
  | failed later => simp only [later.paired.output, later.paired.steps]
  | unfinished => rfl

namespace Interpret

open Machine

inductive Rounds (round : Step (Option Signal)) (begun : Machine) : Machine → Prop where
  | first : Rounds round begun begun
  | next : Rounds round begun m → round m = .done none later → Rounds round begun later

theorem Rounds.leaves {R : Machine → Machine → Prop} [IsPreorder Machine R] {round : Step (Option Signal)}
    (once : Leaves R round) (came : Rounds round begun m) : R begun m := by
  induction came with
  | first => exact refl_of R begun
  | next _ ran ih => exact trans_of R ih (once _ _ (by rw [ran]; rfl))

theorem Rounds.goes {round : Step (Option Signal)} (came : Rounds round begun m)
    (ended : (repeating patience round begun).machine? = some last) :
    ∃ rest, (repeating rest round m).machine? = some last := by
  induction came with
  | first => exact ⟨patience, ended⟩
  | next _ ran ih =>
    obtain ⟨rest, ended⟩ := ih
    cases rest with
    | zero => cases ended
    | succ rest =>
      rw [repeating_succ, Step.bind_done ran] at ended
      exact ⟨rest, ended⟩

end Interpret

namespace Heap

inductive Below (h : Heap) (top : ScopeId) : ScopeId → Prop where
  | top : Below h top top
  | up {i p : ScopeId} {s : Scope} : h.scopes[i]? = some s → s.parent = some p → p < i → Below h top p →
    Below h top i

-- A scope that binds one name only. From all scopes below it, be they of blocks, of calls or of functions
-- that were made there, the name means this one binding, if none of the scopes in between has it too.
structure Shares (h : Heap) (top : ScopeId) (x : Bytes) : Prop where
  alone : ∃ s, h.scopes[top]? = some s ∧ s.names = [x]
  shared : ∀ i, h.Below top i →
    h.resolve? i x = some top ∨ ∃ nearer, top < nearer ∧ h.Below top nearer ∧ h.resolve? i x = some nearer

variable {h : Heap} {top : ScopeId}

theorem Below.le {i : ScopeId} (below : h.Below top i) : top ≤ i := by
  induction below with
  | top => exact Nat.le_refl _
  | up _ _ older _ ih => exact Nat.le_trans ih (Nat.le_of_lt older)

theorem Shares.of_names {s : Scope} (here : h.scopes[top]? = some s) (names : s.names = [x]) :
    h.Shares top x := by
  refine ⟨⟨s, here, names⟩, fun i below => ?_⟩
  induction below with
  | top =>
    have binds : s.binds x = true := Scope.binds_iff_mem_names.2 (names ▸ List.mem_singleton_self x)
    exact .inl (by rw [resolve?_eq here, if_pos binds])
  | @up i p inner there isParent older below ih =>
    rw [resolve?_eq there, isParent, Option.bind_some, if_pos older]
    split
    · exact .inr ⟨i, Nat.lt_of_le_of_lt below.le older, .up there isParent older below, rfl⟩
    · exact ih

theorem Shares.kept (shares : h.Shares top x) (kept : h.Kept (fun _ => False) after) :
    after.Shares top x := by
  obtain ⟨s, here, names⟩ := shares.alone
  obtain ⟨s', here', _, same⟩ := kept top s here
  exact .of_names here' ((same not_false).trans names)

end Heap

namespace Interpret

open Machine

theorem shares_define {h : Heap} {s : Scope} (here : h.scopes[top]? = some s) (empty : s.names = [])
    (x : Bytes) (v : Value) : (h.define top x v).Shares top x := by
  have bindings : s.bindings = [] := List.map_eq_nil_iff.1 empty
  refine .of_names (s := s.put x v) ?_ ?_
  · rw [Heap.scopes_define, if_pos rfl, here]
    rfl
  · simp [Scope.put, Scope.names, bindings, Scope.putIn]

theorem shares_declare {host : Host} {m : Machine}
    (invoke : ∀ f args, Leaves (Keeps .any) (host.invoke f args))
    (declared : exec host (.declare span x value) (m.below m.scope) = .done signal begun) :
    begun.scope = m.heap.scopes.size ∧ begun.heap.Shares m.heap.scopes.size x := by
  have opened : (m.below m.scope).heap.scopes[m.heap.scopes.size]? = some ⟨[], some m.scope⟩ := by
    show (m.heap.extend _).2.scopes[_]? = _
    rw [Heap.scopes_extend, if_pos rfl]
  cases value with
  | none =>
    simp only [exec] at declared
    cases declared
    exact ⟨rfl, shares_define opened rfl x .nil⟩
  | some e =>
    simp only [exec] at declared
    obtain ⟨v, mid, evaluated, declared⟩ := Step.of_bind_done declared
    have kept : (m.below m.scope).Keeps .any mid :=
      keeps_eval invoke e _ mid (show (Evaluate.eval host.steps e _).machine? = _ by rw [evaluated]; rfl)
    obtain ⟨s, here, _, names⟩ := kept.nowhere _ _ opened
    have current : mid.scope = m.heap.scopes.size := kept.scope
    cases declared
    exact ⟨current, current ▸ shares_define here (names not_false) x v⟩

-- The variable of a loop is one binding, in a scope of its own. Every round begins in this scope, and what
-- is below it shares the binding, then and afterwards. What a scope means by the name it means from then on,
-- so that functions made in different rounds have the variable in common. From outside nothing sees it.
structure LoopVariable (round : Step (Option Signal)) (begun after : Machine) (top : ScopeId) (x : Bytes) :
    Prop where
  rounds : ∀ m, Rounds round begun m → m.scope = top ∧ m.heap.Shares top x
  afterwards : after.heap.Shares top x
  lasting : ∀ m, Rounds round begun m → ∀ i < m.heap.scopes.size,
    after.heap.resolve? i x = m.heap.resolve? i x
  hidden : ∀ i < top, after.heap.resolve? i x ≠ some top

end Interpret

namespace Parse.ForClauses

open Interpret Machine

variable {clauses : ForClauses} {host : Host}

theorem rounds_ended {m : Machine} (isFirst : clauses.first = some (.declare span x value))
    (declared : exec host (.declare span x value) (m.below m.scope) = .done signal begun)
    (ended : (exec host (clauses.tree whole keyword body) m).machine? = some after) :
    ∃ last, (repeating host.patience (clauses.loopRound host whole keyword body) begun).machine? = some last ∧
      { last with scope := m.scope } = after := by
  have opening : IfAny Stmt.Enclosed clauses.first := by
    rw [isFirst]
    rintro _ ⟨⟩
    trivial
  rw [exec_tree opening] at ended
  unfold opened at ended
  rw [isFirst] at ended
  unfold inBlock inNewScope at ended
  rw [Outcome.machine?_adjust, Option.map_eq_some_iff] at ended
  change ∃ last, ((exec host _ >>= fun _ => _) (m.below m.scope)).machine? = some last ∧ _ at ended
  rw [Step.bind_done declared] at ended
  exact ended

variable (invoke : ∀ f args, Leaves (Keeps .any) (host.invoke f args))
include invoke

theorem keeps_loopRound (unbinding : body.Unbinding) (whole keyword : Span) :
    Leaves (Keeps .any) (clauses.loopRound host whole keyword body) := by
  have inner : (clauses.wrapped whole body).Unbinding := by
    unfold wrapped
    split
    · exact unbinding
    · trivial
  exact leaves_round whole (keeps_tick host.limits whole) (keeps_eval invoke _)
    (keeps_unbinding invoke inner)

theorem loopVariable {m : Machine} (isFirst : clauses.first = some (.declare span x value))
    (unbinding : body.Unbinding)
    (declared : exec host (.declare span x value) (m.below m.scope) = .done signal begun)
    (ended : (exec host (clauses.tree whole keyword body) m).machine? = some after) :
    LoopVariable (clauses.loopRound host whole keyword body) begun after m.heap.scopes.size x := by
  have once : Leaves (Keeps .any) (clauses.loopRound host whole keyword body) :=
    keeps_loopRound invoke unbinding whole keyword
  obtain ⟨current, shares⟩ := shares_declare invoke declared
  have unleaked := (keeps_unbinding invoke (unbinding_tree whole keyword unbinding) m after ended).unleaked
  obtain ⟨last, went, rfl⟩ := rounds_ended isFirst declared ended
  refine ⟨fun mid came => ?_, ?_, fun mid came i there => ?_, fun i old found => ?_⟩
  · have kept := came.leaves once
    exact ⟨kept.scope.trans current, shares.kept kept.nowhere⟩
  · exact shares.kept (leaves_repeating once host.patience begun last went).nowhere
  · obtain ⟨rest, went⟩ := came.goes went
    exact (leaves_repeating once rest mid last went).nowhere.resolve? there x
  · rw [unleaked.resolve i x old] at found
    obtain ⟨s, here, _⟩ := Heap.binds_of_resolve? found
    exact Nat.lt_irrefl _ (Array.getElem?_eq_some_iff.1 here).1

end Parse.ForClauses

theorem Heap.Reached.closed {h : Heap} (reached : h.Reached) : h.Closed where
  parents := reached.sound.parents
  functions here entry mem _ _ isFunction := by
    have fits := reached.sound.values here entry mem
    rw [isFunction] at fits
    exact fits.1

theorem Parse.forStatement_parts (accepted : forStatement nested ctx c = .ok tree next) :
    ∃ clauses body whole keyword middle, forClauses nested ctx c.advance = .ok clauses middle ∧
      nested.statement ctx middle = .ok body next ∧ tree = ForClauses.tree clauses whole keyword body := by
  rw [forStatement_clauses] at accepted
  obtain ⟨start, _, advanced, read⟩ := Reader.of_bind_ok accepted
  obtain ⟨clauses, middle, clausesRead, read⟩ := Reader.of_bind_ok read
  obtain ⟨body, last, bodyRead, read⟩ := Reader.of_bind_ok read
  obtain ⟨stop, _, stopped, read⟩ := Reader.of_bind_ok read
  cases advanced
  cases stopped
  cases read
  exact ⟨clauses, body, _, _, middle, clausesRead, bodyRead, rfl⟩

open Parse Interpret in
theorem for_runs_directly (accepted : forStatement (level n) ctx c = .ok tree next) :
    ∃ clauses body whole keyword middle, forClauses (level n) ctx c.advance = .ok clauses middle ∧
      (level n).statement ctx middle = .ok body next ∧ tree = clauses.tree whole keyword body ∧
      ∀ (limits : Limits) (clock : Nat → Float) (patience room : Nat) (m : Machine),
        m.heap.Closed → m.scope < m.heap.scopes.size →
        let host := hostAt limits clock patience room
        (exec host tree m).effect? = (clauses.direct host whole body m).effect? ∧
        ∀ after, (exec host tree m).machine? = some after → m.Unleaked after ∧
          ∀ span x value, clauses.first = some (.declare span x value) →
            ∀ signal begun, exec host (.declare span x value) (m.below m.scope) = .done signal begun →
              LoopVariable (clauses.loopRound host whole keyword body) begun after m.heap.scopes.size x := by
  obtain ⟨clauses, body, whole, keyword, middle, clausesRead, bodyRead, rfl⟩ := forStatement_parts accepted
  have opening := MakesIn.Unreturning.forClauses (level n) _ _ _ _ clausesRead
  have unbinding := level_unbinding n _ _ _ _ bodyRead
  refine ⟨clauses, body, whole, keyword, middle, clausesRead, bodyRead, rfl, ?_⟩
  intro limits clock patience room m closed there host
  have calls (f : Closure) (args : List Value) : Leaves (Machine.Keeps .any) (host.invoke f args) :=
    keeps_invoke limits clock patience room f args
  refine ⟨?_, fun after ended => ⟨?_, fun span x value isFirst signal begun declared => ?_⟩⟩
  · have follows : Follows anywhere .own (.same m.heap.scopes.size) _ (exec host _) _ :=
      ForClauses.tree_follows (hostAt_follows limits clock patience room) opening unbinding whole keyword
    exact (follows _ m m (.refl _) ⟨closed.paired, rfl, rfl, rfl, rfl⟩ ⟨rfl, there⟩).effect
  · exact (keeps_unbinding calls (unbinding_tree _ _ unbinding) m after ended).unleaked
  · exact ForClauses.loopVariable calls isFirst unbinding declared ended

-- A function made in a round reads the variable of the loop, and is called in the same round.
def sharingText : Bytes :=
  text "for (var go = true; go; go = false) \x7b len = fun () \x7b return go; \x7d; print len(); \x7d"

def sharingContext : Parse.Context := ⟨.ending .start, 0, 0⟩

def sharingCursor : Parse.Cursor := ⟨(scan sharingText).dropLast, none, []⟩

def sharing : Machine := ⟨Heap.empty.addGlobals.2, Heap.empty.addGlobals.1, 0, 0, 0, []⟩

def declaresGo : Parse.Reply Parse.ForClauses → Bool
  | .ok ⟨some (.declare _ x (some (.literal _ (.boolean true)))), _, _⟩ _ => x == text "go"
  | _ => false

open Parse Interpret in
theorem for_runs_directly_sharing : let host := hostAt ⟨0, 8⟩ (fun _ => 0) 4 8
    ∃ tree next clauses body whole keyword begun after,
      forStatement (level 30) sharingContext sharingCursor = .ok tree next ∧
      (ForClauses.direct clauses host whole body sharing).effect? = some ⟨.next, text "true\n", 2⟩ ∧
      (exec host tree sharing).machine? = some after ∧ sharing.Unleaked after ∧
      LoopVariable (clauses.loopRound host whole keyword body) begun after sharing.heap.scopes.size
        (text "go") := by
  intro host
  have executed : (match forStatement (level 30) sharingContext sharingCursor with
      | .ok tree _ => (exec host tree sharing).effect?
      | .fail _ _ _ => none) = some ⟨.next, text "true\n", 2⟩ := by decide +kernel
  have declares : declaresGo (forClauses (level 30) sharingContext sharingCursor.advance) = true := by
    decide +kernel
  cases accepted : forStatement (level 30) sharingContext sharingCursor with
  | fail t fault failed =>
    rw [accepted] at executed
    cases executed
  | ok tree next =>
    rw [accepted] at executed
    obtain ⟨clauses, body, whole, keyword, middle, clausesRead, _, _, facts⟩ := for_runs_directly accepted
    obtain ⟨same, leaves⟩ := facts ⟨0, 8⟩ (fun _ => 0) 4 8 sharing
      (Heap.Reached.addGlobals .empty).closed (by decide +kernel)
    obtain ⟨after, ended⟩ : ∃ after, (exec host tree sharing).machine? = some after := by
      cases ran : exec host tree sharing with
      | done signal after => exact ⟨after, rfl⟩
      | failed e after => exact ⟨after, rfl⟩
      | unfinished =>
        dsimp only at executed
        rw [ran] at executed
        cases executed
    obtain ⟨unleaked, shared⟩ := leaves after ended
    rw [clausesRead] at declares
    unfold declaresGo at declares
    split at declares
    · next span x literal condition step _ isIt =>
      cases isIt
      obtain ⟨begun, declared⟩ : ∃ begun, exec host (.declare span x (some (.literal literal (.boolean true))))
          (sharing.below sharing.scope) = .done .next begun := ⟨_, rfl⟩
      rw [← eq_of_beq declares]
      exact ⟨tree, next, _, body, whole, keyword, begun, after, rfl, same.symm.trans executed, ended, unleaked,
        shared span x _ rfl _ begun declared⟩
    · cases declares

end TinyScript
