import TinyScript.Proofs.Run.Beside
import TinyScript.Proofs.Session.Pieces

namespace TinyScript

structure Neighbours where
  heap : Heap
  interpreters : List Interpreter

inductive Deed where
  | create (limits : Limits) (patience : Nat)
  | call (who : Nat) (clock : Nat → Float) (program : List Stmt)

structure Answer where
  printed : Bytes
  error : Option Failure
  globals : List (Bytes × ValueType × Bytes)
  deriving DecidableEq

namespace Neighbours

def create (w : Neighbours) (limits : Limits) (patience : Nat) : Neighbours :=
  ⟨w.heap.addGlobals.2, w.interpreters ++ [⟨w.heap.addGlobals.1, limits, patience⟩]⟩

def call? (w : Neighbours) (who : Nat) (clock : Nat → Float) (program : List Stmt) :
    Option (Answer × Neighbours) := do
  let i ← w.interpreters[who]?
  let e ← i.execute? clock program w.heap 0
  return (⟨e.machine.output, e.error, e.machine.heap.shown i.globals⟩, { w with heap := e.machine.heap })

def run? (w : Neighbours) : List Deed → Option (List (Nat × Answer))
  | [] => some []
  | .create limits patience :: deeds => (w.create limits patience).run? deeds
  | .call who clock program :: deeds => do
    let called ← w.call? who clock program
    let answers ← called.2.run? deeds
    return (who, called.1) :: answers

end Neighbours

def Deed.concerns (keep : Nat → Bool) : Deed → Bool
  | .create _ _ => true
  | .call who _ _ => keep who

theorem Heap.Paired.shown {allowed : Position → Prop} {h h' : Heap} (paired : h.Paired allowed k h')
    (areTwins : k.twins i j) : h.shown i = h'.shown j := by
  have listed := paired.listing areTwins
  unfold Heap.shown
  generalize h.listing i = near, h'.listing j = far at listed
  induction listed with
  | nil => rfl
  | cons entry _ ih => rw [List.map_cons, List.map_cons, entry.1, entry.2.like.type, entry.2.like.render, ih]

-- The heaps of two histories: pairing `k` goes from one to the other, `d` from the second to itself.
structure Heap.Apart (k d : Pairing) (h h' : Heap) : Prop where
  kept : h.Paired anywhere k h'
  dropped : h'.Paired anywhere d h'
  apart : ∀ {a i j}, k.twins a i → ¬ d.stands i j ∧ ¬ d.twins j i
  keptGiven : ∀ {a b}, k.identity a b → a < h.identities ∧ b < h'.identities
  droppedGiven : ∀ {a b}, d.identity a b → a < h'.identities ∧ b < h'.identities

theorem Heap.Paired.framed {allowed : Position → Prop} {h h' g g' : Heap} (paired : h.Paired allowed k h')
    (given : ∀ {a b}, k.identity a b → a < h.identities ∧ b < h'.identities)
    (near : ∀ i j, k.stands i j → g.scopes[i]? = h.scopes[i]?)
    (far : ∀ i j, k.twins i j → g'.scopes[j]? = h'.scopes[j]?)
    (more : h.identities ≤ g.identities ∧ h'.identities ≤ g'.identities) : g.Paired allowed k g' := by
  refine paired.of_same near far fun {a b} same n => ?_
  have old := given same
  exact iff_of_false (by omega) (by omega)

namespace Heap.Apart

variable {h h' g g' : Heap}

theorem keptGrows (apart : h.Apart k d h') (grows : k.Grows h h' l g g') (paired : g.Paired anywhere l g') :
    g.Apart l d g' where
  kept := paired
  dropped := by
    refine apart.dropped.framed apart.droppedGiven (fun i j stands => ?_) (fun i j areTwins => ?_)
      ⟨grows.given.2, grows.given.2⟩
    · exact grows.others (apart.dropped.stands_lt stands).1 fun a isKept => (apart.apart isKept).1 stands
    · exact grows.others (apart.dropped.twins_lt areTwins).2 fun a isKept => (apart.apart isKept).2 areTwins
  apart {a i j} isKept := by
    rcases grows.twins isKept with old | new
    · exact apart.apart old
    · exact ⟨fun stands => Nat.not_lt.2 new (apart.dropped.stands_lt stands).1,
        fun areTwins => Nat.not_lt.2 new (apart.dropped.twins_lt areTwins).2⟩
  keptGiven same := by
    rcases grows.identity same with old | new
    · have before := apart.keptGiven old
      exact ⟨Nat.lt_of_lt_of_le before.1 grows.given.1, Nat.lt_of_lt_of_le before.2 grows.given.2⟩
    · exact new
  droppedGiven same :=
    have before := apart.droppedGiven same
    ⟨Nat.lt_of_lt_of_le before.1 grows.given.2, Nat.lt_of_lt_of_le before.2 grows.given.2⟩

-- In the history without their calls the others may still have been made.
theorem droppedGrows (apart : h.Apart k d h') (grows : d.Grows h' h' e g' g')
    (paired : g'.Paired anywhere e g') (same : ∀ i, i < h.scopes.size → g.scopes[i]? = h.scopes[i]?) (more : h.identities ≤ g.identities) :
    g.Apart k e g' where
  kept := by
    refine apart.kept.framed apart.keptGiven (fun i j stands => ?_) (fun i j areTwins => ?_)
      ⟨more, grows.given.2⟩
    · exact same i (apart.kept.stands_lt stands).1
    · exact grows.others (apart.kept.twins_lt areTwins).2 fun _ => (apart.apart areTwins).2
  dropped := paired
  apart {a i j} isKept := by
    have there := (apart.kept.twins_lt isKept).2
    have before := apart.apart isKept (j := j)
    constructor
    · intro stands
      exact (grows.stands stands).elim before.1 fun new => Nat.not_lt.2 new there
    · intro areTwins
      exact (grows.twins areTwins).elim before.2 fun new => Nat.not_lt.2 new there
  keptGiven same :=
    have before := apart.keptGiven same
    ⟨Nat.lt_of_lt_of_le before.1 more, Nat.lt_of_lt_of_le before.2 grows.given.2⟩
  droppedGiven same := by
    rcases grows.identity same with old | new
    · have before := apart.droppedGiven old
      exact ⟨Nat.lt_of_lt_of_le before.1 grows.given.1, Nat.lt_of_lt_of_le before.2 grows.given.2⟩
    · exact new

end Heap.Apart

theorem Interpreter.execute?_beside {allowed : Position → Prop} {i i' : Interpreter} {h h' : Heap}
    (limits : i.limits = i'.limits) (patience : i.patience = i'.patience) (paired : h.Paired allowed k h')
    (areTwins : k.twins i.globals i'.globals) (placed : Stmt.PlacedAll allowed program)
    (executed : i'.execute? clock program h' readings = some e') :
    ∃ e l, i.execute? clock program h readings = some e ∧ e.error = e'.error ∧
      e.machine.output = e'.machine.output ∧ k.Grows h h' l e.machine.heap e'.machine.heap ∧
      e.machine.heap.Paired allowed l e'.machine.heap := by
  have beside := run_beside limits patience paired areTwins placed clock readings
  unfold execute? at executed ⊢
  generalize i.run clock program h readings = o, i'.run clock program h' readings = o' at beside executed
  cases beside with
  | done later _ =>
    cases executed
    exact ⟨_, _, rfl, rfl, later.paired.output, later.grows, later.paired.heap⟩
  | failed later _ =>
    cases executed
    exact ⟨_, _, rfl, rfl, later.paired.output, later.grows, later.paired.heap⟩
  | unfinished => cases executed

-- The interpreters of the two histories. Those whose calls stay have their globals paired by `k`, the
-- others by `d`.
def Interpreter.Matches (k d : Pairing) (stays : Bool) (i i' : Interpreter) : Prop :=
  i.limits = i'.limits ∧ i.patience = i'.patience ∧
    if stays then k.twins i.globals i'.globals else d.twins i'.globals i'.globals

theorem Interpreter.Matches.mono {i i' : Interpreter} (same : i.Matches k d stays i') (more : k.Sub l)
    (more' : d.Sub e) : i.Matches l e stays i' := by
  obtain ⟨limits, patience, areTwins⟩ := same
  refine ⟨limits, patience, ?_⟩
  split
  · next stays => exact more.twins (by simpa [stays] using areTwins)
  · next goes => exact more'.twins (by simpa [goes] using areTwins)

structure Neighbours.Apart (keep : Nat → Bool) (k d : Pairing) (w w' : Neighbours) : Prop where
  heaps : w.heap.Apart k d w'.heap
  length : w.interpreters.length = w'.interpreters.length
  each : ∀ {n : Nat} {i' : Interpreter}, w'.interpreters[n]? = some i' →
    ∃ i : Interpreter, w.interpreters[n]? = some i ∧ i.Matches k d (keep n) i'

namespace Neighbours

variable {w w' : Neighbours} {keep : Nat → Bool}

theorem Apart.append (apart : w.Apart keep k d w') (more : k.Sub l) (more' : d.Sub e) {i i' : Interpreter}
    (new : i.Matches l e (keep w'.interpreters.length) i') (heaps : h.Apart l e h') :
    Apart keep l e ⟨h, w.interpreters ++ [i]⟩ ⟨h', w'.interpreters ++ [i']⟩ where
  heaps := heaps
  length := by simp [apart.length]
  each {n j'} found := by
    by_cases old : n < w'.interpreters.length
    · rw [List.getElem?_append_left old] at found
      obtain ⟨j, isHere, same⟩ := apart.each found
      exact ⟨j, (List.getElem?_append_left (apart.length ▸ old)).trans isHere, same.mono more more'⟩
    · rw [List.getElem?_append_right (Nat.not_lt.1 old), List.getElem?_singleton] at found
      split at found
      · next isLast =>
        cases found
        have last : n = w'.interpreters.length := by omega
        exact ⟨i, last ▸ apart.length ▸ List.getElem?_concat_length, last ▸ new⟩
      · cases found

theorem Apart.create (apart : w.Apart keep k d w') (limits : Limits) (patience : Nat) :
    ∃ l e, (w.create limits patience).Apart keep l e (w'.create limits patience) := by
  cases stays : keep w'.interpreters.length with
  | true =>
    obtain ⟨l, grows, paired, areTwins⟩ := apart.heaps.kept.addGlobals
    refine ⟨l, d, apart.append grows.sub (.refl d) ⟨rfl, rfl, ?_⟩ (apart.heaps.keptGrows grows paired)⟩
    rw [if_pos stays]
    exact areTwins
  | false =>
    have unlike : w.heap.Paired anywhere .nothing w.heap := .nothing _ _
    obtain ⟨_, near, _⟩ := unlike.addGlobals
    obtain ⟨e, grows, paired, areTwins⟩ := apart.heaps.dropped.addGlobals
    refine ⟨k, e, apart.append (.refl k) grows.sub ⟨rfl, rfl, ?_⟩ (apart.heaps.droppedGrows grows paired
      (fun _ there => near.others there fun _ => id) near.given.1)⟩
    rw [if_neg (by rw [stays]; decide)]
    exact areTwins

theorem Apart.callKept (apart : w.Apart keep k d w') (stays : keep who = true)
    (called : w'.call? who clock program = some (answer, v')) :
    ∃ v l, w.call? who clock program = some (answer, v) ∧ v.Apart keep l d v' := by
  unfold call? at called ⊢
  obtain ⟨i', isThere, called⟩ := Option.bind_eq_some_iff.1 called
  obtain ⟨e', executed, called⟩ := Option.bind_eq_some_iff.1 called
  cases called
  obtain ⟨i, isHere, limits, patience, areTwins⟩ := apart.each isThere
  rw [if_pos stays] at areTwins
  obtain ⟨e, l, executed', error, output, grows, paired⟩ := Interpreter.execute?_beside limits patience
    apart.heaps.kept areTwins (Stmt.placedAll_anywhere program) executed
  refine ⟨{ w with heap := e.machine.heap }, l, ?_, apart.heaps.keptGrows grows paired, apart.length,
    fun found => ?_⟩
  · rw [isHere, Option.bind_eq_bind, Option.bind_some, executed', Option.bind_eq_bind, Option.bind_some, error,
      output, paired.shown (grows.sub.twins areTwins)]
    rfl
  · obtain ⟨j, isHere, same⟩ := apart.each found
    exact ⟨j, isHere, same.mono grows.sub (.refl d)⟩

theorem Apart.callDropped (apart : w.Apart keep k d w') (goes : keep who = false)
    (called : w'.call? who clock program = some (answer, v')) : ∃ e, w.Apart keep k e v' := by
  unfold call? at called
  obtain ⟨i', isThere, called⟩ := Option.bind_eq_some_iff.1 called
  obtain ⟨e', executed, called⟩ := Option.bind_eq_some_iff.1 called
  cases called
  obtain ⟨i, isHere, _, _, areTwins⟩ := apart.each isThere
  rw [if_neg (by rw [goes]; decide)] at areTwins
  obtain ⟨e, l, executed', _, _, grows, paired⟩ := Interpreter.execute?_beside rfl rfl
    apart.heaps.dropped areTwins (Stmt.placedAll_anywhere program) executed
  cases executed'.symm.trans executed
  refine ⟨l, apart.heaps.droppedGrows grows paired (fun _ _ => rfl) (Nat.le_refl _), apart.length,
    fun found => ?_⟩
  obtain ⟨j, isHere, same⟩ := apart.each found
  exact ⟨j, isHere, same.mono (.refl k) grows.sub⟩

theorem Apart.run? (apart : w.Apart keep k d w') (ran : w'.run? deeds = some answers) :
    w.run? (deeds.filter (Deed.concerns keep)) = some (answers.filter fun answer => keep answer.1) := by
  induction deeds generalizing w w' k d answers with
  | nil =>
    cases ran
    rfl
  | cons deed deeds ih =>
    cases deed with
    | create limits patience =>
      obtain ⟨l, e, apart⟩ := apart.create limits patience
      rw [Neighbours.run?] at ran
      rw [List.filter_cons_of_pos rfl, Neighbours.run?]
      exact ih apart ran
    | call who clock program =>
      obtain ⟨⟨answer, v'⟩, called, ran⟩ := Option.bind_eq_some_iff.1 ran
      obtain ⟨later, continued, listed⟩ := Option.bind_eq_some_iff.1 ran
      cases listed
      cases stays : keep who with
      | true =>
        obtain ⟨v, l, called, apart⟩ := apart.callKept stays called
        have kept : (Deed.call who clock program).concerns keep = true := stays
        rw [List.filter_cons_of_pos kept, List.filter_cons_of_pos (by simp [stays]), Neighbours.run?, called,
          Option.bind_eq_bind, Option.bind_some, ih apart continued]
        rfl
      | false =>
        obtain ⟨e, apart⟩ := apart.callDropped stays called
        have gone : ¬ (Deed.call who clock program).concerns keep = true := by simp [Deed.concerns, stays]
        rw [List.filter_cons_of_neg gone, List.filter_cons_of_neg (by simp [stays])]
        exact ih apart continued

end Neighbours

theorem calls_never_interfere (heap : Heap) (keep : Nat → Bool)
    (ran : Neighbours.run? ⟨heap, []⟩ deeds = some answers) :
    Neighbours.run? ⟨heap, []⟩ (deeds.filter (Deed.concerns keep)) =
      some (answers.filter fun answer => keep answer.1) := by
  have apart : Neighbours.Apart keep .nothing .nothing ⟨heap, []⟩ ⟨heap, []⟩ :=
    ⟨⟨.nothing _ _, .nothing _ _, False.elim, False.elim, False.elim⟩, rfl, fun found => by cases found⟩
  exact apart.run? ran

-- Two interpreters bind the same names. A call on the second fails in a function, after it has changed a
-- variable, between two calls on the first.
def rivals : List Deed :=
  let call (who : Nat) (source : String) : Deed := .call who (fun _ => 0) (parse (scan (text source))).1
  [.create ⟨0, 8⟩ 0, .create ⟨0, 8⟩ 0,
   call 0 "var a = nil; fun f() \x7b return a; \x7d",
   call 1 "var a = true; fun f() \x7b a = f; return b; \x7d f();",
   call 0 "print f();"]

theorem calls_never_interfere_failing : ∃ answers, Neighbours.run? ⟨.empty, []⟩ rivals = some answers ∧
    answers.map (fun answer => (answer.1, answer.2.printed, answer.2.error.map (·.error.fault))) =
      [(0, [], none), (1, [], some (.undefinedVariable (text "b"))), (0, text "nil\n", none)] ∧
    Neighbours.run? ⟨.empty, []⟩ (rivals.filter (Deed.concerns (· == 0))) =
      some (answers.filter fun answer => answer.1 == 0) := by
  have ran : (Neighbours.run? ⟨.empty, []⟩ rivals).map (fun answers => answers.map fun answer =>
      (answer.1, answer.2.printed, answer.2.error.map (·.error.fault))) =
      some [(0, [], none), (1, [], some (.undefinedVariable (text "b"))), (0, text "nil\n", none)] := by
    decide +kernel
  obtain ⟨answers, answered, shown⟩ := Option.map_eq_some_iff.1 ran
  have same := calls_never_interfere .empty (· == 0) answered
  exact ⟨answers, answered, shown, same⟩

end TinyScript
