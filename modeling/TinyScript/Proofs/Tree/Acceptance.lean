import TinyScript.Proofs.Tree.Completeness

namespace TinyScript

open Grammar

structure Whole (tokens : List Token) : Prop where
  legal : ∀ t ∈ tokens, t.kind ≠ .illegal
  ended : ∃ body ending, tokens = body ++ [ending] ∧ ending.kind = .eof ∧ ∀ t ∈ body, t.kind ≠ .eof

namespace Parse

-- Declarations recover from every fault in them, so that a program is always read to its end.
def Total (r : Reader α) : Prop := ∀ ctx c, ∃ a next, r ctx c = .ok a next

theorem Total.bind {r : Reader α} {f : α → Reader β} (first : Total r) (second : ∀ a, Total (f a)) :
    Total (r >>= f) := by
  intro ctx c
  obtain ⟨a, mid, ran⟩ := first ctx c
  rw [Reader.bind_ok ran]
  exact second a ctx mid

theorem recovering_total (r : Reader α) : Total (recovering r) := by
  intro ctx c
  cases read : r ctx c with
  | ok a next => exact ⟨some a, next, recovering_ok read⟩
  | fail t fault failed =>
    obtain ⟨next, eq, _⟩ := recovering_fail read
    exact ⟨none, next, eq⟩

theorem level_declaration_total (n : Nat) : Total (level n).declaration := by
  cases n with
  | zero => exact recovering_total (failHere .noExpression)
  | succ n => exact recovering_total (declaration (n + 1) (level n))

theorem declarations_total {item : Reader (Option Stmt)} (total : Total item) (braced : Bool) (bound : Nat) :
    Total (declarations item braced bound) := by
  induction bound with
  | zero => exact fun _ c => ⟨[], c, rfl⟩
  | succ bound ih =>
    refine .bind (fun ctx c => ⟨_, c, rfl⟩) fun kind => ?_
    split
    · exact fun _ c => ⟨[], c, rfl⟩
    · exact total.bind fun s => ih.bind fun ss _ c => ⟨_, c, rfl⟩

end Parse

open Parse

theorem parse_body (ended : ending.kind = .eof) (inner : ∀ t ∈ body, t.kind ≠ .eof) :
    ∃ stmts c, declarations (level body.length).declaration false body.length ⟨ending, 0, 0⟩
        ⟨body, none, []⟩ = .ok stmts c ∧
      parse (body ++ [ending]) = (stmts, c.reported) := by
  obtain ⟨stmts, c, ran⟩ := declarations_total (level_declaration_total body.length) false body.length
    ⟨ending, 0, 0⟩ ⟨body, none, []⟩
  have taken : (body ++ [ending]).takeWhile (fun t => t.kind ≠ .eof) = body := by
    rw [List.takeWhile_append_of_pos (by simpa using inner)]
    simp [ended]
  have found : (body ++ [ending]).find? (fun t => t.kind = .eof) = some ending := by
    rw [List.find?_append, List.find?_eq_none.2 (by simpa using inner)]
    simp [ended]
  refine ⟨stmts, c, ran, ?_⟩
  simp only [parse, taken, found, Option.getD_some, ran]

theorem derives_of_parse (ended : ending.kind = .eof) (inner : ∀ t ∈ body, t.kind ≠ .eof)
    (legal : ∀ t ∈ body, t.kind ≠ .illegal) (clean : (parse (body ++ [ending])).2 = []) :
    Derives (.declarations false) body (Stmt.bareAll (parse (body ++ [ending])).1) := by
  obtain ⟨stmts, c, ran, eq⟩ := parse_body ended inner
  rw [eq] at clean ⊢
  obtain ⟨⟨w, split, derived⟩, stops⟩ := declarations_yields (level_sound body.length)
    ⟨ending, 0, 0⟩ false body.length body ⟨body, none, []⟩ stmts c rfl ⟨ended, legal⟩ ran clean
  have nothing : c.rest = [] := by
    rcases stops (Nat.le_refl _) with atEnd | ⟨braced, _⟩
    · cases found : c.rest with
      | nil => rfl
      | cons t ts =>
        rw [found] at atEnd split
        exact absurd atEnd (inner t (by simp [split]))
    · cases braced
  rw [nothing, List.append_nil] at split
  exact split ▸ derived

theorem parse_of_derives (ended : ending.kind = .eof) (inner : ∀ t ∈ body, t.kind ≠ .eof)
    (derived : Derives (.declarations false) body program) :
    (parse (body ++ [ending])).2 = [] ∧ Stmt.bareAll (parse (body ++ [ending])).1 = program := by
  obtain ⟨stmts, c, ran, eq⟩ := parse_body ended inner
  have short : (body ++ []).length ≤ body.length := by simp
  obtain ⟨stmts', stop, read, same⟩ := Derives.complete derived body.length body.length false
    ⟨ending, 0, 0⟩ [] rfl short short (.inl ended) none []
  rw [List.append_nil] at read
  cases ran.symm.trans read
  rw [eq]
  exact ⟨rfl, same⟩

theorem parse_exact (whole : Whole tokens) :
    (∀ program, Program tokens program ↔
      (parse tokens).2 = [] ∧ Stmt.bareAll (parse tokens).1 = program) ∧
    ∀ p q, Program tokens p → Program tokens q → p = q := by
  obtain ⟨legal, body, ending, rfl, ended, inner⟩ := whole
  have exact (program : List Stmt) : Program (body ++ [ending]) program ↔
      (parse (body ++ [ending])).2 = [] ∧ Stmt.bareAll (parse (body ++ [ending])).1 = program := by
    constructor
    · intro derived
      generalize same : body ++ [ending] = tokens at derived
      obtain ⟨derived, _⟩ := derived
      obtain ⟨rfl, last⟩ := List.append_inj' same rfl
      cases last
      exact parse_of_derives ended inner derived
    · rintro ⟨clean, rfl⟩
      have legalBody : ∀ t ∈ body, t.kind ≠ .illegal := fun t mem => legal t (List.mem_append_left _ mem)
      exact .program (derives_of_parse ended inner legalBody clean) ended
  refine ⟨exact, fun p q first second => ?_⟩
  exact ((exact p).1 first).2.symm.trans ((exact q).1 second).2

-- `if (a) if (b) print c; else print d;`, without spans.
def nestedBranches : List Token :=
  let mark (kind : Kind) : Token := ⟨kind, [], .nil, .unknown⟩
  let name (x : UInt8) : Token := ⟨.ident, [x], .nil, .unknown⟩
  [mark .kwIf, mark .leftParen, name 97, mark .rightParen,
   mark .kwIf, mark .leftParen, name 98, mark .rightParen,
   mark .kwPrint, name 99, mark .semicolon, mark .kwElse, mark .kwPrint, name 100, mark .semicolon,
   mark .eof]

theorem parse_exact_nestedBranches : Whole nestedBranches ∧ Program nestedBranches
    [.branch .unknown (.name .unknown [97])
      (.branch .unknown (.name .unknown [98]) (.print .unknown (.name .unknown [99]))
        (some (.print .unknown (.name .unknown [100])))) none] := by
  have whole : Whole nestedBranches :=
    ⟨by decide, nestedBranches.dropLast, ⟨.eof, [], .nil, .unknown⟩, rfl, rfl, by decide⟩
  exact ⟨whole, ((parse_exact whole).1 _).2 ⟨rfl, rfl⟩⟩

end TinyScript
