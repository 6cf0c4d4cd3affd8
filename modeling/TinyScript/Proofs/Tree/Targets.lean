import TinyScript.Proofs.Tree.Grammar

namespace TinyScript.Grammar

-- What the token before comes to: a name that may be assigned to, an operator that waits for an
-- operand, or anything else.
inductive Lead where
  | name | operator | other
  deriving DecidableEq, Repr

def isOperator (kind : Kind) : Bool := (precedence? kind).isSome || kind == .bang

-- What a token comes to behind another one. A sign is refused behind all but a name.
def Lead.next? (lead : Lead) (kind : Kind) : Option Lead :=
  if kind = .equal then if lead = .name then some .other else none
  else if kind = .ident then some (if lead = .operator then .other else .name)
  else some (if isOperator kind then .operator else .other)

def follow (lead : Lead) (tokens : List Token) : Option Lead :=
  tokens.foldlM (fun lead t => lead.next? t.kind) lead

namespace Lead

theorem next?_operator (lead : Lead) (joins : isOperator kind = true) : lead.next? kind = some .operator := by
  unfold next?
  rw [if_neg (by rintro rfl; cases joins), if_neg (by rintro rfl; cases joins), if_pos joins]

theorem next?_other (lead : Lead) (kind : Kind)
    (plain : (isOperator kind || kind == .equal || kind == .ident) = false) :
    lead.next? kind = some .other := by
  simp only [Bool.or_eq_false_iff, beq_eq_false_iff_ne] at plain
  unfold next?
  rw [if_neg plain.1.2, if_neg plain.2, plain.1.1]
  rfl

end Lead

theorem follow_cons (lead : Lead) (t : Token) (ts : List Token) :
    follow lead (t :: ts) = (lead.next? t.kind).bind (follow · ts) := rfl

theorem follow_append (lead : Lead) (u v : List Token) :
    follow lead (u ++ v) = (follow lead u).bind (follow · v) := List.foldlM_append

theorem follow_other (isKind : t.kind = kind)
    (plain : (isOperator kind || kind == .equal || kind == .ident) = false) (lead : Lead) (ts : List Token) :
    follow lead (t :: ts) = follow .other ts := by
  rw [follow_cons, isKind, lead.next?_other kind plain]
  rfl

theorem follow_operator (joins : isOperator t.kind = true) (lead : Lead) (ts : List Token) :
    follow lead (t :: ts) = follow .operator ts := by
  rw [follow_cons, lead.next?_operator joins]
  rfl

theorem follow_name (isName : t.kind = .ident) (lead : Lead) (free : lead ≠ .operator) (ts : List Token) :
    follow lead (t :: ts) = follow .name ts := by
  rw [follow_cons, isName]
  cases lead with
  | operator => exact absurd rfl free
  | name | other => rfl

theorem follow_sign (isSign : t.kind = .equal) (ts : List Token) :
    follow .name (t :: ts) = follow .other ts := by
  rw [follow_cons, isSign]
  rfl

theorem follow_through {lead next : Lead} (read : follow lead w = some next) (v : List Token) :
    follow lead (w ++ v) = follow next v := by
  rw [follow_append, read]
  rfl

theorem follow_closed {lead next : Lead} (read : follow lead w = some next) (isKind : t.kind = kind)
    (plain : (isOperator kind || kind == .equal || kind == .ident) = false) (v : List Token) :
    follow lead (w ++ t :: v) = follow .other v := by
  rw [follow_through read, follow_other isKind plain]

theorem follow_unsigned {tokens : List Token} (unsigned : ∀ t ∈ tokens, t.kind ≠ .equal) (lead : Lead) :
    (follow lead tokens).isSome = true := by
  induction tokens generalizing lead with
  | nil => rfl
  | cons t ts ih =>
    obtain ⟨other, unsigned⟩ := List.forall_mem_cons.1 unsigned
    rw [follow_cons, Lead.next?, if_neg other]
    split <;> exact ih unsigned _

-- How the words of a symbol are followed. An operand may stand behind an operator; it comes to a name
-- only if it is one and stands behind none.
def Followed : {α : Type} → Symbol α → List Token → Prop
  | _, .primary, w | _, .call, w | _, .unary, w | _, .operation _, w =>
    ∀ lead, ∃ next, follow lead w = some next ∧ next ≠ .operator ∧
      (next = .name → lead ≠ .operator ∧ ∃ t, w = [t] ∧ t.kind = .ident)
  | _, .expression, w | _, .clause, w | _, .arguments, w | _, .parameters, w =>
    ∀ lead, lead ≠ .operator → ∃ next, follow lead w = some next ∧ next ≠ .operator
  | _, .function, w | _, .block _, w => ∀ lead, follow lead w = some .other
  | _, .initial, w | _, .variableDeclaration, w | _, .expressionStatement, w | _, .statement _ _, w
  | _, .declaration _, w => ∀ lead, lead ≠ .operator → follow lead w = some .other
  | _, .declarations _, w => follow .other w = some .other

theorem isOperator_of_precedence (found : precedence? kind = some p) : isOperator kind = true := by
  unfold isOperator
  rw [found]
  rfl

theorem isOperator_of_sign (isSign : kind = .bang ∨ kind = .minus) : isOperator kind = true := by
  rcases isSign with rfl | rfl <;> rfl

theorem Derives.followed {sym : Symbol α} (derived : Derives sym w a) : Followed sym w := by
  induction derived with
  | yes isKind | no isKind | nil isKind | number isKind | string isKind =>
    exact fun lead => ⟨.other, follow_other isKind rfl lead [], nofun, nofun⟩
  | name isName =>
    intro lead
    by_cases waits : lead = .operator
    · exact ⟨.other, by rw [waits, follow_cons, isName]; rfl, nofun, nofun⟩
    · exact ⟨.name, follow_name isName lead waits [], nofun, fun _ => ⟨waits, _, rfl, isName⟩⟩
  | grouping isOpen _ isClose ih =>
    intro lead
    obtain ⟨next, read, _⟩ := ih .other nofun
    refine ⟨.other, ?_, nofun, nofun⟩
    rw [List.cons_append, follow_other isOpen rfl]
    exact follow_closed read isClose rfl []
  | lambda isFun _ ih =>
    refine fun lead => ⟨.other, ?_, nofun, nofun⟩
    rw [follow_other isFun rfl]
    exact ih .other
  | callee _ ih | operand _ ih => exact ih
  | callEmpty _ isOpen isClose ih =>
    intro lead
    obtain ⟨next, read, _⟩ := ih lead
    refine ⟨.other, ?_, nofun, nofun⟩
    rw [follow_closed read isOpen rfl]
    exact follow_other isClose rfl _ []
  | callWith _ isOpen _ _ isClose ih ihArgs =>
    intro lead
    obtain ⟨next, read, _⟩ := ih lead
    obtain ⟨last, readArgs, _⟩ := ihArgs .other nofun
    refine ⟨.other, ?_, nofun, nofun⟩
    rw [List.append_assoc, List.cons_append, follow_closed read isOpen rfl]
    exact follow_closed readArgs isClose rfl []
  | argument _ ih | clause _ ih => exact ih
  | argumentMore _ isComma _ ih ihMore =>
    intro lead free
    obtain ⟨next, read, _⟩ := ih lead free
    obtain ⟨last, readMore, closed⟩ := ihMore .other nofun
    exact ⟨last, by rw [follow_closed read isComma rfl, readMore], closed⟩
  | signed isSign _ ih =>
    intro lead
    obtain ⟨next, read, closed, named⟩ := ih .operator
    refine ⟨next, by rw [follow_operator (isOperator_of_sign isSign), read], closed, fun isName => ?_⟩
    exact absurd rfl (named isName).1
  | single p _ ih => cases p <;> exact ih
  | joined p _ found _ ih ihRight =>
    intro lead
    obtain ⟨next, read, _⟩ := ih lead
    obtain ⟨last, readRight, closed, named⟩ : ∃ last, follow .operator _ = some last ∧ last ≠ .operator ∧
        (last = .name → Lead.operator ≠ .operator ∧ _) := by cases p <;> exact ihRight .operator
    refine ⟨last, ?_, closed, fun isName => absurd rfl (named isName).1⟩
    rw [follow_through read, follow_operator (isOperator_of_precedence found), readRight]
  | value _ ih =>
    intro lead _
    obtain ⟨next, read, closed, _⟩ := ih lead
    exact ⟨next, read, closed⟩
  | assignment isName isSign _ ih =>
    intro lead free
    rw [follow_name isName lead free, follow_sign isSign]
    exact ih .other nofun
  | noClause => exact fun lead free => ⟨lead, rfl, free⟩
  | parameter isName => exact fun lead free => ⟨.name, follow_name isName lead free [], nofun⟩
  | parameterMore isName isComma _ ih =>
    intro lead free
    rw [follow_name isName lead free, follow_other isComma rfl]
    exact ih .other nofun
  | thunk isOpen isClose _ ih =>
    intro lead
    rw [follow_other isOpen rfl, follow_other isClose rfl]
    exact ih .other
  | function isOpen _ _ isClose _ ih ihBody =>
    intro lead
    obtain ⟨next, read, _⟩ := ih .other nofun
    rw [List.cons_append, follow_other isOpen rfl, follow_closed read isClose rfl]
    exact ihBody .other
  | block isOpen _ isClose ih =>
    intro lead
    rw [List.cons_append, follow_other isOpen rfl]
    exact follow_closed ih isClose rfl []
  | unset isVar isName isEnd =>
    intro lead _
    rw [follow_other isVar rfl, follow_name isName .other nofun]
    exact follow_other isEnd rfl _ []
  | set isVar isName isSign _ isEnd ih =>
    intro lead _
    obtain ⟨next, read, _⟩ := ih .other nofun
    simp only [List.cons_append]
    rw [follow_other isVar rfl, follow_name isName .other nofun, follow_sign isSign]
    exact follow_closed read isEnd rfl []
  | expressionStatement _ isEnd ih =>
    intro lead free
    obtain ⟨next, read, _⟩ := ih lead free
    exact follow_closed read isEnd rfl []
  | noInitial isEnd => exact fun lead _ => follow_other isEnd rfl lead []
  | initialVariable _ ih | initialExpression _ ih | simple _ ih | variableDeclaration _ ih
  | statement _ ih => exact ih
  | print isPrint _ isEnd ih | giveBack isPrint _ isEnd ih =>
    intro lead _
    obtain ⟨next, read, _⟩ := ih .other nofun
    rw [List.cons_append, follow_other isPrint rfl]
    exact follow_closed read isEnd rfl []
  | braces _ ih => exact fun lead _ => ih lead
  | loop isWhile isOpen _ isClose _ ih ihBody | branch isWhile isOpen _ isClose _ ih ihBody =>
    intro lead _
    obtain ⟨next, read, _⟩ := ih .other nofun
    simp only [List.cons_append]
    rw [follow_other isWhile rfl, follow_other isOpen rfl, follow_closed read isClose rfl]
    exact ihBody .other nofun
  | counted isFor isOpen _ _ isEnd _ isClose _ ih ihTest ihStep ihBody =>
    intro lead _
    obtain ⟨next, test, _⟩ := ihTest .other nofun
    obtain ⟨last, step, _⟩ := ihStep .other nofun
    simp only [List.cons_append, List.append_assoc]
    rw [follow_other isFor rfl, follow_other isOpen rfl, follow_through (ih .other nofun),
      follow_closed test isEnd rfl, follow_closed step isClose rfl]
    exact ihBody .other nofun
  | branchElse isIf isOpen _ isClose _ isElse _ ih ihYes ihNo =>
    intro lead _
    obtain ⟨next, read, _⟩ := ih .other nofun
    simp only [List.cons_append, List.append_assoc]
    rw [follow_other isIf rfl, follow_other isOpen rfl, follow_closed read isClose rfl,
      follow_closed (ihYes .other nofun) isElse rfl]
    exact ihNo .other nofun
  | functionDeclaration isFun isName _ ih =>
    intro lead _
    rw [follow_other isFun rfl, follow_name isName .other nofun]
    exact ih .name
  | noDeclarations => rfl
  | declarations _ _ ih ihMore =>
    show follow _ _ = _
    rw [follow_through (ih .other nofun)]
    exact ihMore

theorem Derives.name_of_follow (derived : Derives (.operation p) w e) (isSign : t.kind = .equal)
    (fits : (follow lead (w ++ t :: ts)).isSome = true) : ∃ n, w = [n] ∧ n.kind = .ident := by
  obtain ⟨next, read, _, named⟩ := derived.followed lead
  rw [follow_through read, follow_cons, isSign] at fits
  cases next with
  | name => exact (named rfl).2
  | operator | other => cases fits

end TinyScript.Grammar
