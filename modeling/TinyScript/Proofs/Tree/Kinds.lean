import TinyScript.Proofs.Tree.Grammar

namespace TinyScript.Grammar

def kinds (tokens : List Token) : List Kind := tokens.map Token.kind

theorem kinds_append (u v : List Token) : kinds (u ++ v) = kinds u ++ kinds v := List.map_append

theorem forall_kinds {p : Kind → Prop} (same : kinds v = kinds w) (all : ∀ t ∈ w, p t.kind) :
    ∀ t ∈ v, p t.kind := by
  rw [← List.forall_mem_map (f := Token.kind) (P := p)] at all ⊢
  exact (same ▸ all : ∀ k ∈ kinds v, p k)

section

variable {w w₁ w₂ : List Token} {t : Token} {v : List Token}

theorem split_nil (same : kinds v = kinds []) : v = [] := List.map_eq_nil_iff.1 same

theorem split_cons (same : kinds v = kinds (t :: w)) :
    ∃ u us, v = u :: us ∧ u.kind = t.kind ∧ kinds us = kinds w := List.map_eq_cons_iff.1 same

theorem split_single (same : kinds v = kinds [t]) : ∃ u, v = [u] ∧ u.kind = t.kind := by
  obtain ⟨u, us, rfl, isKind, rest⟩ := split_cons same
  cases split_nil rest
  exact ⟨u, rfl, isKind⟩

theorem split_append (same : kinds v = kinds (w₁ ++ w₂)) :
    ∃ v₁ v₂, v = v₁ ++ v₂ ∧ kinds v₁ = kinds w₁ ∧ kinds v₂ = kinds w₂ := by
  unfold kinds at same
  rw [List.map_append] at same
  exact List.map_eq_append_iff.1 same

theorem split_last (same : kinds v = kinds (w ++ [t])) :
    ∃ v' u, v = v' ++ [u] ∧ kinds v' = kinds w ∧ u.kind = t.kind := by
  obtain ⟨v', us, rfl, before, behind⟩ := split_append same
  obtain ⟨u, rfl, isKind⟩ := split_single behind
  exact ⟨v', u, rfl, before, isKind⟩

theorem split_between (same : kinds v = kinds (w₁ ++ t :: w₂)) :
    ∃ v₁ u v₂, v = v₁ ++ u :: v₂ ∧ kinds v₁ = kinds w₁ ∧ u.kind = t.kind ∧ kinds v₂ = kinds w₂ := by
  obtain ⟨v₁, us, rfl, before, behind⟩ := split_append same
  obtain ⟨u, v₂, rfl, isKind, after⟩ := split_cons behind
  exact ⟨v₁, u, v₂, rfl, before, isKind, after⟩

end

-- What of a tree does not depend on the texts of the tokens.
def SameSize : {α : Type} → Symbol α → α → α → Prop
  | _, .arguments, args, args' => args'.length = args.length
  | _, .parameters, params, params' => params'.length = params.length
  | _, _, _, _ => True

theorem of_single {sym : Symbol α} (same : kinds v = kinds [t]) (isKind : t.kind = kind)
    (leaf : ∀ u : Token, u.kind = kind → ∃ b, Derives sym [u] b ∧ SameSize sym a b) :
    ∃ b, Derives sym v b ∧ SameSize sym a b := by
  obtain ⟨u, rfl, here⟩ := split_single same
  exact leaf u (here.trans isKind)

theorem Derives.of_kinds {sym : Symbol α} (derived : Derives sym w a) :
    ∀ {v}, kinds v = kinds w → ∃ b, Derives sym v b ∧ SameSize sym a b := by
  induction derived with
  | yes isKind =>
    intro v same
    exact of_single same isKind fun u here => ⟨_, .yes here, trivial⟩
  | no isKind =>
    intro v same
    exact of_single same isKind fun u here => ⟨_, .no here, trivial⟩
  | nil isKind =>
    intro v same
    exact of_single same isKind fun u here => ⟨_, .nil here, trivial⟩
  | number isKind =>
    intro v same
    exact of_single same isKind fun u here => ⟨_, .number here, trivial⟩
  | string isKind =>
    intro v same
    exact of_single same isKind fun u here => ⟨_, .string here, trivial⟩
  | name isKind =>
    intro v same
    exact of_single same isKind fun u here => ⟨_, .name here, trivial⟩
  | grouping isOpen _ isClose ih =>
    intro v same
    obtain ⟨l, us, rfl, opens, rest⟩ := split_cons same
    obtain ⟨w, r, rfl, middle, closes⟩ := split_last rest
    obtain ⟨e, derived, _⟩ := ih middle
    exact ⟨_, .grouping (opens.trans isOpen) derived (closes.trans isClose), trivial⟩
  | lambda isFun _ ih =>
    intro v same
    obtain ⟨t, w, rfl, here, rest⟩ := split_cons same
    obtain ⟨f, derived, _⟩ := ih rest
    exact ⟨_, .lambda (here.trans isFun) derived, trivial⟩
  | callee _ ih =>
    intro v same
    obtain ⟨e, derived, _⟩ := ih same
    exact ⟨e, .callee derived, trivial⟩
  | callEmpty _ isOpen isClose ih =>
    intro v same
    obtain ⟨w, l, rs, rfl, before, opens, rest⟩ := split_between same
    obtain ⟨r, rfl, closes⟩ := split_single rest
    obtain ⟨e, derived, _⟩ := ih before
    exact ⟨_, .callEmpty derived (opens.trans isOpen) (closes.trans isClose), trivial⟩
  | callWith _ isOpen _ short isClose ih ihArgs =>
    intro v same
    obtain ⟨front, r, rfl, front', closes⟩ := split_last same
    obtain ⟨w, l, z, rfl, before, opens, rest⟩ := split_between front'
    obtain ⟨e, derived, _⟩ := ih before
    obtain ⟨args, list, size⟩ := ihArgs rest
    exact ⟨_, .callWith derived (opens.trans isOpen) list (size ▸ short) (closes.trans isClose), trivial⟩
  | argument _ ih =>
    intro v same
    obtain ⟨e, derived, _⟩ := ih same
    exact ⟨_, .argument derived, rfl⟩
  | argumentMore _ isComma _ ih ihMore =>
    intro v same
    obtain ⟨w, t, z, rfl, before, here, rest⟩ := split_between same
    obtain ⟨e, derived, _⟩ := ih before
    obtain ⟨args, list, size⟩ := ihMore rest
    exact ⟨_, .argumentMore derived (here.trans isComma) list, congrArg (· + 1) size⟩
  | operand _ ih =>
    intro v same
    obtain ⟨e, derived, _⟩ := ih same
    exact ⟨e, .operand derived, trivial⟩
  | signed isSign _ ih =>
    intro v same
    obtain ⟨t, w, rfl, here, rest⟩ := split_cons same
    obtain ⟨e, derived, _⟩ := ih rest
    exact ⟨_, .signed (here ▸ isSign) derived, trivial⟩
  | single p _ ih =>
    intro v same
    obtain ⟨e, derived, _⟩ := ih same
    exact ⟨e, .single p derived, trivial⟩
  | joined p _ found _ ih ihRight =>
    intro v same
    obtain ⟨w, t, z, rfl, before, here, rest⟩ := split_between same
    obtain ⟨left, derived, _⟩ := ih before
    obtain ⟨right, operand, _⟩ := ihRight rest
    exact ⟨_, .joined p derived (here ▸ found) operand, trivial⟩
  | value _ ih =>
    intro v same
    obtain ⟨e, derived, _⟩ := ih same
    exact ⟨e, .value derived, trivial⟩
  | assignment isName isSign _ ih =>
    intro v same
    obtain ⟨t, us, rfl, named, rest⟩ := split_cons same
    obtain ⟨u, w, rfl, signed, value⟩ := split_cons rest
    obtain ⟨e, derived, _⟩ := ih value
    exact ⟨_, .assignment (named.trans isName) (signed.trans isSign) derived, trivial⟩
  | noClause =>
    intro v same
    cases split_nil same
    exact ⟨_, .noClause, trivial⟩
  | clause _ ih =>
    intro v same
    obtain ⟨e, derived, _⟩ := ih same
    exact ⟨_, .clause derived, trivial⟩
  | parameter isName =>
    intro v same
    exact of_single same isName fun u named => ⟨_, .parameter named, rfl⟩
  | parameterMore isName isComma _ ih =>
    intro v same
    obtain ⟨t, us, rfl, named, rest⟩ := split_cons same
    obtain ⟨u, w, rfl, here, more⟩ := split_cons rest
    obtain ⟨params, derived, size⟩ := ih more
    exact ⟨_, .parameterMore (named.trans isName) (here.trans isComma) derived, congrArg (· + 1) size⟩
  | thunk isOpen isClose _ ih =>
    intro v same
    obtain ⟨t, us, rfl, opens, rest⟩ := split_cons same
    obtain ⟨u, w, rfl, closes, body⟩ := split_cons rest
    obtain ⟨b, derived, _⟩ := ih body
    exact ⟨_, .thunk (opens.trans isOpen) (closes.trans isClose) derived, trivial⟩
  | function isOpen _ short isClose _ ih ihBody =>
    intro v same
    obtain ⟨t, us, rfl, opens, rest⟩ := split_cons same
    obtain ⟨z, u, w, rfl, list, closes, body⟩ := split_between rest
    obtain ⟨params, names, size⟩ := ih list
    obtain ⟨b, derived, _⟩ := ihBody body
    exact ⟨_, .function (opens.trans isOpen) names (size ▸ short) (closes.trans isClose) derived, trivial⟩
  | block isOpen _ isClose ih =>
    intro v same
    obtain ⟨l, us, rfl, opens, rest⟩ := split_cons same
    obtain ⟨w, r, rfl, middle, closes⟩ := split_last rest
    obtain ⟨ss, derived, _⟩ := ih middle
    exact ⟨_, .block (opens.trans isOpen) derived (closes.trans isClose), trivial⟩
  | unset isVar isName isEnd =>
    intro v same
    obtain ⟨t, us, rfl, here, rest⟩ := split_cons same
    obtain ⟨x, ms, rfl, named, last⟩ := split_cons rest
    obtain ⟨m, rfl, ends⟩ := split_single last
    exact ⟨_, .unset (here.trans isVar) (named.trans isName) (ends.trans isEnd), trivial⟩
  | set isVar isName isSign _ isEnd ih =>
    intro v same
    obtain ⟨t, us, rfl, here, rest⟩ := split_cons same
    obtain ⟨x, ss, rfl, named, more⟩ := split_cons rest
    obtain ⟨s, ws, rfl, signed, value⟩ := split_cons more
    obtain ⟨w, m, rfl, middle, ends⟩ := split_last value
    obtain ⟨e, derived, _⟩ := ih middle
    exact ⟨_, .set (here.trans isVar) (named.trans isName) (signed.trans isSign) derived (ends.trans isEnd),
      trivial⟩
  | expressionStatement _ isEnd ih =>
    intro v same
    obtain ⟨w, m, rfl, middle, ends⟩ := split_last same
    obtain ⟨e, derived, _⟩ := ih middle
    exact ⟨_, .expressionStatement derived (ends.trans isEnd), trivial⟩
  | noInitial isEnd =>
    intro v same
    exact of_single same isEnd fun m ends => ⟨_, .noInitial ends, trivial⟩
  | initialVariable _ ih =>
    intro v same
    obtain ⟨s, derived, _⟩ := ih same
    exact ⟨_, .initialVariable derived, trivial⟩
  | initialExpression _ ih =>
    intro v same
    obtain ⟨s, derived, _⟩ := ih same
    exact ⟨_, .initialExpression derived, trivial⟩
  | simple _ ih =>
    intro v same
    obtain ⟨s, derived, _⟩ := ih same
    exact ⟨s, .simple derived, trivial⟩
  | print isPrint _ isEnd ih =>
    intro v same
    obtain ⟨t, ws, rfl, here, rest⟩ := split_cons same
    obtain ⟨w, m, rfl, middle, ends⟩ := split_last rest
    obtain ⟨e, derived, _⟩ := ih middle
    exact ⟨_, .print (here.trans isPrint) derived (ends.trans isEnd), trivial⟩
  | giveBack isReturn _ isEnd ih =>
    intro v same
    obtain ⟨t, ws, rfl, here, rest⟩ := split_cons same
    obtain ⟨w, m, rfl, middle, ends⟩ := split_last rest
    obtain ⟨e, derived, _⟩ := ih middle
    exact ⟨_, .giveBack (here.trans isReturn) derived (ends.trans isEnd), trivial⟩
  | braces _ ih =>
    intro v same
    obtain ⟨b, derived, _⟩ := ih same
    exact ⟨_, .braces derived, trivial⟩
  | loop isWhile isOpen _ isClose _ ih ihBody =>
    intro v same
    obtain ⟨t, ls, rfl, here, rest⟩ := split_cons same
    obtain ⟨l, ws, rfl, opens, more⟩ := split_cons rest
    obtain ⟨w, r, z, rfl, middle, closes, behind⟩ := split_between more
    obtain ⟨e, condition, _⟩ := ih middle
    obtain ⟨s, body, _⟩ := ihBody behind
    exact ⟨_, .loop (here.trans isWhile) (opens.trans isOpen) condition (closes.trans isClose) body, trivial⟩
  | counted isFor isOpen _ _ isEnd _ isClose _ ih ihTest ihStep ihBody =>
    intro v same
    obtain ⟨front, r, z, rfl, front', closes, behind⟩ := split_between same
    obtain ⟨heads, m, w₃, rfl, heads', ends, third⟩ := split_between front'
    obtain ⟨t, ls, rfl, here, rest⟩ := split_cons heads'
    obtain ⟨l, ws, rfl, opens, more⟩ := split_cons rest
    obtain ⟨w₁, w₂, rfl, first, second⟩ := split_append more
    obtain ⟨s, initial, _⟩ := ih first
    obtain ⟨c, test, _⟩ := ihTest second
    obtain ⟨e, step, _⟩ := ihStep third
    obtain ⟨b, body, _⟩ := ihBody behind
    exact ⟨_, .counted (here.trans isFor) (opens.trans isOpen) initial test (ends.trans isEnd) step
      (closes.trans isClose) body, trivial⟩
  | branch isIf isOpen _ isClose _ ih ihBody =>
    intro v same
    obtain ⟨t, ls, rfl, here, rest⟩ := split_cons same
    obtain ⟨l, ws, rfl, opens, more⟩ := split_cons rest
    obtain ⟨w, r, z, rfl, middle, closes, behind⟩ := split_between more
    obtain ⟨e, condition, _⟩ := ih middle
    obtain ⟨s, body, _⟩ := ihBody behind
    exact ⟨_, .branch (here.trans isIf) (opens.trans isOpen) condition (closes.trans isClose) body, trivial⟩
  | branchElse isIf isOpen _ isClose _ isElse _ ih ihYes ihNo =>
    intro v same
    obtain ⟨front, u, z, rfl, front', refuses, last⟩ := split_between same
    obtain ⟨t, ls, rfl, here, rest⟩ := split_cons front'
    obtain ⟨l, ws, rfl, opens, more⟩ := split_cons rest
    obtain ⟨w, r, y, rfl, middle, closes, behind⟩ := split_between more
    obtain ⟨e, condition, _⟩ := ih middle
    obtain ⟨s, yes, _⟩ := ihYes behind
    obtain ⟨s', no, _⟩ := ihNo last
    exact ⟨_, .branchElse (here.trans isIf) (opens.trans isOpen) condition (closes.trans isClose) yes
      (refuses.trans isElse) no, trivial⟩
  | functionDeclaration isFun isName _ ih =>
    intro v same
    obtain ⟨t, us, rfl, here, rest⟩ := split_cons same
    obtain ⟨x, w, rfl, named, more⟩ := split_cons rest
    obtain ⟨f, derived, _⟩ := ih more
    exact ⟨_, .functionDeclaration (here.trans isFun) (named.trans isName) derived, trivial⟩
  | variableDeclaration _ ih =>
    intro v same
    obtain ⟨s, derived, _⟩ := ih same
    exact ⟨s, .variableDeclaration derived, trivial⟩
  | statement _ ih =>
    intro v same
    obtain ⟨s, derived, _⟩ := ih same
    exact ⟨s, .statement derived, trivial⟩
  | noDeclarations =>
    intro v same
    cases split_nil same
    exact ⟨_, .noDeclarations, trivial⟩
  | declarations _ _ ih ihMore =>
    intro v same
    obtain ⟨w, z, rfl, first, second⟩ := split_append same
    obtain ⟨s, derived, _⟩ := ih first
    obtain ⟨ss, more, _⟩ := ihMore second
    exact ⟨_, .declarations derived more, trivial⟩

end TinyScript.Grammar
