import TinyScript.Proofs.Repl.Chunks
import TinyScript.Proofs.Repl.Continuation
import TinyScript.Proofs.Session.Pieces
import TinyScript.Proofs.Token.Seam
import TinyScript.Proofs.Tree.Completion
import TinyScript.Proofs.Tree.Kinds
import TinyScript.Proofs.Tree.Room

namespace TinyScript

open Grammar Parse Scan

def Token.closed (t : Token) : Token :=
  if t.kind = .illegal ∧ t.lexeme.head? = some quoteMark then { t with kind := .string } else t

theorem Token.closed_open {t : Token} (isOpen : OpenString t) : t.closed = { t with kind := .string } :=
  if_pos isOpen

theorem Token.closed_other {t : Token} (other : ¬OpenString t) : t.closed = t := if_neg other

def closedScan (p : Bytes) : List Token := (scan p).map Token.closed

structure Promising (tokens : List Token) : Prop where
  legal : ∀ t ∈ tokens, t.kind ≠ .illegal
  faults : ∀ d ∈ (parse tokens).2, Mends d
  targets : (follow .other tokens).isSome = true

instance (tokens : List Token) : Decidable (Promising tokens) :=
  decidable_of_iff ((∀ t ∈ tokens, t.kind ≠ .illegal) ∧ (∀ d ∈ (parse tokens).2, Mends d) ∧
      (follow .other tokens).isSome = true)
    ⟨fun ⟨legal, faults, targets⟩ => ⟨legal, faults, targets⟩,
      fun promising => ⟨promising.legal, promising.faults, promising.targets⟩⟩

def Hopeful (p : Bytes) : Prop := Promising (closedScan p)

instance (p : Bytes) : Decidable (Hopeful p) := inferInstanceAs (Decidable (Promising _))

theorem map_closed {tokens : List Token} (others : ∀ t ∈ tokens, ¬OpenString t) :
    tokens.map Token.closed = tokens := by
  rw [List.map_congr_left fun t mem => Token.closed_other (others t mem)]
  exact List.map_id' tokens

-- With these bytes behind the text, if all is legal then, the tokens begin with ones of the same kinds.
def Carries (p q : Bytes) (body : List Token) : Prop :=
  (∀ t ∈ scan (p ++ q), t.kind ≠ .illegal) →
    ∃ body' place rest, kinds body' = kinds body ∧ scan (p ++ q) = body' ++ tokensFrom place rest

structure Continued (p : Bytes) (body : List Token) : Prop where
  closed : ∃ stop, closedScan p = body ++ [.ending stop]
  inner : ∀ t ∈ body, t.kind ≠ .eof
  opening : ∃ opening, ∀ rest, ∃ body' place, kinds body' = kinds body ∧
    scan (p ++ (Bytes.newline ++ opening ++ rest)) = body' ++ tokensFrom place rest
  lines : ∀ q, Carries p (Bytes.newline ++ q) body
  string : (∃ t ∈ scan p, OpenString t) → ∀ q, Carries p q body

theorem continued_closed {p : Bytes} (others : ∀ t ∈ body, ¬OpenString t)
    (alone : tokensFrom .start p = body ++ [.ending stop])
    (eq : ∀ rest, tokensFrom .start (p ++ byte '\n' :: rest) = body ++ tokensFrom place rest) :
    Continued p body where
  closed := by
    refine ⟨stop, ?_⟩
    rw [closedScan, scan, alone, List.map_append, map_closed others]
    rfl
  inner := tokensFrom_inner alone
  opening := ⟨[], fun rest => ⟨body, place, rfl, eq rest⟩⟩
  lines q _ := ⟨body, place, q, rfl, eq q⟩
  string := by
    rintro ⟨t, mem, isOpen⟩
    rw [scan, alone, List.mem_append, List.mem_singleton] at mem
    rcases mem with mem | rfl
    · exact absurd isOpen (others t mem)
    · exact absurd isOpen.1 (show Kind.eof ≠ .illegal by decide)

theorem continued_open {p : Bytes} (others : ∀ t ∈ body, ¬OpenString t) (unclosed : quoteMark ∉ more)
    (alone : tokensFrom .start p = body ++ tokensFrom start (quoteMark :: more))
    (eq : ∀ q, tokensFrom .start (p ++ q) = body ++ tokensFrom start (quoteMark :: (more ++ q))) :
    Continued p (body ++ [(tokenAt start quoteMark more).closed]) := by
  obtain ⟨stop, last⟩ := tokensFrom_open start unclosed
  have isString : (tokenAt start quoteMark more).closed.kind = .string := by
    rw [Token.closed_open (tokenAt_open start unclosed)]
  have longer {inside : Bytes} (unquoted : quoteMark ∉ inside) : quoteMark ∉ more ++ inside := by
    rw [List.mem_append, not_or]
    exact ⟨unclosed, unquoted⟩
  have ends (inside behind : Bytes) (unquoted : quoteMark ∉ inside) : ∃ body' place,
      kinds body' = kinds (body ++ [(tokenAt start quoteMark more).closed]) ∧
      scan (p ++ (inside ++ quoteMark :: behind)) = body' ++ tokensFrom place behind := by
    obtain ⟨t, place, isString', ended⟩ := tokensFrom_closed start (longer unquoted) behind
    refine ⟨body ++ [t], place, ?_, ?_⟩
    · rw [kinds_append, kinds_append]
      simp [kinds, isString, isString']
    · rw [scan, eq, List.append_assoc, List.singleton_append, ← ended, List.append_assoc]
  have carries (q : Bytes) : Carries p q (body ++ [(tokenAt start quoteMark more).closed]) := by
    intro legal
    have closes : quoteMark ∈ q := by
      refine Decidable.byContradiction fun missing => ?_
      refine legal _ ?_ (tokenAt_open start (longer missing)).1
      rw [scan, eq, tokensFrom_quote]
      exact List.mem_append_right _ List.mem_cons_self
    obtain ⟨inside, behind, rfl, unquoted⟩ := List.eq_append_cons_of_mem closes
    obtain ⟨body', place, same, whole⟩ := ends inside behind unquoted
    exact ⟨body', place, behind, same, whole⟩
  refine ⟨⟨stop, ?_⟩, ?_, ⟨[quoteMark], fun rest => ?_⟩, fun q => carries _, fun _ => carries⟩
  · rw [closedScan, scan, alone, last, List.map_append, map_closed others, List.append_assoc]
    rfl
  · have shape : tokensFrom .start p = body ++ [tokenAt start quoteMark more] ++ [.ending stop] := by
      rw [alone, last, List.append_assoc]
      rfl
    have inner := List.forall_mem_append.1 (tokensFrom_inner shape)
    refine List.forall_mem_append.2 ⟨inner.1, List.forall_mem_singleton.2 ?_⟩
    rw [isString]
    decide
  · rw [List.append_assoc]
    exact ends Bytes.newline rest (by decide)

theorem continued (p : Bytes) : ∃ body, Continued p body := by
  rcases tokensFrom_line .start p with
    ⟨body, start, more, others, unclosed, _, alone, eq⟩ | ⟨body, others, alone, eq⟩
  · exact ⟨_, continued_open others unclosed alone eq⟩
  · exact ⟨body, continued_closed others alone eq⟩

theorem kinds_tokensFrom (place place' : Position) (s : Bytes) :
    kinds (tokensFrom place s) = kinds (tokensFrom place' s) := by
  induction length : s.length using Nat.strongRecOn generalizing place place' s with
  | ind n ih =>
    cases found : s.drop (layout false s) with
    | nil =>
      rw [tokensFrom_end found, tokensFrom_end found]
      rfl
    | cons b more =>
      rw [tokensFrom_token found, tokensFrom_token found]
      show (munch b more).1 :: kinds _ = (munch b more).1 :: kinds _
      rw [ih _ (length ▸ behind_token_lt found) _ _ _ rfl]

def spelling (kind : Kind) : Bytes := if kind = .ident then text "x" else kind.label

def spelled (ks : List Kind) : Bytes := ks.flatMap fun k => spelling k ++ Bytes.newline

theorem scan_spelling : ∀ k ∈ fillers, kinds (scan (spelling k)) = [k, .eof] := by decide +kernel

theorem scan_spelled (allowed : ∀ k ∈ ks, k ∈ fillers) : kinds (scan (spelled ks)) = ks ++ [.eof] := by
  induction ks with
  | nil => rw [spelled, List.flatMap_nil, scan, tokensFrom_end rfl]; rfl
  | cons k ks ih =>
    obtain ⟨first, others⟩ := List.forall_mem_cons.1 allowed
    have kindsHere := scan_spelling k first
    have closed (t : Token) (mem : t ∈ scan (spelling k)) : ¬OpenString t := by
      intro isOpen
      have known : t.kind ∈ [k, .eof] := kindsHere ▸ List.mem_map_of_mem mem
      rw [isOpen.1] at known
      rcases List.mem_cons.1 known with rfl | isEnd
      · exact absurd first (by decide)
      · cases List.mem_singleton.1 isEnd
    obtain ⟨body, stop, alone, _, whole⟩ := scan_lines (spelling k) (spelled ks) closed
    have one : kinds body = [k] := by
      rw [alone, kinds_append] at kindsHere
      have split : kinds body ++ [.eof] = [k] ++ [.eof] := kindsHere
      exact (List.append_inj' split rfl).1
    have moved (g : Position → Position) (tokens : List Token) :
        kinds (tokens.map (Token.relocate g)) = kinds tokens := List.map_map
    rw [spelled, List.flatMap_cons]
    show kinds (scan (spelling k ++ Bytes.newline ++ spelled ks)) = _
    rw [whole, kinds_append, moved, one, ih others]
    rfl

theorem tokensFrom_spelled (allowed : ∀ k ∈ ks, k ∈ fillers) (place : Position) :
    ∃ fill stop, tokensFrom place (spelled ks) = fill ++ [.ending stop] ∧ kinds fill = ks := by
  obtain ⟨fill, stop, written, _⟩ := tokensFrom_shape place (spelled ks)
  have all := (kinds_tokensFrom .start place (spelled ks)).symm.trans (scan_spelled allowed)
  rw [written, kinds_append] at all
  exact ⟨fill, stop, written, (List.append_inj' all rfl).1⟩

theorem kinds_marks (ks : List Kind) : kinds (ks.map mark) = ks := by
  rw [kinds, List.map_map]
  exact List.map_id' ks

theorem fillers_lawful : ∀ k ∈ fillers, k ≠ .illegal ∧ k ≠ .eof := by decide

-- What the grammar misses is written on further lines, behind the quote that closes the string.
theorem Hopeful.completed (hopeful : Hopeful p) :
    ∃ q, (analyse (p ++ (Bytes.newline ++ q))).diagnostics = [] := by
  obtain ⟨body, continued⟩ := continued p
  obtain ⟨stop, shape⟩ := continued.closed
  obtain ⟨legal, faults, targets⟩ := hopeful
  rw [shape] at legal faults targets
  rw [List.forall_mem_append] at legal
  have fits : (follow .other body).isSome = true := by
    rw [follow_append] at targets
    exact Option.isSome_of_isSome_bind targets
  obtain ⟨ks, allowed, program, derived⟩ := parse_extends rfl continued.inner legal.1 fits faults
  obtain ⟨opening, goesOn⟩ := continued.opening
  obtain ⟨body', place, same, whole⟩ := goesOn (spelled ks)
  obtain ⟨fill, stop', written, filled⟩ := tokensFrom_spelled allowed place
  have known : kinds (body' ++ fill) = kinds (body ++ ks.map mark) := by
    rw [kinds_append, kinds_append, same, filled, kinds_marks]
  obtain ⟨program', derived', _⟩ := derived.of_kinds known
  have every {P : Kind → Prop} (here : ∀ t ∈ body, P t.kind) (there : ∀ k ∈ fillers, P k) :
      ∀ t ∈ body' ++ fill, P t.kind := by
    refine forall_kinds known (List.forall_mem_append.2 ⟨here, List.forall_mem_map.2 fun k mem => ?_⟩)
    exact there k (allowed k mem)
  have inner' := every continued.inner fun k mem => (fillers_lawful k mem).2
  have legal' := every legal.1 fun k mem => (fillers_lawful k mem).1
  refine ⟨opening ++ spelled ks, analyse_clean.2 ?_⟩
  rw [← List.append_assoc Bytes.newline, whole, written, ← List.append_assoc]
  refine ⟨List.forall_mem_append.2 ⟨legal', List.forall_mem_singleton.2 nofun⟩, ?_⟩
  exact (parse_of_derives rfl inner' derived').1

theorem Promising.of_clean {whole : Bytes} (clean : (analyse whole).diagnostics = [])
    (begins : scan whole = body' ++ tokensFrom place rest) (same : kinds body' = kinds body)
    (stop : Position) : Promising (body ++ [.ending stop]) := by
  obtain ⟨legal, parsed⟩ := analyse_clean.1 clean
  obtain ⟨missing, stop', written, _⟩ := tokensFrom_shape place rest
  rw [written, ← List.append_assoc] at begins
  rw [begins] at legal parsed
  have known : kinds (body ++ missing) = kinds (body' ++ missing) := by
    rw [kinds_append, kinds_append, same]
  have inner : ∀ t ∈ body' ++ missing, t.kind ≠ .eof := tokensFrom_inner begins
  have innerAll : ∀ t ∈ body ++ missing, t.kind ≠ .eof := forall_kinds (p := (· ≠ .eof)) known inner
  have legalAll : ∀ t ∈ body ++ missing, t.kind ≠ .illegal :=
    forall_kinds (p := (· ≠ .illegal)) known (List.forall_mem_append.1 legal).1
  have derived := derives_of_parse rfl inner (List.forall_mem_append.1 legal).1 parsed
  obtain ⟨program, derived', _⟩ := derived.of_kinds known
  have clean' : (parse (body ++ missing ++ [.ending stop'])).2 = [] :=
    (parse_of_derives rfl innerAll derived').1
  have followed : follow .other (body ++ missing) = some .other := derived'.followed
  refine ⟨?_, fun d mem => ?_, ?_⟩
  · refine List.forall_mem_append.2 ⟨(List.forall_mem_append.1 legalAll).1, ?_⟩
    exact List.forall_mem_singleton.2 nofun
  · have atEnd := parse_beginning rfl rfl innerAll legalAll clean' d mem
    exact ⟨atEnd, parse_beginning_roomy rfl rfl innerAll legalAll clean' d mem atEnd⟩
  · cases start : follow .other body with
    | none => rw [follow_append, start] at followed; cases followed
    | some next => rw [follow_through start, follow_other rfl rfl]; rfl

theorem Hopeful.of_carried (continued : Continued p body) (carries : Carries p q body)
    (clean : (analyse (p ++ q)).diagnostics = []) : Hopeful p := by
  obtain ⟨stop, shape⟩ := continued.closed
  obtain ⟨body', place, rest, same, begins⟩ := carries (analyse_clean.1 clean).1
  rw [Hopeful, shape]
  exact .of_clean clean begins same stop

theorem Hopeful.of_completed (clean : (analyse (p ++ (Bytes.newline ++ q))).diagnostics = []) : Hopeful p := by
  obtain ⟨body, continued⟩ := continued p
  exact .of_carried continued (continued.lines q) clean

theorem closedScan_eq {p : Bytes} (closed : ∀ t ∈ scan p, ¬OpenString t) : closedScan p = scan p :=
  map_closed closed

theorem Hopeful.awaitsMore (hopeful : Hopeful p) (faulty : (analyse p).diagnostics ≠ []) :
    Repl.awaitsMore p = true := by
  by_cases isOpen : ∃ t ∈ scan p, OpenString t
  · obtain ⟨t, mem, isOpen⟩ := isOpen
    exact (Mendable.of_open mem isOpen _).incomplete
  · rw [Hopeful, closedScan_eq fun t mem isOpen' => isOpen ⟨t, mem, isOpen'⟩] at hopeful
    have parsed : (analyse p).diagnostics = (parse (scan p)).2 := by
      show scanDiagnostics (scan p) ++ (parse (scan p)).2 = _
      rw [scanDiagnostics_eq_nil.2 hopeful.legal, List.nil_append]
    rw [parsed] at faulty
    rw [Repl.awaitsMore, parsed]
    exact Mendable.incomplete (.inr ⟨faulty, fun d mem => (hopeful.faults d mem).toEndFault⟩)

theorem analyse_code {source : Bytes} (mem : d ∈ (analyse source).diagnostics)
    (unterminated : d.code = Code.unterminatedString) : ∃ t ∈ scan source, OpenString t := by
  rcases List.mem_append.1 mem with scanned | parsed
  · obtain ⟨t, here, fault⟩ := List.mem_filterMap.1 scanned
    unfold Token.diagnostic? at fault
    split at fault
    · next illegal =>
      cases fault
      refine ⟨t, here, illegal, ?_⟩
      change (Token.fault t.lexeme).1 = _ at unterminated
      unfold Token.fault at unterminated
      have other : Code.unexpectedCharacter ≠ Code.unterminatedString := by decide
      split at unterminated
      · split at unterminated
        · next b _ lexeme quoted => rw [lexeme, quoted]; rfl
        · exact absurd unterminated other
      · exact absurd unterminated other
    · cases fault
  · obtain ⟨fault, t, rfl, _⟩ := parse_reports parsed
    have other : fault.code ≠ Code.unterminatedString := by
      cases fault with
      | expected kind place => exact (show Code.expectedToken ≠ Code.unterminatedString by decide)
      | _ => decide
    exact absurd unterminated other

theorem awaitsMore_closed (awaits : Repl.awaitsMore p = true) (closed : ∀ t ∈ scan p, ¬OpenString t) :
    (∀ t ∈ scan p, t.kind ≠ .illegal) ∧ ∀ d ∈ (parse (scan p)).2, EndFault d := by
  have all : ∀ d ∈ (analyse p).diagnostics, d.stage = Stage.parsing ∧ Report.atEnd <:+ d.message := by
    unfold Repl.awaitsMore Report.incomplete at awaits
    rw [Bool.and_eq_true, Bool.or_eq_true, List.any_map, List.all_map, List.any_eq_true,
      List.all_eq_true] at awaits
    rcases awaits.2 with ⟨d, mem, code⟩ | ends
    · obtain ⟨t, here, isOpen⟩ := analyse_code mem (beq_iff_eq.1 code)
      exact absurd isOpen (closed t here)
    · intro d mem
      have isEnd := ends d mem
      rw [Function.comp_apply, Bool.and_eq_true] at isEnd
      exact ⟨beq_iff_eq.1 isEnd.1, List.isSuffixOf_iff_suffix.1 isEnd.2⟩
  constructor
  · refine scanDiagnostics_eq_nil.1 (List.eq_nil_iff_forall_not_mem.2 fun d mem => ?_)
    have parsing := (all d (List.mem_append_left _ mem)).1
    obtain ⟨t, _, fault⟩ := List.mem_filterMap.1 mem
    unfold Token.diagnostic? at fault
    split at fault
    · cases fault
      exact absurd parsing (show Stage.scanning ≠ Stage.parsing by decide)
    · cases fault
  · intro d mem
    obtain ⟨stage, message⟩ := all d (List.mem_append_right _ mem)
    exact ⟨analyse_severity (List.mem_append_right _ mem), stage, message⟩

theorem Promising.of_changed {tail : List Token} (clean : (analyse whole).diagnostics = [])
    (begins : scan whole = init ++ tokensFrom place rest)
    (others : ∀ t ∈ tail, t.kind ≠ .comma ∧ t.kind ≠ .equal)
    (inner : ∀ t ∈ init ++ tail, t.kind ≠ .eof)
    (legal : ∀ t ∈ init ++ tail ++ [.ending stop], t.kind ≠ .illegal)
    (ends : ∀ d ∈ (parse (init ++ tail ++ [.ending stop])).2, EndFault d) :
    Promising (init ++ tail ++ [.ending stop]) := by
  have before : Promising (init ++ [.ending stop]) := .of_clean clean begins rfl stop
  cases tail with
  | nil => rwa [List.append_nil]
  | cons t ts =>
    have complete : NoneMissing (init ++ t :: ts) := by
      refine ⟨inner, fun last isLast => (others last ?_).1⟩
      rw [List.getLast?_append, List.getLast?_eq_some_getLast (List.cons_ne_nil t ts)] at isLast
      cases isLast
      exact List.getLast_mem _
    refine ⟨legal, fun d mem => ⟨ends d mem, parse_roomy rfl complete d mem (ends d mem)⟩, ?_⟩
    have targets := before.targets
    cases start : follow .other init with
    | none => rw [follow_append, start] at targets; cases targets
    | some next =>
      rw [List.append_assoc, follow_through start]
      refine follow_unsigned (List.forall_mem_append.2 ⟨fun t mem => (others t mem).2, ?_⟩) next
      exact List.forall_mem_singleton.2 nofun

theorem Hopeful.of_appended (awaits : Repl.awaitsMore p = true)
    (clean : (analyse (p ++ q)).diagnostics = []) : Hopeful p ∨ Hopeful (p ++ [byte '=']) := by
  by_cases isOpen : ∃ t ∈ scan p, OpenString t
  · obtain ⟨body, continued⟩ := continued p
    exact .inl (.of_carried continued (continued.string isOpen q) clean)
  · have closed (t : Token) (mem : t ∈ scan p) : ¬OpenString t := fun isOpen' => isOpen ⟨t, mem, isOpen'⟩
    obtain ⟨legal, ends⟩ := awaitsMore_closed awaits closed
    cases seam legal q with
    | kept init tail alone others joined =>
      obtain ⟨stop, alone⟩ := alone
      obtain ⟨place, rest, begins⟩ := joined
      change scan p = _ at alone
      refine .inl ?_
      rw [alone] at legal ends
      rw [Hopeful, closedScan_eq closed, alone]
      exact .of_changed clean begins others (tokensFrom_inner alone) legal ends
    | doubled init sign longer more first joined =>
      obtain ⟨place, joined⟩ := joined
      subst first
      refine .inr ?_
      have begins : scan (p ++ byte '=' :: more) = (init ++ [sign]) ++ tokensFrom place more := by
        rw [List.append_assoc]
        exact joined more
      have alone : scan (p ++ [byte '=']) = (init ++ [sign]) ++ [.ending place] := by
        rw [List.append_assoc]
        exact (joined []).trans (congrArg _ (congrArg _ (tokensFrom_end rfl place)))
      have promising := Promising.of_clean clean begins rfl place
      rw [← alone] at promising
      rw [Hopeful, closedScan_eq fun t mem isOpen => promising.legal t mem isOpen.1]
      exact promising

theorem rightly_incomplete_iff (p : Bytes) :
    ((Repl.awaitsMore p = true ∧ ∃ q, (analyse (p ++ q)).diagnostics = []) ↔
      Repl.awaitsMore p = true ∧ (Hopeful p ∨ Hopeful (p ++ [byte '=']))) ∧
    ((Repl.awaitsMore p = true ∧ ∃ q, (analyse (p ++ (Bytes.newline ++ q))).diagnostics = []) ↔
      (analyse p).diagnostics ≠ [] ∧ Hopeful p) := by
  refine ⟨⟨?_, ?_⟩, ?_, ?_⟩
  · rintro ⟨awaits, q, clean⟩
    exact ⟨awaits, Hopeful.of_appended awaits clean⟩
  · rintro ⟨awaits, hopeful | hopeful⟩
    · obtain ⟨q, clean⟩ := hopeful.completed
      exact ⟨awaits, _, clean⟩
    · obtain ⟨q, clean⟩ := hopeful.completed
      rw [List.append_assoc] at clean
      exact ⟨awaits, _, clean⟩
  · rintro ⟨awaits, q, clean⟩
    exact ⟨Repl.awaitsMore_faulty awaits, .of_completed clean⟩
  · rintro ⟨faulty, hopeful⟩
    exact ⟨hopeful.awaitsMore faulty, hopeful.completed⟩

-- A call that may go on in a string, a number that is assigned to or compared, and a return that is in
-- no function.
example : Hopeful (text "f(1, \"") ∧ ¬Hopeful (text "1 =") ∧ Hopeful (text "1 ==") ∧
    ¬Hopeful (text "return \"") := by decide +kernel

-- A stray byte stays where it is, whatever is written behind it; the open string hides it.
theorem incomplete_stray_byte :
    Repl.awaitsMore (text "@\"") = true ∧ ∀ q, (analyse (text "@\"" ++ q)).diagnostics ≠ [] := by
  refine ⟨by decide +kernel, fun q clean => ?_⟩
  have first : scan (text "@\"" ++ q) = tokenAt .start (byte '@') (quoteMark :: q) ::
      tokensFrom _ _ := tokensFrom_token rfl .start
  refine (analyse_clean.1 clean).1 _ (first ▸ List.mem_cons_self) ?_
  rfl

end TinyScript
