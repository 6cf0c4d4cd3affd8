import TinyScript.Session
import TinyScript.Proofs.Token.Lossless
import TinyScript.Proofs.Tree.Nesting

namespace TinyScript

def Span.Within (inner outer : Span) : Prop :=
  outer.start.offset ≤ inner.start.offset ∧ inner.stop.offset ≤ outer.stop.offset

-- The span goes from the start of a token to the end of one at or behind it, and has the children in it.
structure Node.Nests (tokens : List Token) (node : Node) (span : Span) : Prop where
  own : node.span? = some span
  delimited : ∃ (i j : Nat) (first last : Token), i ≤ j ∧ tokens[i]? = some first ∧ tokens[j]? = some last ∧
    first.kind ≠ .eof ∧ last.kind ≠ .eof ∧ span = ⟨first.span.start, last.span.stop⟩
  nonempty : span.start.offset < span.stop.offset
  children : ∀ child ∈ node.children, ∃ inner, child.span? = some inner ∧ inner.Within span

structure Spread (tokens : List Token) : Prop where
  wide : ∀ t ∈ tokens, t.kind ≠ .eof → t.span.start.offset < t.span.stop.offset
  apart : tokens.Pairwise fun t u => t.span.stop.offset ≤ u.span.start.offset

theorem Gaps.apart {s : Bytes} (gaps : Gaps s start tokens) :
    (∀ t ∈ tokens, start ≤ t.span.start.offset) ∧
      tokens.Pairwise fun t u => t.span.stop.offset ≤ u.span.start.offset := by
  induction tokens generalizing start with
  | nil => exact ⟨List.forall_mem_nil _, .nil⟩
  | cons t ts ih =>
    obtain ⟨after, ordered, _, rest⟩ := gaps
    obtain ⟨later, apart⟩ := ih rest
    refine ⟨List.forall_mem_cons.2 ⟨after, fun u mem => ?_⟩, .cons later apart⟩
    exact Int.le_trans after (Int.le_trans ordered (later u mem))

theorem slice_ne_nil {s : Bytes} (some : slice s start stop ≠ []) : start < stop := by
  refine Int.not_le.1 fun empty => some ?_
  have none : (stop - start).toNat = 0 := by omega
  rw [slice, none, List.take_zero]

theorem scan_spread (s : Bytes) : Spread (scan s) where
  wide t mem inner := by
    obtain ⟨some, own⟩ := tokensFrom_lexemes [] s .start rfl t mem inner
    exact slice_ne_nil (own ▸ some)
  apart := (tokensFrom_gaps [] s .start rfl).apart.2

namespace Parse.Walk

theorem startAt_token (here : tokens[pos]? = some t) : startAt tokens pos = t.span.start := by
  rw [startAt, here, Option.getD_some]

theorem stopAt_token (here : tokens[pos]? = some t) : stopAt tokens (pos + 1) = t.span.stop := by
  rw [stopAt, lastRead, here, Option.getD_some]

section

variable {tokens : List Token} (spread : Spread tokens)
include spread

theorem stop_le_start (before : i < j) (inside : j < endAt tokens) :
    (stopAt tokens (i + 1)).offset ≤ (startAt tokens j).offset := by
  obtain ⟨t, first, _⟩ := token_inside (Nat.lt_trans before inside)
  obtain ⟨u, second, _⟩ := token_inside inside
  rw [stopAt_token first, startAt_token second]
  obtain ⟨_, rfl⟩ := List.getElem?_eq_some_iff.1 first
  obtain ⟨_, rfl⟩ := List.getElem?_eq_some_iff.1 second
  exact List.pairwise_iff_getElem.1 spread.apart i j _ _ before

theorem start_lt_stop (inside : i < endAt tokens) :
    (startAt tokens i).offset < (stopAt tokens (i + 1)).offset := by
  obtain ⟨t, here, inner, _⟩ := token_inside inside
  rw [startAt_token here, stopAt_token here]
  exact spread.wide t (List.mem_of_getElem? here) inner

theorem start_le_start (before : i ≤ j) (inside : j < endAt tokens) :
    (startAt tokens i).offset ≤ (startAt tokens j).offset := by
  rcases Nat.lt_or_eq_of_le before with before | rfl
  · have one := start_lt_stop spread (Nat.lt_trans before inside)
    have two := stop_le_start spread before inside
    omega
  · exact Int.le_refl _

theorem stop_le_stop (before : i ≤ j) (inside : j < endAt tokens) :
    (stopAt tokens (i + 1)).offset ≤ (stopAt tokens (j + 1)).offset := by
  rcases Nat.lt_or_eq_of_le before with before | rfl
  · have one := stop_le_start spread before inside
    have two := start_lt_stop spread inside
    omega
  · exact Int.le_refl _

theorem between_within (low : m ≤ i) (some : i < j) (high : j ≤ k) (inside : k ≤ endAt tokens) :
    (between tokens i j).Within (between tokens m k) := by
  obtain ⟨j, rfl⟩ : ∃ n, j = n + 1 := ⟨j - 1, by omega⟩
  obtain ⟨k, rfl⟩ : ∃ n, k = n + 1 := ⟨k - 1, by omega⟩
  exact ⟨start_le_start spread low (by omega), stop_le_stop spread (by omega) inside⟩

theorem Lies.nests {node : Node} (lies : Lies tokens i j node) (inside : j ≤ endAt tokens) :
    node.Nests tokens (between tokens i j) := by
  obtain ⟨some, own, children⟩ := lies.parts
  obtain ⟨j, rfl⟩ : ∃ n, j = n + 1 := ⟨j - 1, by omega⟩
  obtain ⟨first, opens, innerFirst, _⟩ := token_inside (Nat.lt_of_lt_of_le some inside)
  obtain ⟨last, closes, innerLast, _⟩ := token_inside inside
  refine ⟨own, ⟨i, j, first, last, Nat.le_of_lt_succ some, opens, closes, innerFirst, innerLast, ?_⟩, ?_, ?_⟩
  · rw [between, startAt_token opens, stopAt_token closes]
  · have one := start_le_start spread (Nat.le_of_lt_succ some) inside
    have two := start_lt_stop spread inside
    exact Int.lt_of_le_of_lt one two
  · intro child mem
    obtain ⟨i', j', low, high, lies⟩ := children child mem
    exact ⟨_, lies.parts.2.1, between_within spread low lies.parts.1 high inside⟩

theorem Row.follows (row : Row tokens m k ss) (inside : k ≤ endAt tokens) :
    ss.Pairwise fun a b => ∃ s t, a.span? = some s ∧ b.span? = some t ∧ s.stop.offset ≤ t.start.offset := by
  induction ss generalizing m with
  | nil => exact .nil
  | cons a ss ih =>
    obtain ⟨j, ⟨i, i', _, high, lies⟩, rest⟩ := row
    refine .cons (fun b mem => ?_) (ih rest)
    obtain ⟨l, l', low, high', lies'⟩ := rest.each b mem
    refine ⟨_, _, lies.parts.2.1, lies'.parts.2.1, ?_⟩
    have some := lies.parts.1
    have some' := lies'.parts.1
    obtain ⟨i', rfl⟩ : ∃ n, i' = n + 1 := ⟨i' - 1, by omega⟩
    exact stop_le_start spread (by omega) (by omega)

end

theorem Lies.deeper {node whole : Node} (deep : node.Inside whole) (lies : Lies tokens i j whole) :
    Amid tokens i j node := by
  induction deep generalizing i j with
  | self => exact lies.amid (Nat.le_refl i) (Nat.le_refl j)
  | deeper mem _ ih =>
    obtain ⟨_, _, low, high, inner⟩ := lies.parts.2.2 _ mem
    exact (ih inner).mono low high

end Parse.Walk

open Parse.Walk

theorem node_spans_nest (source : Bytes) :
    (∀ stmt ∈ (analyse source).program, ∀ node : Node, node.Inside (.stmt stmt) →
      ∃ span, node.Nests (analyse source).tokens span) ∧
    (analyse source).program.Pairwise fun a b =>
      ∃ s t, a.span? = some s ∧ b.span? = some t ∧ s.stop.offset ≤ t.start.offset := by
  have spread := scan_spread source
  obtain ⟨k, inside, row⟩ := parse_row (scan source)
  refine ⟨fun stmt mem node deep => ?_, row.follows spread inside⟩
  obtain ⟨i, j, _, high, lies⟩ := row.each stmt mem
  obtain ⟨i', j', _, high', inner⟩ := lies.deeper deep
  exact ⟨_, inner.nests spread (by omega)⟩

end TinyScript
