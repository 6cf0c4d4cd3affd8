import TinyScript.Proofs.Double
import TinyScript.Proofs.Token.Respelling
import TinyScript.Run.Interpret

namespace TinyScript

namespace Double

open Lexical

def lexemes (bits : UInt64) : List (Kind × Bytes) :=
  let magnitude := (Kind.number, (Decimal.shortest (rank bits)).plain)
  if isNegative bits then [(.minus, text "-"), magnitude] else [magnitude]

theorem numberAt_plain (d : Decimal) (ends : ∀ b ∈ rest.head?, ¬Digit b ∧ b ≠ byte '.') : NumberAt d.plain rest := by
  obtain ⟨whole, fraction, written, parts, _⟩ := Decimal.plain_parts d
  obtain ⟨wholeDigits, fractionDigits⟩ := List.forall_mem_append.1 parts.digits
  have wholePart : Digits whole := ⟨parts.some, fun c mem => digit_iff.2 (wholeDigits c mem)⟩
  refine ⟨fun b first => (ends b first).1, ?_⟩
  rw [written, Decimal.pointed]
  split
  · refine .inl ⟨wholePart, ?_⟩
    rintro d more rfl
    exact absurd rfl (ends _ rfl).2
  · next some => exact .inr ⟨whole, fraction, wholePart, ⟨some, fun c mem => digit_iff.2 (fractionDigits c mem)⟩, rfl⟩

theorem plain_tiles (finite : rank bits < infinite) (ends : ∀ b ∈ rest.head?, ¬Digit b ∧ b ≠ byte '.')
    (tiles : Tiles rest pairs) : Tiles (plain bits ++ rest) (lexemes bits ++ pairs) := by
  have magnitude := Tiles.next .nil (.number (numberAt_plain (Decimal.shortest (rank bits)) ends)) tiles
  have printed : plain bits = (if isNegative bits then text "-" else []) ++ (Decimal.shortest (rank bits)).plain := by
    unfold plain
    dsimp only
    rw [if_neg (Nat.lt_asymm finite), if_neg (Nat.ne_of_lt finite)]
  rw [printed, lexemes]
  split
  · have minus : MarkAt .minus (text "-") ((Decimal.shortest (rank bits)).plain ++ rest) := by
      refine ⟨?_, nofun, nofun⟩
      decide +kernel
    have signed := Tiles.next .nil (.mark (by decide) minus) magnitude
    rwa [List.append_assoc]
  · exact magnitude

theorem literal_shortest (finite : rank bits < infinite) :
    Scan.literal .number (Decimal.shortest (rank bits)).plain = .number (ofRank (rank bits)) := by
  rw [Decimal.literal_plain, Decimal.toRank_shortest finite]

inductive Written (x : Float) : List Token → Prop where
  | unsigned : isNegative x.toBits = false → t.kind = .number → t.literal = .number x.toBits → Written x [t]
  | signed : isNegative x.toBits = true → minus.kind = .minus → t.kind = .number →
      t.literal = .number (-x).toBits → Written x [minus, t]

theorem written_of_lexemes {x : Float} (finite : rank x.toBits < infinite)
    (spelt : tokens.map Token.spelling = lexemes x.toBits)
    (literals : ∀ t ∈ tokens, t.literal = Scan.literal t.kind t.lexeme) : Written x tokens := by
  have value {t : Token} (here : t.spelling = (.number, (Decimal.shortest (rank x.toBits)).plain)) (mem : t ∈ tokens) :
      t.kind = .number ∧ t.literal = .number (ofRank (rank x.toBits)) := by
    obtain ⟨kind, lexeme⟩ := Prod.mk.inj here
    refine ⟨kind, ?_⟩
    rw [literals t mem, kind, lexeme, literal_shortest finite]
  rw [lexemes] at spelt
  split at spelt
  · next negative =>
    obtain ⟨minus, _, rfl, sign, spelt⟩ := List.map_eq_cons_iff.1 spelt
    obtain ⟨t, _, rfl, number, spelt⟩ := List.map_eq_cons_iff.1 spelt
    cases List.map_eq_nil_iff.1 spelt
    obtain ⟨kind, literal⟩ := value number (by simp)
    rw [ofRank_rank_neg finite negative] at literal
    exact .signed negative (congrArg Prod.fst sign) kind literal
  · next positive =>
    have positive : isNegative x.toBits = false := Bool.eq_false_iff.2 positive
    obtain ⟨t, _, rfl, number, spelt⟩ := List.map_eq_cons_iff.1 spelt
    cases List.map_eq_nil_iff.1 spelt
    obtain ⟨kind, literal⟩ := value number (by simp)
    rw [ofRank_rank positive] at literal
    exact .unsigned positive kind literal

theorem scan_plain {x : Float} (finite : rank x.toBits < infinite)
    (ends : ∀ b ∈ rest.head?, ¬Digit b ∧ b ≠ byte '.') (tiles : Tiles rest pairs) :
    ∃ tokens more stop, scan (plain x.toBits ++ rest) = tokens ++ more ++ [.ending stop] ∧ Written x tokens ∧
      more.map Token.spelling = pairs := by
  obtain ⟨body, stop, found, spelt⟩ := (plain_tiles finite ends tiles).scanned
  obtain ⟨tokens, more, rfl, spelt, behind⟩ := List.map_eq_append_iff.1 spelt
  refine ⟨tokens, more, stop, found, written_of_lexemes finite spelt fun t mem => ?_, behind⟩
  have among : t ∈ scan (plain x.toBits ++ rest) := by
    rw [found]
    simp [mem]
  exact scan_literal _ t among

theorem Written.sound (written : Written x tokens) : ∀ t ∈ tokens, t.kind ≠ .illegal := by
  cases written with
  | unsigned _ kind _ => simp [kind]
  | signed _ minus kind _ => simp [minus, kind]

-- Read as a statement, the tokens are an expression that has the number as its value.
theorem Written.parse_eval {x : Float} (finite : rank x.toBits < infinite) (written : Written x tokens)
    (ended : semicolon.kind = .semicolon) (stop : Position) :
    ∃ span e, parse (tokens ++ [semicolon] ++ [.ending stop]) = ([.expr span e], []) ∧
      ∀ host m, Interpret.eval host e m = .done (.number x) m := by
  obtain ⟨_, _, _, _⟩ := semicolon
  cases ended
  cases written with
  | @unsigned t positive kind literal =>
    obtain ⟨_, _, _, _⟩ := t
    cases kind
    cases literal
    refine ⟨_, _, rfl, fun host m => ?_⟩
    exact congrArg (fun v => Outcome.done (Value.number v) m) (ofBits_toBits finite)
  | @signed minus t negative sign kind literal =>
    obtain ⟨_, _, _, _⟩ := minus
    obtain ⟨_, _, _, _⟩ := t
    cases sign
    cases kind
    cases literal
    refine ⟨_, _, rfl, fun host m => ?_⟩
    rw [← ofRank_rank_neg finite negative]
    exact congrArg (fun v => Outcome.done (Value.number v) m) (neg_ofRank finite negative)

theorem analyse_plain {x : Float} (finite : rank x.toBits < infinite) :
    ∃ span e, (analyse (plain x.toBits ++ text ";")).diagnostics = [] ∧
      (analyse (plain x.toBits ++ text ";")).program = [.expr span e] ∧
      ∀ host m, Interpret.eval host e m = .done (.number x) m := by
  have ends : ∀ b ∈ (text ";").head?, ¬Digit b ∧ b ≠ byte '.' := by
    simp only [digit_iff]
    decide +kernel
  have mark : MarkAt .semicolon (text ";") [] := ⟨by decide +kernel, nofun, nofun⟩
  have last : Tiles (text ";") [(.semicolon, text ";")] := by
    have alone := Tiles.next .nil (.mark (by decide) mark) (.done (.whole .nil))
    rwa [List.nil_append, List.append_nil] at alone
  obtain ⟨tokens, more, stop, found, written, behind⟩ := scan_plain finite ends last
  obtain ⟨semicolon, _, rfl, spelt, behind⟩ := List.map_eq_cons_iff.1 behind
  cases List.map_eq_nil_iff.1 behind
  have ended : semicolon.kind = .semicolon := congrArg Prod.fst spelt
  have sound : scanDiagnostics (tokens ++ [semicolon] ++ [.ending stop]) = [] := by
    rw [scanDiagnostics_eq_nil, List.append_assoc]
    exact List.forall_mem_append.2 ⟨written.sound, by simp [ended, Token.ending]⟩
  obtain ⟨span, e, read, value⟩ := written.parse_eval finite ended stop
  refine ⟨span, e, ?_, ?_, value⟩
  · simp only [analyse, found, read, sound, List.append_nil]
  · simp only [analyse, found, read]

end Double

theorem printed_number_reads_back (f : Float) (finite : Double.rank f.toBits < Double.infinite) :
    let printed := (Value.number f).render
    (Double.isNegative f.toBits = false →
      ∃ t stop, scan printed = [t, .ending stop] ∧ t.kind = .number ∧ t.literal = .number f.toBits) ∧
    (Double.isNegative f.toBits = true →
      ∃ minus t stop, scan printed = [minus, t, .ending stop] ∧ minus.kind = .minus ∧
        t.kind = .number ∧ t.literal = .number (-f).toBits) ∧
    scanDiagnostics (scan printed) = [] ∧
    ∃ span e, (analyse (printed ++ text ";")).diagnostics = [] ∧
      (analyse (printed ++ text ";")).program = [.expr span e] ∧
      ∀ host m, Interpret.eval host e m = .done (.number f) m := by
  intro printed
  have nothing : ∀ b ∈ ([] : Bytes).head?, ¬Lexical.Digit b ∧ b ≠ byte '.' := by simp
  obtain ⟨tokens, more, stop, found, written, behind⟩ := Double.scan_plain finite nothing (.done (.whole .nil))
  cases List.map_eq_nil_iff.1 behind
  rw [List.append_nil, List.append_nil] at found
  have found : scan printed = tokens ++ [.ending stop] := found
  refine ⟨fun positive => ?_, fun negative => ?_, ?_, Double.analyse_plain finite⟩
  · cases written with
    | @unsigned t _ kind literal => exact ⟨t, stop, found, kind, literal⟩
    | signed negative => cases positive.symm.trans negative
  · cases written with
    | unsigned positive => cases positive.symm.trans negative
    | @signed minus t _ sign kind literal => exact ⟨minus, t, stop, found, sign, kind, literal⟩
  · rw [scanDiagnostics_eq_nil, found]
    exact List.forall_mem_append.2 ⟨written.sound, by simp [Token.ending]⟩

-- The negative number nearest to zero, printed with 324 places.
theorem printed_number_reads_back_least :
    let f := Float.ofBits 0x8000000000000001
    Double.rank f.toBits < Double.infinite ∧ Double.isNegative f.toBits = true ∧
    (∃ minus t stop, scan (Value.number f).render = [minus, t, .ending stop] ∧ minus.kind = .minus ∧
      t.kind = .number ∧ t.literal = .number 1) ∧
    ∃ span e, (analyse ((Value.number f).render ++ text ";")).program = [.expr span e] ∧
      ∀ host m, Interpret.eval host e m = .done (.number f) m := by
  intro f
  have finite : Double.rank f.toBits < Double.infinite := by decide +kernel
  have negative : Double.isNegative f.toBits = true := by decide +kernel
  have opposite : (-f).toBits = 1 := by decide +kernel
  obtain ⟨_, signed, _, span, e, _, read, value⟩ := printed_number_reads_back f finite
  rw [opposite] at signed
  exact ⟨finite, negative, signed negative, span, e, read, value⟩

end TinyScript
