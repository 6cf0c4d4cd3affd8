import Mathlib.Data.List.DropRight
import TinyScript.Proofs.Token.Lossless

namespace TinyScript

namespace Position

structure ExactIn (s : Bytes) (p : Position) : Prop where
  inside : 0 ≤ p.offset ∧ p.offset ≤ s.length
  line : p.line = 1 + ((s.take p.offset.toNat).count (byte '\n') : Int)
  column : p.column = 1 + (((s.take p.offset.toNat).rtakeWhile (· ≠ byte '\n')).length : Int)

theorem after_snoc (place : Position) (s : Bytes) (b : UInt8) : place.after (s ++ [b]) = (place.after s).next b :=
  after_append place s [b]

-- By the last byte: a line break begins a line, any other byte lengthens the last one.
theorem start_after (s : Bytes) : start.after s =
    ⟨s.length, 1 + (s.count (byte '\n') : Int), 1 + ((s.rtakeWhile (· ≠ byte '\n')).length : Int)⟩ := by
  induction s using List.reverseRecOn with
  | nil => rfl
  | append_singleton s b ih =>
    rw [after_snoc, ih, next]
    by_cases isBreak : b = byte '\n'
    · simp [isBreak]
      omega
    · simp [isBreak]
      omega

def ReachedIn (s : Bytes) (p : Position) : Prop := ∃ front, front <+: s ∧ p = start.after front

theorem ReachedIn.exact (reached : ReachedIn s p) : p.ExactIn s := by
  obtain ⟨front, ⟨rest, rfl⟩, rfl⟩ := reached
  rw [start_after]
  have length : ((front ++ rest).length : Int) = front.length + rest.length := by
    rw [List.length_append, Int.natCast_add]
  refine ⟨⟨Int.natCast_nonneg _, ?_⟩, ?_, ?_⟩
  · rw [length]
    exact Int.le_add_of_nonneg_right (Int.natCast_nonneg _)
  · simp
  · simp

end Position

open Scan

theorem tokensFrom_reached (front s : Bytes) :
    ∀ t ∈ tokensFrom (Position.start.after front) s,
      t.span.start.ReachedIn (front ++ s) ∧ t.span.stop.ReachedIn (front ++ s) := by
  refine tokensFrom_induction (motive := fun place s ts => ∀ front, place = Position.start.after front →
    ∀ t ∈ ts, t.span.start.ReachedIn (front ++ s) ∧ t.span.stop.ReachedIn (front ++ s)) ?_ ?_
    (Position.start.after front) s front rfl
  · rintro place gap _ front rfl t mem
    obtain rfl := List.mem_singleton.1 mem
    have last : (Position.start.after front).after gap = Position.start.after (front ++ gap) :=
      (Position.after_append ..).symm
    exact ⟨⟨front ++ gap, List.prefix_rfl, last⟩, ⟨front ++ gap, List.prefix_rfl, last⟩⟩
  · rintro place gap b more _ _ ih front rfl
    have split : b :: more = (b :: more).take (munch b more).2 ++ (b :: more).drop (munch b more).2 :=
      (List.take_append_drop _ _).symm
    generalize (b :: more).drop (munch b more).2 = rest at ih split
    have stop : (tokenAt ((Position.start.after front).after gap) b more).span.stop =
        Position.start.after (front ++ gap ++ (b :: more).take (munch b more).2) := by
      rw [Position.after_append, Position.after_append]
      rfl
    have later := ih _ stop
    rw [split]
    generalize (b :: more).take (munch b more).2 = lexeme at stop later
    refine List.forall_mem_cons.2 ⟨⟨⟨front ++ gap, ?_, ?_⟩, ⟨front ++ gap ++ lexeme, ?_, stop⟩⟩, ?_⟩
    · exact ⟨lexeme ++ rest, by simp⟩
    · exact (Position.after_append ..).symm
    · exact ⟨rest, by simp⟩
    · simpa using later

theorem scan_places_exact (s : Bytes) :
    (∀ t ∈ scan s, t.span.start.ExactIn s ∧ t.span.stop.ExactIn s ∧
      (t.kind ≠ .eof → t.lexeme = slice s t.span.start.offset t.span.stop.offset)) ∧
    ∀ d ∈ scanDiagnostics (scan s), d.span.start.ExactIn s ∧ d.span.stop.ExactIn s := by
  have exact (t : Token) (mem : t ∈ scan s) : t.span.start.ExactIn s ∧ t.span.stop.ExactIn s := by
    have reached := tokensFrom_reached [] s t mem
    exact ⟨reached.1.exact, reached.2.exact⟩
  refine ⟨fun t mem => ⟨(exact t mem).1, (exact t mem).2, fun inner => ?_⟩, fun d mem => ?_⟩
  · exact (tokensFrom_lexemes [] s .start rfl t mem inner).2
  · obtain ⟨t, here, same⟩ := scanDiagnostics_span mem
    rw [same]
    exact exact t here

end TinyScript
