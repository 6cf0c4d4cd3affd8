import TinyScript.Json

namespace TinyScript.Json

-- All numbers in the document are finite.
inductive Writable : Json → Prop where
  | null : Writable .null
  | bool (b : Bool) : Writable (.bool b)
  | int (n : Int) : Writable (.int n)
  | number (finite : Double.rank bits < Double.infinite) : Writable (.number bits)
  | string (s : Bytes) : Writable (.string s)
  | array (writable : ∀ item ∈ items, Writable item) : Writable (.array items)
  | object (writable : ∀ field ∈ fields, Writable field.2) : Writable (.object fields)

inductive Holds (bits : UInt64) : Json → Prop where
  | number : Holds bits (.number bits)
  | item : item ∈ items → Holds bits item → Holds bits (.array items)
  | field : field ∈ fields → Holds bits field.2 → Holds bits (.object fields)

section

variable {x : Except ε α} {y : Except ε β}

theorem failed_both (f : α → β → γ) (failed : (do let a ← x; let b ← y; return f a b) = .error u) :
    x = .error u ∨ y = .error u := by
  cases x with
  | error =>
    cases failed
    exact .inl rfl
  | ok a => cases y with
    | error =>
      cases failed
      exact .inr rfl
    | ok b => cases failed

theorem fails_both (f : α → β → γ) (fails : (∃ u, x = .error u) ∨ ∃ u, y = .error u) :
    ∃ u, (do let a ← x; let b ← y; return f a b) = .error u := by
  rcases fails with ⟨u, rfl⟩ | ⟨u, rfl⟩
  · exact ⟨u, rfl⟩
  · cases x with
    | error v => exact ⟨v, rfl⟩
    | ok a => exact ⟨u, rfl⟩

end

theorem writeNumber_error : writeNumber bits = .error u ↔ Double.infinite ≤ Double.rank bits ∧ u = ⟨bits⟩ := by
  unfold writeNumber
  dsimp only
  split
  · next large => simp [large, eq_comm]
  · next small => simp [small]

mutual

theorem of_pieces_error : (j : Json) → pieces level j = .error u →
    Holds u.bits j ∧ Double.infinite ≤ Double.rank u.bits
  | .number bits, failed => by
    rw [pieces] at failed
    cases written : writeNumber bits with
    | ok => rw [written] at failed; cases failed
    | error v =>
      rw [written] at failed
      cases failed
      obtain ⟨large, rfl⟩ := writeNumber_error.1 written
      exact ⟨.number, large⟩
  | .array (item :: items), failed => by
    rw [pieces] at failed
    rcases failed_both _ failed with first | more
    · obtain ⟨holds, large⟩ := of_pieces_error item first
      exact ⟨.item List.mem_cons_self holds, large⟩
    · obtain ⟨other, mem, holds, large⟩ := of_itemPieces_error items more
      exact ⟨.item (List.mem_cons_of_mem _ mem) holds, large⟩
  | .object ((key, value) :: fields), failed => by
    rw [pieces] at failed
    rcases failed_both _ failed with first | more
    · obtain ⟨holds, large⟩ := of_pieces_error value first
      exact ⟨.field List.mem_cons_self holds, large⟩
    · obtain ⟨other, mem, holds, large⟩ := of_fieldPieces_error fields more
      exact ⟨.field (List.mem_cons_of_mem _ mem) holds, large⟩
  | .null, failed | .int _, failed | .string _, failed | .array [], failed | .object [], failed
  | .bool true, failed | .bool false, failed => by
    rw [pieces] at failed
    cases failed

theorem of_itemPieces_error : (items : List Json) → itemPieces level items = .error u →
    ∃ item ∈ items, Holds u.bits item ∧ Double.infinite ≤ Double.rank u.bits
  | [], failed => by
    rw [itemPieces] at failed
    cases failed
  | item :: items, failed => by
    rw [itemPieces] at failed
    rcases failed_both _ failed with first | more
    · exact ⟨item, List.mem_cons_self, of_pieces_error item first⟩
    · obtain ⟨other, mem, found⟩ := of_itemPieces_error items more
      exact ⟨other, List.mem_cons_of_mem _ mem, found⟩

theorem of_fieldPieces_error : (fields : List (String × Json)) → fieldPieces level fields = .error u →
    ∃ field ∈ fields, Holds u.bits field.2 ∧ Double.infinite ≤ Double.rank u.bits
  | [], failed => by
    rw [fieldPieces] at failed
    cases failed
  | (key, value) :: fields, failed => by
    rw [fieldPieces] at failed
    rcases failed_both _ failed with first | more
    · exact ⟨(key, value), List.mem_cons_self, of_pieces_error value first⟩
    · obtain ⟨other, mem, found⟩ := of_fieldPieces_error fields more
      exact ⟨other, List.mem_cons_of_mem _ mem, found⟩

end

theorem itemPieces_error {items : List Json} (mem : item ∈ items) (fails : ∃ u, pieces level item = .error u) :
    ∃ u, itemPieces level items = .error u := by
  induction items with
  | nil => cases mem
  | cons first items ih =>
    rw [itemPieces]
    rcases List.mem_cons.1 mem with rfl | mem
    · exact fails_both _ (.inl fails)
    · exact fails_both _ (.inr (ih mem))

theorem fieldPieces_error {fields : List (String × Json)} (mem : field ∈ fields)
    (fails : ∃ u, pieces level field.2 = .error u) : ∃ u, fieldPieces level fields = .error u := by
  induction fields with
  | nil => cases mem
  | cons first fields ih =>
    rw [fieldPieces]
    rcases List.mem_cons.1 mem with rfl | mem
    · exact fails_both _ (.inl fails)
    · exact fails_both _ (.inr (ih mem))

theorem Holds.pieces_error (holds : Holds bits j) (large : Double.infinite ≤ Double.rank bits) (level : Nat) :
    ∃ u, pieces level j = .error u := by
  induction holds generalizing level with
  | number =>
    rw [pieces, writeNumber_error.2 ⟨large, rfl⟩]
    exact ⟨⟨bits⟩, rfl⟩
  | @item items item mem _ ih =>
    cases items with
    | nil => cases mem
    | cons first items =>
      rw [pieces]
      rcases List.mem_cons.1 mem with rfl | mem
      · exact fails_both _ (.inl (ih _))
      · exact fails_both _ (.inr (itemPieces_error mem (ih _)))
  | @field fields field mem _ ih =>
    cases fields with
    | nil => cases mem
    | cons first fields =>
      rw [pieces]
      rcases List.mem_cons.1 mem with rfl | mem
      · exact fails_both _ (.inl (ih _))
      · exact fails_both _ (.inr (fieldPieces_error mem (ih _)))

theorem of_write_error (failed : write j = .error u) : Holds u.bits j ∧ Double.infinite ≤ Double.rank u.bits := by
  rw [write] at failed
  cases written : pieces 0 j with
  | ok => rw [written] at failed; cases failed
  | error =>
    rw [written] at failed
    cases failed
    exact of_pieces_error j written

theorem Holds.write_error (holds : Holds bits j) (large : Double.infinite ≤ Double.rank bits) :
    ∃ u, write j = .error u := by
  obtain ⟨u, failed⟩ := holds.pieces_error large 0
  rw [write, failed]
  exact ⟨u, rfl⟩

theorem Writable.finite (writable : Writable j) (holds : Holds bits j) : Double.rank bits < Double.infinite := by
  induction holds with
  | number => cases writable with | number finite => exact finite
  | item mem _ ih => cases writable with | array each => exact ih (each _ mem)
  | field mem _ ih => cases writable with | object each => exact ih (each _ mem)

theorem Writable.write (writable : Writable j) : ∃ written, j.write = .ok written := by
  cases written : j.write with
  | ok document => exact ⟨document, rfl⟩
  | error u =>
    obtain ⟨holds, large⟩ := of_write_error written
    have finite := writable.finite holds
    omega

end TinyScript.Json
