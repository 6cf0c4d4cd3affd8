import TinyScript.Proofs.Text.Quoted

namespace TinyScript

inductive Sexp where
  | word (w : Bytes)
  | quoted (s : Bytes)
  | list (parts : List Sexp)

namespace Sexp

inductive Mark where
  | opening
  | closing
  | atom (s : Sexp)

def dividers : Bytes := [byte ' ', byte '\n', byte '(', byte ')', quoteMark]

def marks (s : Bytes) : List Mark :=
  match s with
  | [] => []
  | b :: rest =>
    if b = byte ' ' ∨ b = byte '\n' then marks rest
    else if b = byte '(' then .opening :: marks rest
    else if b = byte ')' then .closing :: marks rest
    else if b = quoteMark then .atom (.quoted (Quoted.unescape rest).1) :: marks (Quoted.unescape rest).2
    else .atom (.word (b :: rest.takeWhile (· ∉ dividers))) :: marks (rest.dropWhile (· ∉ dividers))
termination_by s.length
decreasing_by
  all_goals rw [List.length_cons]
  · omega
  · omega
  · omega
  · exact Nat.lt_succ_of_le (Quoted.unescape_length rest)
  · exact Nat.lt_succ_of_le (List.dropWhile_suffix _).length_le

-- One mark after the other, with the lists that are open, the innermost first.
def gather : List (List Sexp) → Mark → List (List Sexp)
  | stack, .opening => [] :: stack
  | inner :: outer :: stack, .closing => (outer ++ [.list inner]) :: stack
  | inner :: stack, .atom s => (inner ++ [s]) :: stack
  | stack, _ => stack

def read (s : Bytes) : List Sexp := ((marks s).foldl gather [[]]).headD []

mutual

def written : Sexp → List Mark
  | .list parts => .opening :: (writtenEach parts ++ [.closing])
  | .word w => [.atom (.word w)]
  | .quoted s => [.atom (.quoted s)]

def writtenEach : List Sexp → List Mark
  | [] => []
  | s :: ss => s.written ++ writtenEach ss

end

theorem writtenEach_append (ss ss' : List Sexp) : writtenEach (ss ++ ss') = writtenEach ss ++ writtenEach ss' := by
  induction ss with
  | nil => rfl
  | cons s ss ih => rw [List.cons_append, writtenEach, writtenEach, ih, List.append_assoc]

mutual

theorem gather_written : (s : Sexp) → (inner : List Sexp) → (stack : List (List Sexp)) →
    s.written.foldl gather (inner :: stack) = (inner ++ [s]) :: stack
  | .word _, _, _ | .quoted _, _, _ => rfl
  | .list parts, inner, stack => by
    have within := gather_writtenEach parts [] (inner :: stack)
    rw [written, List.foldl_cons, List.foldl_append, gather, within]
    rfl

theorem gather_writtenEach : (ss : List Sexp) → (inner : List Sexp) → (stack : List (List Sexp)) →
    (writtenEach ss).foldl gather (inner :: stack) = (inner ++ ss) :: stack
  | [], inner, stack => by rw [List.append_nil]; rfl
  | s :: ss, inner, stack => by
    rw [writtenEach, List.foldl_append, gather_written s, gather_writtenEach ss, List.append_assoc]
    rfl

end

theorem read_of_marks (found : marks s = writtenEach ss) : read s = ss := by
  rw [read, found, gather_writtenEach]
  rfl

def Divided (s : Bytes) : Prop := ∀ b ∈ s.head?, b ∈ dividers

theorem Divided.append (first : Divided s) (second : Divided t) : Divided (s ++ t) := by
  cases s with
  | nil => exact second
  | cons b s => exact first

theorem text_space : text " " = [byte ' '] := by decide +kernel

theorem text_opening : text "(" = [byte '('] := by decide +kernel

theorem text_closing : text ")" = [byte ')'] := by decide +kernel

theorem divided_space (s : Bytes) : Divided (text " " ++ s) := by
  rw [text_space]
  intro b first
  cases first
  decide

theorem divided_opening (s : Bytes) : Divided (text "(" ++ s) := by
  rw [text_opening]
  intro b first
  cases first
  decide

-- A text on one line that stands for these marks, whatever comes behind it.
structure Writes (s : Bytes) (ms : List Mark) : Prop where
  line : byte '\n' ∉ s
  marks : ∀ rest, Divided rest → marks (s ++ rest) = ms ++ marks rest

namespace Writes

theorem nil : Writes [] [] := ⟨List.not_mem_nil, fun _ _ => rfl⟩

theorem append (first : Writes s ms) (second : Writes t ns) (divided : Divided t) : Writes (s ++ t) (ms ++ ns) := by
  constructor
  · rw [List.mem_append, not_or]
    exact ⟨first.line, second.line⟩
  · intro rest ends
    rw [List.append_assoc, first.marks _ (divided.append ends), second.marks rest ends, List.append_assoc]

theorem word (some : w ≠ []) (inside : ∀ b ∈ w, b ∉ dividers) : Writes w [.atom (.word w)] := by
  constructor
  · exact fun mem => inside _ mem (by decide)
  · intro rest ends
    obtain ⟨b, w, rfl⟩ := List.exists_cons_of_ne_nil some
    obtain ⟨first, others⟩ := List.forall_mem_cons.1 inside
    have others' : ∀ c ∈ w, decide (c ∉ dividers) = true := by simpa using others
    have stops : rest.takeWhile (· ∉ dividers) = [] ∧ rest.dropWhile (· ∉ dividers) = rest := by
      cases rest with
      | nil => exact ⟨rfl, rfl⟩
      | cons c rest =>
        have divider : c ∈ dividers := ends c rfl
        simp [divider]
    have unlike (c : UInt8) (divider : c ∈ dividers) : b ≠ c := fun same => first (same ▸ divider)
    rw [List.cons_append, Sexp.marks, if_neg (not_or.2 ⟨unlike _ (by decide), unlike _ (by decide)⟩),
      if_neg (unlike _ (by decide)), if_neg (unlike _ (by decide)), if_neg (unlike _ (by decide)),
      List.takeWhile_append_of_pos others', List.dropWhile_append_of_pos others', stops.1, stops.2, List.append_nil]
    rfl

theorem quoted (s : Bytes) : Writes (TinyScript.quoted s) [.atom (.quoted s)] := by
  refine ⟨quoted_line s, fun rest _ => ?_⟩
  have opened : TinyScript.quoted s ++ rest =
      quoteMark :: ((glyphs s).flatMap (Quoted.escape quoteMark) ++ quoteMark :: rest) := by simp [TinyScript.quoted]
  rw [opened, Sexp.marks, if_neg (by decide), if_neg (by decide), if_neg (by decide), if_pos rfl, unescape_quoted]
  rfl

theorem space (inner : Writes s ms) : Writes (text " " ++ s) ms := by
  rw [text_space]
  constructor
  · have line := inner.line
    simpa [line] using by decide
  · intro rest ends
    rw [List.append_assoc, List.singleton_append, Sexp.marks, if_pos (.inl rfl), inner.marks rest ends]

theorem enclosed (inner : Writes s ms) :
    Writes (text "(" ++ s ++ text ")") (.opening :: (ms ++ [.closing])) := by
  rw [text_opening, text_closing]
  constructor
  · have line := inner.line
    simpa [line] using by decide
  · intro rest ends
    have divided : Divided (byte ')' :: rest) := by
      intro b first
      cases first
      decide
    have closed : Sexp.marks (byte ')' :: rest) = .closing :: Sexp.marks rest := by
      rw [Sexp.marks, if_neg (by decide), if_neg (by decide), if_pos rfl]
    rw [List.append_assoc, List.append_assoc, List.singleton_append, List.singleton_append, Sexp.marks,
      if_neg (by decide), if_pos rfl, inner.marks _ divided, closed]
    simp

end Writes

end Sexp

end TinyScript
