import Mathlib

/-! A stream cut into blocks at every pair of adjacent separators. Cutting it
piece by piece, with what is left of one piece put before the next, gives the
blocks of the whole stream. -/
namespace Blocks

variable {α : Type*} [DecidableEq α] (sep : α)

/-- The stream up to its first pair of separators, and the stream after the pair. -/
def nextBlock : List α → Option (List α × List α)
  | [] => none
  | [_] => none
  | a :: b :: rest =>
      if a = sep ∧ b = sep then some ([], rest)
      else (nextBlock (b :: rest)).map fun r => (a :: r.1, r.2)

/-- Put one element before the first block, or before the remainder. -/
def extend (a : α) : List (List α) × List α → List (List α) × List α
  | ([], rest) => ([], a :: rest)
  | (block :: blocks, rest) => ((a :: block) :: blocks, rest)

/-- All blocks, and the remainder without a pair of separators. -/
def cut : List α → List (List α) × List α
  | [] => ([], [])
  | [a] => ([], [a])
  | a :: b :: rest =>
      if a = sep ∧ b = sep then ([] :: (cut rest).1, (cut rest).2)
      else extend a (cut (b :: rest))

theorem cut_cons_cons (a b : α) (rest : List α) : cut sep (a :: b :: rest) =
    if a = sep ∧ b = sep then ([] :: (cut sep rest).1, (cut sep rest).2) else extend a (cut sep (b :: rest)) := rfl

theorem cut_pair (rest : List α) : cut sep (sep :: sep :: rest) = ([] :: (cut sep rest).1, (cut sep rest).2) := by
  rw [cut_cons_cons, if_pos ⟨rfl, rfl⟩]

theorem cut_cons_of_ne {a : α} (h : a ≠ sep) (rest : List α) :
    cut sep (a :: rest) = extend a (cut sep rest) := by
  cases rest with
  | nil => rfl
  | cons b rest => rw [cut_cons_cons, if_neg (fun hPair => h hPair.1)]

theorem cut_sep_cons_of_ne {b : α} (h : b ≠ sep) (rest : List α) :
    cut sep (sep :: b :: rest) = extend sep (cut sep (b :: rest)) := by
  rw [cut_cons_cons, if_neg (fun hPair => h hPair.2)]

/-- A stream without a block is its own remainder. -/
theorem cut_rest_of_nil {s : List α} (h : (cut sep s).1 = []) : (cut sep s).2 = s := by
  induction s using cut.induct sep with
  | case1 => rfl
  | case2 a => rfl
  | case3 a b rest hPair ih =>
      rw [cut_cons_cons, if_pos hPair] at h
      cases h
  | case4 a b rest hPair ih =>
      rw [cut_cons_cons, if_neg hPair] at h ⊢
      cases hCut : cut sep (b :: rest) with
      | mk blocks rest' =>
          rw [hCut] at h ih
          cases blocks with
          | nil => exact congrArg (a :: ·) (ih rfl)
          | cons block blocks => cases h

/-- The blocks of two pieces are those of the first, and those of its remainder
with the second. -/
theorem cut_append (s t : List α) :
    cut sep (s ++ t) = ((cut sep s).1 ++ (cut sep ((cut sep s).2 ++ t)).1, (cut sep ((cut sep s).2 ++ t)).2) := by
  induction s using cut.induct sep with
  | case1 => rfl
  | case2 a => rfl
  | case3 a b rest hPair ih =>
      rw [List.cons_append, List.cons_append, cut_cons_cons, if_pos hPair, ih, cut_cons_cons, if_pos hPair]
      rfl
  | case4 a b rest hPair ih =>
      cases hCut : cut sep (b :: rest) with
      | mk blocks rest' =>
          cases blocks with
          | nil =>
              have hRest : cut sep (a :: b :: rest) = ([], a :: b :: rest) := by
                have hSame := cut_rest_of_nil sep (s := b :: rest) (by rw [hCut])
                rw [hCut] at hSame
                rw [cut_cons_cons, if_neg hPair, hCut]
                exact congrArg (fun rest => ([], a :: rest)) hSame
              rw [hRest]
              simp
          | cons block blocks =>
              rw [hCut] at ih
              rw [List.cons_append, List.cons_append, cut_cons_cons, if_neg hPair, ← List.cons_append, ih,
                cut_cons_cons, if_neg hPair, hCut]
              rfl

/-- A remainder has no block. -/
theorem cut_rest (s : List α) : cut sep (cut sep s).2 = ([], (cut sep s).2) := by
  have hBlocks := congrArg Prod.fst (cut_append sep s [])
  rw [List.append_nil, List.append_nil] at hBlocks
  have hNil : (cut sep (cut sep s).2).1 = [] := List.append_cancel_left (hBlocks.symm.trans (List.append_nil _).symm)
  exact Prod.ext hNil (cut_rest_of_nil sep hNil)

/-- The first block is the next one. -/
theorem cut_of_nextBlock {s : List α} :
    cut sep s = match nextBlock sep s with
      | none => ([], s)
      | some (block, rest) => (block :: (cut sep rest).1, (cut sep rest).2) := by
  induction s using cut.induct sep with
  | case1 => rfl
  | case2 a => rfl
  | case3 a b rest hPair ih => rw [cut_cons_cons, if_pos hPair, nextBlock, if_pos hPair]
  | case4 a b rest hPair ih =>
      rw [cut_cons_cons, if_neg hPair, nextBlock, if_neg hPair, ih]
      cases nextBlock sep (b :: rest) <;> rfl

theorem length_of_nextBlock {s block rest : List α} (h : nextBlock sep s = some (block, rest)) :
    rest.length < s.length := by
  induction s using cut.induct sep generalizing block rest with
  | case1 => cases h
  | case2 a => cases h
  | case3 a b rest' hPair ih =>
      rw [nextBlock, if_pos hPair] at h
      cases h
      simp
  | case4 a b rest' hPair ih =>
      rw [nextBlock, if_neg hPair, Option.map_eq_some_iff] at h
      obtain ⟨⟨block', rest''⟩, hNext, hEq⟩ := h
      cases hEq
      exact lt_trans (ih hNext) (by simp)

section Lines

/-- Lines, each with its separator. -/
def unlines (lines : List (List α)) : List α := lines.flatMap (· ++ [sep])

/-- What a line of a block is: not empty, and without a separator. -/
def IsLine (line : List α) : Prop := line ≠ [] ∧ sep ∉ line

theorem cut_append_of_notMem {line : List α} (hLine : sep ∉ line) (rest : List α) :
    cut sep (line ++ rest) = line.foldr extend (cut sep rest) := by
  induction line with
  | nil => rfl
  | cons a line ih =>
      rw [List.mem_cons, not_or] at hLine
      rw [List.cons_append, cut_cons_of_ne sep (Ne.symm hLine.1), ih hLine.2, List.foldr_cons]

omit [DecidableEq α] in
theorem foldr_extend_cons (line block : List α) (blocks : List (List α)) (rest : List α) :
    line.foldr extend (block :: blocks, rest) = ((line ++ block) :: blocks, rest) := by
  induction line with
  | nil => rfl
  | cons a line ih => rw [List.foldr_cons, ih, extend, List.cons_append]

omit [DecidableEq α] in
theorem foldr_extend_nil (line rest : List α) : line.foldr extend ([], rest) = ([], line ++ rest) := by
  induction line with
  | nil => rfl
  | cons a line ih => rw [List.foldr_cons, ih, extend, List.cons_append]

/-- The separator before a line joins the line to what precedes it. -/
theorem cut_sep_unlines_append {line : List α} (hLine : IsLine sep line) (lines : List (List α)) (rest : List α) :
    cut sep (sep :: (unlines sep (line :: lines) ++ rest)) =
      extend sep (cut sep (unlines sep (line :: lines) ++ rest)) := by
  obtain ⟨b, tail, rfl⟩ := List.exists_cons_of_ne_nil hLine.1
  have hHead : b ≠ sep := by
    rintro rfl
    exact hLine.2 List.mem_cons_self
  rw [unlines, List.flatMap_cons, List.cons_append, List.cons_append, List.cons_append, cut_sep_cons_of_ne sep hHead]

/-- Lines followed by an empty line are one block. -/
theorem cut_unlines_sep {lines : List (List α)} (hLines : ∀ line ∈ lines, IsLine sep line) (hNonempty : lines ≠ [])
    (rest : List α) :
    cut sep (unlines sep lines ++ sep :: rest) = ([sep].intercalate lines :: (cut sep rest).1, (cut sep rest).2) := by
  induction lines with
  | nil => exact absurd rfl hNonempty
  | cons line lines ih =>
      have hLine := hLines line List.mem_cons_self
      rw [unlines, List.flatMap_cons, List.append_assoc, List.append_assoc, cut_append_of_notMem sep hLine.2]
      cases lines with
      | nil =>
          rw [List.flatMap_nil, List.nil_append, List.singleton_append, cut_pair, foldr_extend_cons]
          simp
      | cons next lines =>
          have hRest := ih (fun l hl => hLines l (List.mem_cons_of_mem _ hl)) (List.cons_ne_nil _ _)
          rw [List.singleton_append, ← unlines, cut_sep_unlines_append sep (hLines next (by simp)), hRest, extend,
            foldr_extend_cons, List.intercalate_cons_cons, List.append_assoc, List.singleton_append]

/-- Lines that no empty line follows are left over. -/
theorem cut_unlines {lines : List (List α)} (hLines : ∀ line ∈ lines, IsLine sep line) :
    cut sep (unlines sep lines) = ([], unlines sep lines) := by
  induction lines with
  | nil => rfl
  | cons line lines ih =>
      have hLine := hLines line List.mem_cons_self
      rw [unlines, List.flatMap_cons, List.append_assoc, cut_append_of_notMem sep hLine.2, ← unlines]
      have hRest := ih fun l hl => hLines l (List.mem_cons_of_mem _ hl)
      cases lines with
      | nil => exact foldr_extend_nil line [sep]
      | cons next lines =>
          have hSep := cut_sep_unlines_append sep (hLines next (by simp)) lines []
          simp only [List.append_nil] at hSep
          rw [List.singleton_append, hSep, hRest, extend, foldr_extend_nil]

end Lines

end Blocks
