import Mathlib.Data.List.Infix

/-!
# Replacing in a list

`replace old new` puts `new` where `old` is in a list, from the left and
without overlaps, for an `old` that is not empty. What comes before an
occurrence stays where none starts in it (`Clear`), so a list is replaced in
piece by piece: `replace_append` over what is clear, `replace_match` at an
occurrence.

`cut sep` splits a list at the first occurrence of a separator.
-/

namespace Replace

variable {α : Type}

section

variable [DecidableEq α]

/-- Past the first `skip` elements, which an occurrence before them has. -/
def replaceFrom (old new : List α) : ℕ → List α → List α
  | _, [] => []
  | skip + 1, _ :: xs => replaceFrom old new skip xs
  | 0, x :: xs =>
    if old <+: x :: xs then new ++ replaceFrom old new (old.length - 1) xs else x :: replaceFrom old new 0 xs

def replace (old new xs : List α) : List α := replaceFrom old new 0 xs

/-- What is before the first `sep`, and what is after it. -/
def cut (sep : List α) : List α → Option (List α × List α)
  | [] => none
  | x :: xs =>
    if sep <+: x :: xs then some ([], (x :: xs).drop sep.length)
    else (cut sep xs).map fun parts => (x :: parts.1, parts.2)

/-- Nothing that ends the list begins `old`, or the other way round. -/
def noneStarts (old : List α) : List α → Bool
  | [] => true
  | x :: xs => !old.isPrefixOf (x :: xs) && !(x :: xs).isPrefixOf old && noneStarts old xs

end

/-! ## What is clear -/

/-- No `old` starts in `xs`, whatever of it is in the `rest`. -/
def Clear (old xs rest : List α) : Prop := ∀ s, s <:+ xs → s ≠ [] → ¬ old <+: s ++ rest

variable {old new xs rest : List α}

theorem Clear.tail {x : α} (h : Clear old (x :: xs) rest) : Clear old xs rest := fun s hs =>
  h s (hs.trans (List.suffix_cons x xs))

theorem Clear.head {x : α} (h : Clear old (x :: xs) rest) : ¬ old <+: x :: (xs ++ rest) :=
  h (x :: xs) List.suffix_rfl (List.cons_ne_nil x xs)

theorem Clear.append {ys : List α} (hx : Clear old xs (ys ++ rest)) (hy : Clear old ys rest) :
    Clear old (xs ++ ys) rest := by
  induction xs with
  | nil => exact hy
  | cons x xs ih =>
    intro s hs hne
    obtain rfl | hs := List.suffix_cons_iff.mp hs
    · show ¬ old <+: x :: xs ++ ys ++ rest
      rw [List.append_assoc]
      exact hx (x :: xs) List.suffix_rfl (List.cons_ne_nil x xs)
    · exact ih hx.tail s hs hne

theorem Clear.notMem {x : α} (h : Clear [x] xs rest) : x ∉ xs := by
  intro hx
  obtain ⟨as, bs, rfl⟩ := List.append_of_mem hx
  exact h (x :: bs) (List.suffix_append as _) (List.cons_ne_nil x bs) (List.prefix_append [x] (bs ++ rest))

/-- A list without `old` is clear, before a rest that continues no beginning of
`old`. -/
theorem clear_of_not_infix (hxs : ¬ old <:+: xs) (hrest : ∀ u, u <:+ old → u ≠ [] → ¬ u <+: rest) :
    Clear old xs rest := by
  intro s hs _ hold
  rcases List.prefix_or_prefix_of_prefix hold (List.prefix_append s rest) with hp | ⟨u, hu⟩
  · exact hxs (hp.isInfix.trans hs.isInfix)
  · by_cases hnil : u = []
    · rw [hnil, List.append_nil] at hu
      exact hxs (hu ▸ hs.isInfix)
    · rw [← hu, List.prefix_append_right_inj] at hold
      exact hrest u ⟨s, hu⟩ hnil hold

/-! ## Replacing, piece by piece -/

section

variable [DecidableEq α]

theorem clear_of_noneStarts (h : noneStarts old xs = true) (rest : List α) : Clear old xs rest := by
  induction xs with
  | nil => exact fun s hs hne => absurd (List.suffix_nil.mp hs) hne
  | cons x xs ih =>
    simp only [noneStarts, Bool.and_eq_true, Bool.not_eq_true', Bool.eq_false_iff, ne_eq, List.isPrefixOf_iff_prefix] at h
    intro s hs hne hold
    obtain rfl | hs := List.suffix_cons_iff.mp hs
    · rcases List.prefix_or_prefix_of_prefix hold (List.prefix_append (x :: xs) rest) with hp | hp
      · exact h.1.1 hp
      · exact h.1.2 hp
    · exact ih h.2 s hs hne hold

theorem replace_append (h : Clear old xs rest) : replace old new (xs ++ rest) = xs ++ replace old new rest := by
  induction xs with
  | nil => rfl
  | cons x xs ih =>
    have hx : replace old new (x :: (xs ++ rest)) = x :: replace old new (xs ++ rest) := by
      rw [replace, replaceFrom, if_neg h.head, ← replace]
    rw [List.cons_append, hx, ih h.tail, List.cons_append]

/-- What an occurrence still has is left out. -/
theorem replaceFrom_append (xs rest : List α) :
    replaceFrom old new xs.length (xs ++ rest) = replace old new rest := by
  induction xs with
  | nil => rfl
  | cons x xs ih =>
    rw [List.length_cons, List.cons_append, replaceFrom]
    exact ih

theorem replace_match (hold : old ≠ []) : replace old new (old ++ rest) = new ++ replace old new rest := by
  obtain ⟨x, xs, rfl⟩ := List.exists_cons_of_ne_nil hold
  have hp : x :: xs <+: x :: (xs ++ rest) := List.prefix_append (x :: xs) rest
  rw [replace, List.cons_append, replaceFrom, if_pos hp, List.length_cons, Nat.add_sub_cancel, replaceFrom_append]

theorem replace_of_clear (h : Clear old xs []) : replace old new xs = xs := by
  calc replace old new xs = replace old new (xs ++ []) := by rw [List.append_nil]
    _ = xs ++ [] := replace_append h
    _ = xs := List.append_nil xs

theorem cut_append (h : Clear old xs (old ++ rest)) (hold : old ≠ []) :
    cut old (xs ++ (old ++ rest)) = some (xs, rest) := by
  induction xs with
  | nil =>
    obtain ⟨x, tail, rfl⟩ := List.exists_cons_of_ne_nil hold
    have hp : x :: tail <+: x :: (tail ++ rest) := List.prefix_append (x :: tail) rest
    rw [List.nil_append, List.cons_append, cut, if_pos hp]
    simp
  | cons x xs ih =>
    rw [List.cons_append, cut, if_neg h.head, ih h.tail]
    rfl

end

end Replace
