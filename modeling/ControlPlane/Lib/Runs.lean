import Mathlib.Data.List.SplitBy
import Mathlib.Data.List.Forall2
import Mathlib.Data.List.Induction

/-!
# Maximal runs

`List.splitBy` cuts a list into maximal runs of related neighbours. What it
does with one more element: the element joins the last run
(`splitBy_concat_join`), or is a run of its own (`splitBy_concat_new`).

`forall₂_splitBy`: a fold that pushes each element onto its results, and there
merges it into the last one exactly if the element joins the last run, has one
result for every run.
-/

namespace List

variable {α β : Type*} {r : α → α → Bool}

theorem splitBy_concat_join {l g : List α} {gs : List (List α)} {x : α} (h : l.splitBy r = gs ++ [g])
    (hj : ∀ y ∈ g.getLast?, r y x = true) : (l ++ [x]).splitBy r = gs ++ [g ++ [x]] := by
  obtain ⟨hl, hnil, hruns, hcuts⟩ := splitBy_eq_iff.mp h
  refine splitBy_eq_iff.mpr ⟨by simp [hl], by simpa using fun h => hnil (mem_append_left _ h), ?_, ?_⟩
  · intro m hm
    rcases mem_append.mp hm with hm | hm
    · exact hruns m (mem_append_left _ hm)
    · cases mem_singleton.mp hm
      refine isChain_append.mpr ⟨hruns g (mem_append_right _ mem_cons_self), isChain_singleton x, ?_⟩
      intro y hy z hz
      cases hz
      exact hj y hy
  · obtain ⟨hgs, -, hlast⟩ := isChain_append.mp hcuts
    refine isChain_append.mpr ⟨hgs, isChain_singleton _, ?_⟩
    intro m hm n hn
    cases hn
    obtain ⟨hm', hg, hr⟩ := hlast m hm g rfl
    exact ⟨hm', append_ne_nil_of_left_ne_nil hg _, by rwa [head_append_of_ne_nil hg]⟩

theorem splitBy_concat_new {l g : List α} {gs : List (List α)} {x : α} (h : l.splitBy r = gs ++ [g])
    (hj : ∀ y ∈ g.getLast?, r y x = false) : (l ++ [x]).splitBy r = gs ++ [g] ++ [[x]] := by
  obtain ⟨hl, hnil, -, -⟩ := splitBy_eq_iff.mp h
  have hg : g ≠ [] := by
    rintro rfl
    exact hnil (mem_append_right _ mem_cons_self)
  rw [splitBy_append_cons [] fun y hy => hj y ?_, h]
  · rfl
  · rwa [hl, flatten_append, flatten_singleton, getLast?_append_of_ne_nil _ hg] at hy

theorem forall₂_concat_left {R : α → β → Prop} {as : List α} {a : α} {bs : List β} (h : Forall₂ R (as ++ [a]) bs) :
    ∃ bs' b, bs = bs' ++ [b] ∧ Forall₂ R as bs' ∧ R a b := by
  obtain rfl | ⟨bs, b, rfl⟩ := bs.eq_nil_or_concat
  · exact absurd (forall₂_nil_right_iff.mp h) (append_ne_nil_of_right_ne_nil as (cons_ne_nil a []))
  · refine ⟨bs, b, concat_eq_append, ?_⟩
    have hr := forall₂_reverse_iff.mpr h
    rw [concat_eq_append, reverse_append, reverse_append, reverse_singleton, reverse_singleton] at hr
    cases hr with
    | cons hab hr => exact ⟨forall₂_reverse_iff.mp hr, hab⟩

/-- `push` has one result for every run, if it does for the first, and merges
an element into the last result exactly if it joins the last run. -/
theorem forall₂_splitBy {push : List β → α → List β} {shown : List α → β → Prop} {P : α → Prop}
    (hfirst : ∀ x, P x → ∃ b, push [] x = [b] ∧ shown [x] b)
    (hpush : ∀ bs b g y x, shown (g ++ [y]) b → P y → P x →
      if r y x then ∃ b', push (bs ++ [b]) x = bs ++ [b'] ∧ shown (g ++ [y] ++ [x]) b'
      else ∃ b', push (bs ++ [b]) x = bs ++ [b] ++ [b'] ∧ shown [x] b')
    {l : List α} (hok : ∀ x ∈ l, P x) : Forall₂ shown (l.splitBy r) (l.foldl push []) := by
  induction l using List.reverseRecOn with
  | nil => exact .nil
  | append_singleton l x ih =>
    obtain ⟨hl, hx⟩ := forall_mem_append.mp hok
    have hx := hx x mem_cons_self
    have ih := ih hl
    rw [foldl_append, foldl_cons, foldl_nil]
    obtain hs | ⟨gs, g, hs⟩ := (l.splitBy r).eq_nil_or_concat
    · obtain ⟨b, hb, hshown⟩ := hfirst x hx
      rw [hs, forall₂_nil_left_iff] at ih
      rw [ih, hb, splitBy_eq_nil.mp hs]
      exact .cons hshown .nil
    · rw [concat_eq_append] at hs
      rw [hs] at ih
      obtain ⟨hflat, hnil, -, -⟩ := splitBy_eq_iff.mp hs
      obtain rfl | ⟨g, y, rfl⟩ := g.eq_nil_or_concat
      · exact absurd (mem_append_right _ mem_cons_self) hnil
      · rw [concat_eq_append] at hs hflat ih
        obtain ⟨bs, b, hbs, hforall, hshown⟩ := forall₂_concat_left ih
        have hy : P y := hl y (hflat ▸ by simp)
        have hp := hpush bs b g y x hshown hy hx
        rw [hbs]
        cases hr : r y x with
        | true =>
          rw [hr, if_pos rfl] at hp
          obtain ⟨b', hb', hshown'⟩ := hp
          rw [hb', splitBy_concat_join hs (by simpa using hr)]
          exact rel_append hforall (.cons hshown' .nil)
        | false =>
          rw [hr, if_neg Bool.false_ne_true] at hp
          obtain ⟨b', hb', hshown'⟩ := hp
          rw [hb', splitBy_concat_new hs (by simpa using hr)]
          exact rel_append (rel_append hforall (.cons hshown .nil)) (.cons hshown' .nil)

end List
