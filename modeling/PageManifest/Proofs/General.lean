import Mathlib.Data.List.Forall2

/-!
# Results and lists

What is used of results of computations and of lists in several places, and says nothing of the
program.
-/

namespace PageManifest

/-! ## Results -/

theorem bind_eq_ok {ε α β : Type} {first : Except ε α} {next : α → Except ε β} {result : β} :
    (first >>= next) = .ok result ↔ ∃ a, first = .ok a ∧ next a = .ok result := by
  cases first with
  | error e => exact ⟨(fun h => by cases h), (fun ⟨_, h, _⟩ => by cases h)⟩
  | ok a => exact ⟨fun h => ⟨a, rfl, h⟩, (fun ⟨_, h, hnext⟩ => by cases h; exact hnext)⟩

/-- What is done with a result depends on the result only. -/
theorem bind_congr_ok {ε α β : Type} {first : Except ε α} {next other : α → Except ε β}
    (h : ∀ a, first = .ok a → next a = other a) : (first >>= next) = (first >>= other) := by
  cases first with
  | error e => rfl
  | ok a => exact h a rfl

/-! ## Computations on all items of a list -/

theorem mapM_of_forall {α β ε : Type} {f : α → Except ε β} {g : α → β} {xs : List α}
    (h : ∀ x ∈ xs, f x = .ok (g x)) : xs.mapM f = .ok (xs.map g) := by
  induction xs with
  | nil => rfl
  | cons x xs ih =>
    rw [List.mapM_cons, h x List.mem_cons_self, ih fun y hy => h y (List.mem_cons_of_mem _ hy)]
    rfl

theorem forall₂_of_mapM {α β ε : Type} {f : α → Except ε β} {xs : List α} {ys : List β}
    (h : xs.mapM f = .ok ys) : List.Forall₂ (fun x y => f x = .ok y) xs ys := by
  induction xs generalizing ys with
  | nil =>
    cases h
    exact .nil
  | cons x xs ih =>
    rw [List.mapM_cons] at h
    obtain ⟨y, hy, h⟩ := bind_eq_ok.mp h
    obtain ⟨others, hothers, h⟩ := bind_eq_ok.mp h
    cases h
    exact .cons hy (ih hothers)

/-! ## Lists that are related item by item -/

theorem exists_of_mem_of_forall₂ {α β : Type} {R : α → β → Prop} {xs : List α} {ys : List β}
    (h : List.Forall₂ R xs ys) {y : β} (hy : y ∈ ys) : ∃ x ∈ xs, R x y := by
  induction h with
  | nil => cases hy
  | cons hxy _ ih =>
    rcases List.mem_cons.mp hy with rfl | hy
    · exact ⟨_, List.mem_cons_self, hxy⟩
    · obtain ⟨x, hx, hxy⟩ := ih hy
      exact ⟨x, List.mem_cons_of_mem _ hx, hxy⟩

theorem forall₂_comp {α β γ : Type} {R : α → β → Prop} {S : β → γ → Prop} {T : α → γ → Prop}
    {xs : List α} {ys : List β} {zs : List γ} (hR : List.Forall₂ R xs ys)
    (hS : List.Forall₂ S ys zs) (h : ∀ x ∈ xs, ∀ y z, R x y → S y z → T x z) :
    List.Forall₂ T xs zs := by
  induction hR generalizing zs with
  | nil =>
    cases hS
    exact .nil
  | cons hxy _ ih =>
    cases hS with
    | cons hyz hS =>
      rw [List.forall_mem_cons] at h
      exact .cons (h.1 _ _ hxy hyz) (ih hS h.2)

theorem forall₂_append_cons_right {α β : Type} {R : α → β → Prop} {xs : List α}
    {front behind : List β} {y : β} (h : List.Forall₂ R xs (front ++ y :: behind)) :
    ∃ front' x behind', xs = front' ++ x :: behind' ∧ R x y ∧ List.Forall₂ R behind' behind := by
  induction front generalizing xs with
  | nil =>
    cases h with
    | cons hxy h => exact ⟨[], _, _, rfl, hxy, h⟩
  | cons first front ih =>
    cases h with
    | cons hfirst h =>
      obtain ⟨front', x, behind', rfl, hxy, hbehind⟩ := ih h
      exact ⟨_ :: front', x, behind', rfl, hxy, hbehind⟩

/-! ## Items of lists -/

/-- Distinct items that stand in one order do not stand in the other one. -/
theorem not_sublist_swap {α : Type} {items : List α} {first second : α} (hnodup : items.Nodup)
    (h : [first, second].Sublist items) : ¬ [second, first].Sublist items := by
  induction items with
  | nil => cases h
  | cons item items ih =>
    obtain ⟨hnew, hnodup⟩ := List.nodup_cons.mp hnodup
    intro hswap
    rw [List.cons_sublist_cons', List.singleton_sublist] at h hswap
    rcases h with h | ⟨rfl, h⟩
    · rcases hswap with hswap | ⟨rfl, hswap⟩
      · exact ih hnodup h hswap
      · exact hnew (h.subset (by simp))
    · rcases hswap with hswap | ⟨rfl, hswap⟩
      · exact hnew (hswap.subset (by simp))
      · exact hnew hswap

theorem mem_of_mem_intercalate {α : Type} {x : α} {separator : List α} {parts : List (List α)}
    (h : x ∈ separator.intercalate parts) : x ∈ separator ∨ ∃ part ∈ parts, x ∈ part := by
  induction parts with
  | nil => simp at h
  | cons part parts ih =>
    by_cases hnil : parts = []
    · rw [hnil, List.intercalate_singleton] at h
      exact .inr ⟨part, List.mem_cons_self, h⟩
    · rw [List.intercalate_cons_of_ne_nil hnil, List.mem_append, List.mem_append] at h
      obtain (h | h) | h := h
      · exact .inr ⟨part, List.mem_cons_self, h⟩
      · exact .inl h
      · exact (ih h).imp_right fun ⟨other, hother, hx⟩ => ⟨other, List.mem_cons_of_mem _ hother, hx⟩

end PageManifest
