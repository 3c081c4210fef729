import Mathlib.Data.List.Basic

/-!
Results of steps that may fail, and lists: facts that belong to no part of the library. What every
step keeps is proved once for all folds, whether a step that fails has a reason or not.
-/
namespace UtilityCss

theorem bind_eq_ok {ε α β : Type} {x : Except ε α} {f : α → Except ε β} {b : β} :
    x >>= f = .ok b ↔ ∃ a, x = .ok a ∧ f a = .ok b := by
  cases x with
  | error e => exact ⟨nofun, nofun⟩
  | ok a => exact ⟨fun h => ⟨a, rfl, h⟩, fun ⟨_, same, h⟩ => by cases same; exact h⟩

theorem mapError_eq_ok {ε ε' α : Type} {x : Except ε α} {f : ε → ε'} {a : α} :
    x.mapError f = .ok a ↔ x = .ok a := by
  cases x <;> simp [Except.mapError]

section Folds
variable {α β : Type} {inv : α → Prop} {items : List β}

/-- What every step keeps is kept by a fold that comes to a result. `R x a` says that `x` comes to
the result `a`. -/
theorem foldlM_keeps {m : Type → Type} [Monad m] {R : m α → α → Prop}
    (of_pure : ∀ a a', R (pure a) a' → a' = a)
    (of_bind : ∀ x (f : α → m α) b, R (x >>= f) b → ∃ a, R x a ∧ R (f a) b)
    {f : α → β → m α} (step : ∀ a, ∀ item ∈ items, inv a → ∀ a', R (f a item) a' → inv a')
    {a a' : α} (h : inv a) (folded : R (items.foldlM f a) a') : inv a' := by
  induction items generalizing a with
  | nil => exact of_pure a a' folded ▸ h
  | cons item items ih =>
      rw [List.foldlM_cons] at folded
      obtain ⟨b, taken, rest⟩ := of_bind _ _ _ folded
      have kept := step a item List.mem_cons_self h b taken
      exact ih (fun a item inside => step a item (List.mem_cons_of_mem _ inside)) kept rest

theorem foldlM_ok {ε : Type} {f : α → β → Except ε α}
    (step : ∀ a, ∀ item ∈ items, inv a → ∀ a', f a item = .ok a' → inv a') {a a' : α} (h : inv a)
    (folded : items.foldlM f a = .ok a') : inv a' :=
  foldlM_keeps (m := Except ε) (R := fun x a => x = .ok a)
    (fun _ _ same => (Except.ok.inj same).symm) (fun _ _ _ => bind_eq_ok.mp) step h folded

theorem foldlM_some {f : α → β → Option α}
    (step : ∀ a, ∀ item ∈ items, inv a → ∀ a', f a item = some a' → inv a') {a a' : α} (h : inv a)
    (folded : items.foldlM f a = some a') : inv a' :=
  foldlM_keeps (m := Option) (R := fun x a => x = some a)
    (fun _ _ same => (Option.some.inj same).symm) (fun _ _ _ => Option.bind_eq_some_iff.mp)
    step h folded

/-- A fold fails at the item whose step does. -/
theorem exists_of_foldlM {ε : Type} {f : α → β → Except ε α} {a : α} {e : ε}
    (h : items.foldlM f a = .error e) : ∃ before item after a',
      items = before ++ item :: after ∧ before.foldlM f a = .ok a' ∧ f a' item = .error e := by
  induction items generalizing a with
  | nil => cases h
  | cons item items ih =>
      rw [List.foldlM_cons] at h
      cases step : f a item with
      | error e' =>
          rw [step] at h
          cases h
          exact ⟨[], item, items, a, rfl, rfl, step⟩
      | ok a' =>
          rw [step] at h
          obtain ⟨before, item', after, a'', rfl, passed, stops⟩ := ih h
          refine ⟨item :: before, item', after, a'', rfl, ?_, stops⟩
          rw [List.foldlM_cons, step]
          exact passed

/-- Every result of a map that succeeds is that of an item. -/
theorem exists_of_mem_mapM {ε : Type} {f : β → Except ε α} {results : List α}
    (h : items.mapM f = .ok results) {a : α} (inside : a ∈ results) :
    ∃ item ∈ items, f item = .ok a := by
  induction items generalizing results with
  | nil =>
      cases h
      cases inside
  | cons item items ih =>
      rw [List.mapM_cons] at h
      obtain ⟨first, found, h⟩ := bind_eq_ok.mp h
      obtain ⟨others, rest, same⟩ := bind_eq_ok.mp h
      cases same
      obtain rfl | later := List.mem_cons.mp inside
      · exact ⟨item, List.mem_cons_self, found⟩
      · obtain ⟨other, listed, found⟩ := ih rest later
        exact ⟨other, List.mem_cons_of_mem _ listed, found⟩

end Folds

theorem length_le_flatten {α : Type} {xss : List (List α)} (filled : ∀ xs ∈ xss, xs ≠ []) :
    xss.length ≤ xss.flatten.length := by
  induction xss with
  | nil => exact Nat.le_refl 0
  | cons xs xss ih =>
      obtain ⟨first, others⟩ := List.forall_mem_cons.mp filled
      have here := List.length_pos_iff.mpr first
      have later := ih others
      simp only [List.length_cons, List.flatten_cons, List.length_append]
      omega

theorem infix_of_mem_splitOnP {α : Type} {p : α → Bool} {run text : List α}
    (h : run ∈ text.splitOnP p) : run <:+: text := by
  by_cases none : ∀ c ∈ text, p c = false
  · rw [List.splitOnP_eq_singleton none, List.mem_singleton] at h
    exact h ▸ List.infix_refl _
  · simp only [not_forall, Bool.not_eq_false] at none
    obtain ⟨a, inside, held⟩ := none
    obtain ⟨v, w, whole⟩ := List.append_of_mem inside
    rw [whole, List.splitOnP_append_cons _ _ held, List.mem_append] at h
    rw [whole]
    obtain before | after := h
    · exact (infix_of_mem_splitOnP before).trans (List.prefix_append _ _).isInfix
    · have suffix : w <:+ v ++ a :: w := (List.suffix_cons a w).trans (List.suffix_append v _)
      exact (infix_of_mem_splitOnP after).trans suffix.isInfix
termination_by text.length
decreasing_by
  all_goals
    rw [whole, List.length_append, List.length_cons]
    omega

/-- The last item that makes an entry for a name is the one that is found. -/
theorem lookup_reverse_filterMap {α κ ν : Type} [BEq κ] [LawfulBEq κ] {f : α → Option (κ × ν)}
    {items : List α} {name : κ} {value : ν} :
    (items.filterMap f).reverse.lookup name = some value ↔
      ∃ before item after, items = before ++ item :: after ∧ f item = some (name, value) ∧
        ∀ later ∈ after, ∀ entry, f later = some entry → entry.1 ≠ name := by
  rw [List.lookup_eq_some_iff]
  constructor
  · rintro ⟨newer, older, made, others⟩
    rw [List.reverse_eq_iff, List.reverse_append, List.reverse_cons, List.append_assoc,
      List.singleton_append, List.filterMap_eq_append_iff] at made
    obtain ⟨before, rest, rfl, -, made⟩ := made
    obtain ⟨skipped, item, after, rfl, -, found, newest⟩ := List.filterMap_eq_cons_iff.mp made
    refine ⟨before ++ skipped, item, after, by simp, found, ?_⟩
    intro later inside entry here same
    have : entry ∈ newer := by
      rw [← List.mem_reverse, ← newest]
      exact List.mem_filterMap.mpr ⟨later, inside, here⟩
    simpa [same] using others entry this
  · rintro ⟨before, item, after, rfl, found, others⟩
    refine ⟨(after.filterMap f).reverse, (before.filterMap f).reverse, by simp [found], ?_⟩
    intro entry inside
    rw [List.mem_reverse, List.mem_filterMap] at inside
    obtain ⟨later, inside, here⟩ := inside
    simpa using (others later inside entry here).symm

end UtilityCss
