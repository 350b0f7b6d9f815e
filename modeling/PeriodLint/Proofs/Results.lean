/-!
# Results of steps

A step gives a value or an error. What is made of the value exists exactly if
the value does, and the steps over a list give a list exactly if every one of
them gives a value. Otherwise the first error is that of the whole.
-/

namespace PeriodLint

variable {α β ε : Type}

theorem exists_bind_eq_ok_iff {x : Except ε α} {f : α → Except ε β} :
    (∃ b, x >>= f = .ok b) ↔ ∃ a, x = .ok a ∧ ∃ b, f a = .ok b := by
  cases x with
  | error e => simp [bind, Except.bind]
  | ok a => simp [bind, Except.bind]

theorem exists_map_eq_ok_iff {x : Except ε α} {f : α → β} :
    (∃ b, x.map f = .ok b) ↔ ∃ a, x = .ok a := by
  cases x with
  | error e => simp [Except.map]
  | ok a => simp [Except.map]

/-! ## Steps over a list -/

theorem mapM_eq_ok {f : α → Except ε β} {g : α → β} {xs : List α}
    (h : ∀ x ∈ xs, f x = .ok (g x)) : xs.mapM f = .ok (xs.map g) := by
  induction xs with
  | nil => rfl
  | cons x xs ih =>
      have hx := h x List.mem_cons_self
      have hxs := ih fun y hy => h y (List.mem_cons_of_mem x hy)
      rw [List.mapM_cons, hx, hxs]
      rfl

theorem exists_mapM_eq_ok {f : α → Except ε β} {xs : List α}
    (h : ∀ x ∈ xs, ∃ y, f x = .ok y) : ∃ ys, xs.mapM f = .ok ys := by
  induction xs with
  | nil => exact ⟨[], rfl⟩
  | cons x xs ih =>
      obtain ⟨⟨y, hy⟩, hxs⟩ := List.forall_mem_cons.mp h
      obtain ⟨ys, hys⟩ := ih hxs
      rw [List.mapM_cons, hy, hys]
      exact ⟨y :: ys, rfl⟩

theorem exists_cons_of_mapM_eq_ok {f : α → Except ε β} {x : α} {xs : List α}
    {ys : List β} (h : (x :: xs).mapM f = .ok ys) :
    ∃ z zs, f x = .ok z ∧ xs.mapM f = .ok zs ∧ ys = z :: zs := by
  rw [List.mapM_cons] at h
  cases hx : f x with
  | error e =>
      rw [hx] at h
      cases h
  | ok z =>
      cases hxs : xs.mapM f with
      | error e =>
          rw [hx, hxs] at h
          cases h
      | ok zs =>
          rw [hx, hxs] at h
          exact ⟨z, zs, rfl, rfl, (Except.ok.inj h).symm⟩

theorem exists_mem_of_mapM_eq_ok {f : α → Except ε β} {xs : List α} {ys : List β}
    (h : xs.mapM f = .ok ys) {y : β} (hy : y ∈ ys) : ∃ x ∈ xs, f x = .ok y := by
  induction xs generalizing ys with
  | nil =>
      obtain rfl := Except.ok.inj h
      cases hy
  | cons x xs ih =>
      obtain ⟨z, zs, hx, hxs, rfl⟩ := exists_cons_of_mapM_eq_ok h
      rcases List.mem_cons.mp hy with rfl | hy
      · exact ⟨x, List.mem_cons_self, hx⟩
      · obtain ⟨w, hw, hfw⟩ := ih hxs hy
        exact ⟨w, List.mem_cons_of_mem x hw, hfw⟩

/-- Where results are dropped as their sources are, the rest stays. -/
theorem mapM_filter_eq_ok {f : α → Except ε β} {p : α → Bool} {q : β → Bool}
    {xs : List α} {ys : List β} (h : xs.mapM f = .ok ys)
    (hpq : ∀ x ∈ xs, ∀ y, f x = .ok y → p x = q y) :
    (xs.filter p).mapM f = .ok (ys.filter q) := by
  induction xs generalizing ys with
  | nil =>
      obtain rfl := Except.ok.inj h
      rfl
  | cons x xs ih =>
      obtain ⟨y, zs, hx, hxs, rfl⟩ := exists_cons_of_mapM_eq_ok h
      obtain ⟨hpx, hpxs⟩ := List.forall_mem_cons.mp hpq
      have hrest := ih hxs hpxs
      have hpy := hpx y hx
      cases hq : q y with
      | true =>
          rw [hq] at hpy
          rw [List.filter_cons_of_pos hpy, List.filter_cons_of_pos hq, List.mapM_cons, hx, hrest]
          rfl
      | false =>
          rw [hq] at hpy
          rw [List.filter_cons_of_neg (by simp [hpy]), List.filter_cons_of_neg (by simp [hq]),
            hrest]

theorem exists_mapM_eq_ok_of_perm {f : α → Except ε β} {xs xs' : List α}
    {ys : List β} (hperm : xs.Perm xs') (h : xs.mapM f = .ok ys) :
    ∃ ys', xs'.mapM f = .ok ys' ∧ ys.Perm ys' := by
  induction hperm generalizing ys with
  | nil =>
      obtain rfl := Except.ok.inj h
      exact ⟨[], rfl, List.Perm.refl _⟩
  | cons x _ ih =>
      obtain ⟨y, zs, hx, hxs, rfl⟩ := exists_cons_of_mapM_eq_ok h
      obtain ⟨zs', hxs', hzs⟩ := ih hxs
      refine ⟨y :: zs', ?_, hzs.cons y⟩
      rw [List.mapM_cons, hx, hxs']
      rfl
  | swap x x' xs =>
      obtain ⟨y', zs', hx', hrest, rfl⟩ := exists_cons_of_mapM_eq_ok h
      obtain ⟨y, zs, hx, hxs, rfl⟩ := exists_cons_of_mapM_eq_ok hrest
      refine ⟨y :: y' :: zs, ?_, List.Perm.swap y y' zs⟩
      rw [List.mapM_cons, List.mapM_cons, hx, hx', hxs]
      rfl
  | trans _ _ ih ih' =>
      obtain ⟨zs, hzs, hyz⟩ := ih h
      obtain ⟨ys', hys', hzy⟩ := ih' hzs
      exact ⟨ys', hys', hyz.trans hzy⟩

/-- Where all steps over a list succeed, each of them does. -/
theorem exists_eq_ok_of_mapM_eq_ok {f : α → Except ε β} {xs : List α} {ys : List β}
    (h : xs.mapM f = .ok ys) : ∀ x ∈ xs, ∃ y, f x = .ok y := by
  induction xs generalizing ys with
  | nil => exact List.forall_mem_nil _
  | cons x xs ih =>
      obtain ⟨y, zs, hx, hxs, -⟩ := exists_cons_of_mapM_eq_ok h
      exact List.forall_mem_cons.mpr ⟨⟨y, hx⟩, ih hxs⟩

/-- Where the steps over a list fail, one of them fails and all before it succeed. -/
theorem exists_of_mapM_eq_error {f : α → Except ε β} {xs : List α} {e : ε}
    (h : xs.mapM f = .error e) :
    ∃ before x after, xs = before ++ x :: after ∧ (∀ y ∈ before, ∃ b, f y = .ok b) ∧
      f x = .error e := by
  induction xs with
  | nil => cases h
  | cons x xs ih =>
      rw [List.mapM_cons] at h
      cases hx : f x with
      | error e' =>
          rw [hx] at h
          obtain rfl := Except.error.inj h
          exact ⟨[], x, xs, rfl, List.forall_mem_nil _, hx⟩
      | ok b =>
          cases hxs : xs.mapM f with
          | ok bs =>
              rw [hx, hxs] at h
              cases h
          | error e' =>
              rw [hx, hxs] at h
              obtain rfl := Except.error.inj h
              obtain ⟨before, y, after, rfl, hbefore, hy⟩ := ih hxs
              exact ⟨x :: before, y, after, rfl, List.forall_mem_cons.mpr ⟨⟨b, hx⟩, hbefore⟩, hy⟩

end PeriodLint
