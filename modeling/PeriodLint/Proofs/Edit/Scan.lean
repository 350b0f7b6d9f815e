import PeriodLint.Proofs.Edit.Reported
import PeriodLint.Proofs.Edit.Selection

/-!
# The scan of sorted edits

The scan compares an edit only with the edit kept last. As the edits are sorted,
that is enough: the kept ones follow one another, and what is left out starts
inside a kept one that comes before it. Of the edits of one stretch the first is
kept, or all of them where there is nothing to replace.
-/

namespace PeriodLint.Edit

/-- The edits that start before the end of the edit kept last and are left out, where `stop` is the
end of the edit kept last. -/
def skippedFrom (stop : Option Int) : List Edit → List Edit
  | [] => []
  | e :: es => if overlaps stop e then e :: skippedFrom stop es else skippedFrom (some e.stop) es

/-- Edits that do not run backward, sorted by their stretches. -/
structure AreSorted (es : List Edit) : Prop where
  start_le_stop : ∀ e ∈ es, e.start ≤ e.stop
  precedes : es.Pairwise (precedes · ·)

/-- One edit lies inside another. -/
def Within (inner outer : Edit) : Prop := outer.start ≤ inner.start ∧ inner.stop ≤ outer.stop

instance (inner outer : Edit) : Decidable (inner.Within outer) :=
  inferInstanceAs (Decidable (_ ∧ _))

/-- One of two edits ends before the other starts. -/
def Apart (a b : Edit) : Prop := a.stop ≤ b.start ∨ b.stop ≤ a.start

instance (a b : Edit) : Decidable (a.Apart b) := inferInstanceAs (Decidable (_ ∨ _))

instance : Std.Symm Apart := ⟨fun _ _ => Or.symm⟩

/-- Edits that cover something, of which any two lie one inside the other or apart. -/
structure AreLaminar (es : List Edit) : Prop where
  start_lt_stop : ∀ e ∈ es, e.start < e.stop
  within_or_apart : ∀ a ∈ es, ∀ b ∈ es, a.Within b ∨ b.Within a ∨ a.Apart b

section Step

variable {stop : Option Int} {e : Edit} {es : List Edit}

theorem skippedFrom_cons_of_free (h : IsFree stop e) :
    skippedFrom stop (e :: es) = skippedFrom (some e.stop) es := by
  rw [skippedFrom, if_neg (by simp [overlaps_eq_false_iff.mpr h])]

theorem skippedFrom_cons_of_not_free (h : ¬ IsFree stop e) :
    skippedFrom stop (e :: es) = e :: skippedFrom stop es := by
  rw [skippedFrom, if_pos (by simpa using mt overlaps_eq_false_iff.mp h)]

theorem not_isFree_iff : ¬ IsFree stop e ↔ ∃ s ∈ stop, e.start < s := by
  simp [IsFree]

theorem AreSorted.of_cons (h : AreSorted (e :: es)) : AreSorted es :=
  ⟨(List.forall_mem_cons.mp h.start_le_stop).2, (List.pairwise_cons.mp h.precedes).2⟩

theorem AreSorted.head_precedes (h : AreSorted (e :: es)) {f : Edit} (hf : f ∈ es) :
    e.start < f.start ∨ e.start = f.start ∧ f.stop ≤ e.stop :=
  precedes_iff.mp ((List.pairwise_cons.mp h.precedes).1 f hf)

theorem areSorted_mergeSort (h : ∀ e ∈ es, e.start ≤ e.stop) :
    AreSorted (es.mergeSort Edit.precedes) :=
  ⟨fun e he => h e (List.mem_mergeSort.mp he), pairwise_sorted es⟩

end Step

section Scan

variable {stop : Option Int} {e : Edit} {es : List Edit}

/-- Every edit is either kept or left out. -/
theorem perm_keepFrom_append_skippedFrom (stop : Option Int) (es : List Edit) :
    es.Perm ((keepFrom stop es).value ++ skippedFrom stop es) := by
  induction es generalizing stop with
  | nil => exact List.Perm.refl _
  | cons e es ih =>
      by_cases hfree : IsFree stop e
      · rw [keepFrom_cons_of_free hfree, skippedFrom_cons_of_free hfree, List.cons_append]
        exact (ih (some e.stop)).cons e
      · rw [keepFrom_cons_of_not_free hfree, skippedFrom_cons_of_not_free hfree]
        exact ((ih stop).cons e).trans List.perm_middle.symm

/-- What is left out is noted in the log, one event for each edit. -/
theorem log_keepFrom (stop : Option Int) (es : List Edit) :
    (keepFrom stop es).log = (skippedFrom stop es).map fun e => .skippedFix e.start := by
  induction es generalizing stop with
  | nil => rfl
  | cons e es ih =>
      rw [keepFrom, skippedFrom]
      split
      · rw [Logged.log_bind, ih, List.map_cons]
        rfl
      · rw [Logged.log_bind, Logged.log_pure, List.append_nil, ih]

theorem isFree_of_mem_keepFrom (h : ∀ e ∈ es, e.start ≤ e.stop)
    (he : e ∈ (keepFrom stop es).value) : IsFree stop e := by
  induction es generalizing stop with
  | nil => cases he
  | cons x es ih =>
      obtain ⟨hx, hes⟩ := List.forall_mem_cons.mp h
      by_cases hfree : IsFree stop x
      · rw [keepFrom_cons_of_free hfree] at he
        rcases List.mem_cons.mp he with rfl | he
        · exact hfree
        · intro s hs
          have := hfree s hs
          have := ih hes he x.stop rfl
          omega
      · rw [keepFrom_cons_of_not_free hfree] at he
        exact ih hes he

/-- Each kept edit ends before the later ones start. -/
theorem pairwise_keepFrom (h : ∀ e ∈ es, e.start ≤ e.stop) :
    (keepFrom stop es).value.Pairwise fun a b => a.stop ≤ b.start := by
  induction es generalizing stop with
  | nil => exact List.Pairwise.nil
  | cons x es ih =>
      obtain ⟨hx, hes⟩ := List.forall_mem_cons.mp h
      by_cases hfree : IsFree stop x
      · rw [keepFrom_cons_of_free hfree, List.pairwise_cons]
        refine ⟨fun e he => ?_, ih hes⟩
        exact isFree_of_mem_keepFrom hes he x.stop rfl
      · rw [keepFrom_cons_of_not_free hfree]
        exact ih hes

/-- What is left out starts inside the edit kept last before the scan, or inside one that the scan
keeps before it. -/
theorem exists_kept_of_mem_skippedFrom (h : AreSorted es) (he : e ∈ skippedFrom stop es) :
    (∃ s ∈ stop, e.start < s) ∨
      ∃ k ∈ (keepFrom stop es).value, precedes k e ∧ e.start < k.stop := by
  induction es generalizing stop with
  | nil => cases he
  | cons x es ih =>
      by_cases hfree : IsFree stop x
      · rw [skippedFrom_cons_of_free hfree] at he
        rw [keepFrom_cons_of_free hfree]
        rcases ih h.of_cons he with ⟨s, hs, hlt⟩ | ⟨k, hk, hin⟩
        · obtain rfl := Option.some.inj hs
          have hmem : e ∈ es := (perm_keepFrom_append_skippedFrom (some x.stop) es).mem_iff.mpr
            (List.mem_append_right _ he)
          have hbefore := (List.pairwise_cons.mp h.precedes).1 e hmem
          exact Or.inr ⟨x, List.mem_cons_self, hbefore, hlt⟩
        · exact Or.inr ⟨k, List.mem_cons_of_mem x hk, hin⟩
      · rw [skippedFrom_cons_of_not_free hfree] at he
        rw [keepFrom_cons_of_not_free hfree]
        rcases List.mem_cons.mp he with rfl | he
        · exact Or.inl (not_isFree_iff.mp hfree)
        · exact ih h.of_cons he

end Scan

/-! ## Edits of one stretch -/

section Stretch

variable {stop : Option Int} {e x : Edit} {es : List Edit} {s : Int × Int}

theorem onStretch_cons_of_eq (h : x.stretch = s) : onStretch s (x :: es) = x :: onStretch s es :=
  List.filter_cons_of_pos (beq_iff_eq.mpr h)

theorem onStretch_cons_of_ne (h : x.stretch ≠ s) : onStretch s (x :: es) = onStretch s es :=
  List.filter_cons_of_neg (mt beq_iff_eq.mp h)

theorem onStretch_eq_nil (h : ∀ e ∈ es, e.stretch ≠ s) : onStretch s es = [] :=
  List.filter_eq_nil_iff.mpr fun e he => mt beq_iff_eq.mp (h e he)

/-- After an insertion all insertions at the same place are kept. -/
theorem onStretch_keepFrom_insertion {p : Int} (h : AreSorted es)
    (hes : ∀ e ∈ es, p < e.start ∨ p = e.start ∧ e.stop ≤ p) :
    onStretch (p, p) (keepFrom (some p) es).value = onStretch (p, p) es := by
  induction es with
  | nil => rfl
  | cons x es ih =>
      obtain ⟨hx, hrest⟩ := List.forall_mem_cons.mp hes
      have hxle := h.start_le_stop x List.mem_cons_self
      have hfree : IsFree (some p) x := by
        intro s hs
        obtain rfl := Option.some.inj hs
        omega
      rw [keepFrom_cons_of_free hfree]
      rcases hx with hlt | ⟨hstart, hstop⟩
      · -- The edits from here on start behind the place.
        have hbehind : ∀ e ∈ x :: es, e.stretch ≠ (p, p) := by
          intro e he hp
          have hstart : e.start = p := congrArg Prod.fst hp
          rcases List.mem_cons.mp he with rfl | he
          · omega
          · have := h.head_precedes he
            omega
        have hkept : ∀ e ∈ x :: (keepFrom (some x.stop) es).value, e.stretch ≠ (p, p) := by
          intro e he
          exact hbehind e (((keepFrom_sublist (some x.stop) es).cons_cons x).subset he)
        rw [onStretch_eq_nil hkept, onStretch_eq_nil hbehind]
      · have hxstop : x.stop = p := by omega
        have hxp : x.stretch = (p, p) := by rw [stretch, ← hstart, hxstop]
        rw [onStretch_cons_of_eq hxp, onStretch_cons_of_eq hxp, hxstop, ih h.of_cons hrest]

/-- Of the edits of a kept stretch the first is kept, and all of them are if they are insertions. -/
theorem onStretch_keepFrom (h : AreSorted es) (he : e ∈ (keepFrom stop es).value) :
    onStretch e.stretch (keepFrom stop es).value =
      if e.IsInsertion then onStretch e.stretch es else (onStretch e.stretch es).take 1 := by
  induction es generalizing stop with
  | nil => cases he
  | cons x es ih =>
      by_cases hfree : IsFree stop x
      · rw [keepFrom_cons_of_free hfree] at he ⊢
        by_cases hx : x.stretch = e.stretch
        · obtain ⟨hstart, hstop⟩ := stretch_eq_iff.mp hx
          rw [onStretch_cons_of_eq hx, onStretch_cons_of_eq hx]
          split
          case isTrue hins =>
            have hafter : ∀ f ∈ es, x.stop < f.start ∨ x.stop = f.start ∧ f.stop ≤ x.stop := by
              intro f hf
              have := h.head_precedes hf
              rw [IsInsertion] at hins
              omega
            have hplace : e.stretch = (x.stop, x.stop) := by
              rw [stretch, hins, hstop]
            rw [hplace, onStretch_keepFrom_insertion h.of_cons hafter]
          case isFalse hins =>
            have hnone : ∀ f ∈ (keepFrom (some x.stop) es).value, f.stretch ≠ e.stretch := by
              intro f hf heq
              have hbehind := isFree_of_mem_keepFrom h.of_cons.start_le_stop hf x.stop rfl
              have hxle := h.start_le_stop x List.mem_cons_self
              have := (stretch_eq_iff.mp heq).1
              rw [IsInsertion] at hins
              omega
            rw [onStretch_eq_nil hnone, List.take_succ_cons, List.take_zero]
        · have hmem : e ∈ (keepFrom (some x.stop) es).value := by
            rcases List.mem_cons.mp he with rfl | he
            · exact absurd rfl hx
            · exact he
          rw [onStretch_cons_of_ne hx, onStretch_cons_of_ne hx]
          exact ih h.of_cons hmem
      · rw [keepFrom_cons_of_not_free hfree] at he ⊢
        have hx : x.stretch ≠ e.stretch := by
          intro heq
          obtain ⟨s, hs, hlt⟩ := not_isFree_iff.mp hfree
          have := isFree_of_mem_keepFrom h.of_cons.start_le_stop he s hs
          have := (stretch_eq_iff.mp heq).1
          omega
        rw [onStretch_cons_of_ne hx]
        exact ih h.of_cons he

end Stretch

/-! ## The accepted edits -/

/-- The edits that the scan keeps of all that are reported. -/
def chosen (es : List Edit) : List Edit := (keepFrom none (es.mergeSort precedes)).value

/-- The edits that the scan leaves out of all that are reported. -/
def passedOver (es : List Edit) : List Edit := skippedFrom none (es.mergeSort precedes)

section Chosen

variable {cs : List Char} {ds : List Diagnostic} {es : List Edit} {e : Edit}

theorem exists_accepted_of_reported (h : reported cs ds = .ok es) :
    ∃ kept, accepted cs ds = .ok kept ∧ kept.value = chosen es ∧
      kept.log = (passedOver es).map fun e => .skippedFix e.start :=
  ⟨_, accepted_of_reported h, rfl, log_keepFrom none _⟩

theorem perm_chosen_append_passedOver (es : List Edit) :
    es.Perm (chosen es ++ passedOver es) :=
  (List.mergeSort_perm es precedes).symm.trans (perm_keepFrom_append_skippedFrom none _)

theorem chosen_subset (es : List Edit) : chosen es ⊆ es := by
  intro e he
  exact (perm_chosen_append_passedOver es).mem_iff.mpr (List.mem_append_left _ he)

theorem pairwise_chosen (h : ∀ e ∈ es, e.start ≤ e.stop) :
    (chosen es).Pairwise fun a b => a.stop ≤ b.start :=
  pairwise_keepFrom (areSorted_mergeSort h).start_le_stop

theorem pairwise_precedes_chosen (es : List Edit) : (chosen es).Pairwise (precedes · ·) :=
  (pairwise_sorted es).sublist (keepFrom_sublist none _)

theorem exists_chosen_of_mem_passedOver (h : ∀ e ∈ es, e.start ≤ e.stop) (he : e ∈ passedOver es) :
    ∃ k ∈ chosen es, precedes k e ∧ e.start < k.stop :=
  (exists_kept_of_mem_skippedFrom (areSorted_mergeSort h) he).resolve_left
    fun ⟨s, hs, _⟩ => Option.not_mem_none s hs

theorem onStretch_chosen (h : ∀ e ∈ es, e.start ≤ e.stop) (he : e ∈ chosen es) :
    onStretch e.stretch (chosen es) =
      if e.IsInsertion then onStretch e.stretch es else (onStretch e.stretch es).take 1 := by
  have hscan := onStretch_keepFrom (areSorted_mergeSort h) he
  rwa [onStretch_sorted] at hscan

/-- A chosen edit that replaces something is the first that is reported for its stretch. -/
theorem head?_onStretch_of_mem_chosen (h : ∀ e ∈ es, e.start ≤ e.stop) (he : e ∈ chosen es)
    (hins : ¬ e.IsInsertion) :
    onStretch e.stretch (chosen es) = [e] ∧ (onStretch e.stretch es).head? = some e := by
  have hfirst := onStretch_chosen h he
  rw [if_neg hins] at hfirst
  have hmem : e ∈ (onStretch e.stretch es).take 1 := by
    rw [← hfirst]
    exact mem_onStretch_iff.mpr ⟨he, rfl⟩
  cases hes : onStretch e.stretch es with
  | nil =>
      rw [hes] at hmem
      cases hmem
  | cons f fs =>
      rw [hes, List.take_succ_cons, List.take_zero] at hmem hfirst
      obtain rfl := List.mem_singleton.mp hmem
      exact ⟨hfirst, rfl⟩

/-- Chosen edits come one behind the other. Two start at one place only if both are insertions. -/
theorem pairwise_chosen_ordered (h : ∀ e ∈ es, e.start ≤ e.stop) :
    (chosen es).Pairwise fun a b =>
      a.stop ≤ b.start ∧ (a.start < b.start ∨ a.IsInsertion ∧ a.stretch = b.stretch) := by
  refine ((pairwise_chosen h).and (pairwise_precedes_chosen es)).imp_of_mem ?_
  rintro a b ha hb ⟨hapart, hprecedes⟩
  have hale := h a (chosen_subset es ha)
  have hble := h b (chosen_subset es hb)
  rw [precedes_iff] at hprecedes
  rw [stretch_eq_iff, IsInsertion]
  omega

end Chosen

/-! ## Nested edits -/

section Laminar

variable {es : List Edit} {e f k : Edit}

theorem AreLaminar.start_le_stop (h : AreLaminar es) : ∀ e ∈ es, e.start ≤ e.stop :=
  fun e he => Int.le_of_lt (h.start_lt_stop e he)

/-- Every edit lies inside a chosen one. -/
theorem AreLaminar.exists_chosen_around (h : AreLaminar es) (he : e ∈ es) :
    ∃ k ∈ chosen es, e.Within k := by
  rcases List.mem_append.mp ((perm_chosen_append_passedOver es).mem_iff.mp he) with he' | he'
  · exact ⟨e, he', Int.le_refl _, Int.le_refl _⟩
  · obtain ⟨k, hk, hprecedes, hlt⟩ := exists_chosen_of_mem_passedOver h.start_le_stop he'
    have hpos := h.start_lt_stop e he
    have hrelated := h.within_or_apart k (chosen_subset es hk) e he
    refine ⟨k, hk, ?_⟩
    rw [precedes_iff] at hprecedes
    simp only [Within, Apart] at hrelated ⊢
    omega

/-- A chosen edit inside a chosen one is the same. -/
theorem AreLaminar.eq_of_within (h : AreLaminar es) (he : e ∈ chosen es) (hk : k ∈ chosen es)
    (hin : e.Within k) : e = k := by
  by_contra hne
  have hapart : (chosen es).Pairwise Apart := (pairwise_chosen h.start_le_stop).imp Or.inl
  have hek := hapart.forall he hk hne
  have hpos := h.start_lt_stop e (chosen_subset es he)
  simp only [Within] at hin
  simp only [Apart] at hek
  omega

theorem AreLaminar.isOutermost_of_mem_chosen (h : AreLaminar es) (hk : k ∈ chosen es) :
    IsOutermost es k := by
  rintro f hf ⟨hstart, hstop, hlt⟩
  obtain ⟨g, hg, hfg⟩ := h.exists_chosen_around hf
  have hkg : k.Within g := ⟨Int.le_trans hfg.1 hstart, Int.le_trans hstop hfg.2⟩
  obtain rfl := h.eq_of_within hk hg hkg
  simp only [Within] at hfg
  omega

theorem AreLaminar.exists_chosen_of_isOutermost (h : AreLaminar es) (he : e ∈ es)
    (hout : IsOutermost es e) : ∃ k ∈ chosen es, k.stretch = e.stretch := by
  obtain ⟨k, hk, hin⟩ := h.exists_chosen_around he
  have hnot := hout k (chosen_subset es hk)
  refine ⟨k, hk, ?_⟩
  simp only [Encloses, Within] at hnot hin
  rw [stretch_eq_iff]
  omega

theorem AreLaminar.not_isInsertion (h : AreLaminar es) (he : e ∈ es) : ¬ e.IsInsertion :=
  Int.ne_of_lt (h.start_lt_stop e he)

theorem AreLaminar.nodup_stretch_chosen (h : AreLaminar es) : ((chosen es).map stretch).Nodup := by
  rw [List.Nodup, List.pairwise_map]
  refine (pairwise_chosen h.start_le_stop).imp_of_mem fun {a b} ha hb hab heq => ?_
  have hpos := h.start_lt_stop a (chosen_subset es ha)
  have := (stretch_eq_iff.mp heq).1
  omega

end Laminar

/-- The accepted edits and those that are left out, which the log names, are together the reported
ones. The accepted ones come one behind the other, and each that is left out starts inside one of
them. Where any two reported edits are nested or apart and none is an insertion, the accepted ones
are the first reported for each of the outermost stretches. -/
theorem accepted_leave_out_what_overlaps {cs : List Char} {ds : List Diagnostic} {es : List Edit}
    (hes : reported cs ds = .ok es) (hforward : ∀ e ∈ es, e.start ≤ e.stop) :
    ∃ kept leftOut, accepted cs ds = .ok kept ∧ es.Perm (kept.value ++ leftOut) ∧
      kept.log = leftOut.map (fun e => .skippedFix e.start) ∧
      (kept.value.Pairwise fun a b =>
        a.stop ≤ b.start ∧ (a.start < b.start ∨ a.IsInsertion ∧ a.stretch = b.stretch)) ∧
      (∀ e ∈ leftOut, ∃ k ∈ kept.value, k.start ≤ e.start ∧ e.start < k.stop) ∧
      (AreLaminar es →
        (∀ k ∈ kept.value, IsOutermost es k ∧ (onStretch k.stretch es).head? = some k) ∧
        (∀ e ∈ es, IsOutermost es e → ∃ k ∈ kept.value, k.stretch = e.stretch) ∧
        (kept.value.map stretch).Nodup) := by
  obtain ⟨kept, haccepted, hkept, hlog⟩ := exists_accepted_of_reported hes
  refine ⟨kept, passedOver es, haccepted, ?_⟩
  rw [hkept]
  refine ⟨perm_chosen_append_passedOver es, hlog, pairwise_chosen_ordered hforward, ?_, ?_⟩
  · intro e he
    obtain ⟨k, hk, hprecedes, hlt⟩ := exists_chosen_of_mem_passedOver hforward he
    rw [precedes_iff] at hprecedes
    exact ⟨k, hk, by omega, hlt⟩
  · intro hlaminar
    refine ⟨fun k hk => ⟨hlaminar.isOutermost_of_mem_chosen hk, ?_⟩,
      fun e he hout => hlaminar.exists_chosen_of_isOutermost he hout,
      hlaminar.nodup_stretch_chosen⟩
    have hins := hlaminar.not_isInsertion (chosen_subset es hk)
    exact (head?_onStretch_of_mem_chosen hforward hk hins).2

/-- A stretch is reported after one inside it, once more, and beside one that follows it. -/
theorem accepted_leave_out_what_overlaps_nested :
    let report (col endCol : Int) (fix : String) : Diagnostic :=
      ⟨"X1", "", .warning, ⟨2, col, 2, endCol⟩, some fix⟩
    let source := "é\n[(a..b).c, d]\n"
    let ds := [report 2 6 "inner", report 1 9 "first", report 9 10 ";", report 1 9 "second"]
    let es : List Edit := [⟨4, 8, "inner"⟩, ⟨3, 11, "first"⟩, ⟨11, 12, ";"⟩, ⟨3, 11, "second"⟩]
    reported source.toList ds = .ok es ∧ AreLaminar es ∧
      ∃ kept, accepted source.toList ds = .ok kept ∧
        kept.value = [⟨3, 11, "first"⟩, ⟨11, 12, ";"⟩] ∧
        kept.log = [.skippedFix 3, .skippedFix 4] ∧
        (∀ k ∈ kept.value, IsOutermost es k ∧ (onStretch k.stretch es).head? = some k) ∧
        (kept.value.map stretch).Nodup := by
  intro report source ds es
  have hes : reported source.toList ds = .ok es := by decide
  have hlaminar : AreLaminar es := ⟨by decide, by decide⟩
  obtain ⟨kept, leftOut, haccepted, -, -, -, -, hnested⟩ :=
    accepted_leave_out_what_overlaps hes hlaminar.start_le_stop
  obtain ⟨hfirst, -, hnodup⟩ := hnested hlaminar
  have hsorted : es.mergeSort precedes =
      [⟨3, 11, "first"⟩, ⟨3, 11, "second"⟩, ⟨4, 8, "inner"⟩, ⟨11, 12, ";"⟩] := by
    simp [es, List.mergeSort, precedes]
  have hkept := haccepted
  rw [accepted_of_reported hes, hsorted] at hkept
  obtain rfl := Except.ok.inj hkept
  exact ⟨hes, hlaminar, _, haccepted, rfl, rfl, hfirst, hnodup⟩

end PeriodLint.Edit
