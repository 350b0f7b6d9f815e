import PeriodLint.Proofs.Edit.Simultaneous
import Mathlib.Data.List.Nodup

/-!
# Fixes that are reported again

A fix that is reported again is left out where it replaces something, since it
starts inside its first report. An insertion has no inside, so that each report
of it is kept and its text is put in once for each.
-/

namespace PeriodLint

/-! ## Repeated elements -/

section Repeated

variable {α β ε : Type} [BEq α] [LawfulBEq α] [BEq β] [LawfulBEq β]

/-- Repetitions may be erased before elements are dropped or after. -/
theorem eraseDups_filter (p : α → Bool) (xs : List α) :
    (xs.filter p).eraseDups = xs.eraseDups.filter p := by
  match xs with
  | [] => rfl
  | x :: xs =>
      have ih := eraseDups_filter p (xs.filter fun y => !y == x)
      rw [List.eraseDups_cons]
      by_cases hx : p x = true
      · rw [List.filter_cons_of_pos hx, List.filter_cons_of_pos hx, List.eraseDups_cons, ← ih,
          List.filter_comm]
      · have hne : ∀ y ∈ xs.filter p, (!y == x) = true := by
          intro y hy
          rw [Bool.not_eq_true', beq_eq_false_iff_ne]
          rintro rfl
          exact hx (List.mem_filter.mp hy).2
        rw [List.filter_cons_of_neg hx, List.filter_cons_of_neg hx, ← ih, List.filter_comm,
          List.filter_eq_self.mpr hne]
  termination_by xs.length
  decreasing_by exact Nat.lt_succ_of_le (List.length_filter_le _ _)

/-- An element is followed by the others without its repetitions. -/
theorem eraseDups_cons_eq (x : α) (xs : List α) :
    (x :: xs).eraseDups = x :: xs.eraseDups.filter (· != x) := by
  rw [List.eraseDups_cons, eraseDups_filter]
  rfl

theorem eraseDups_sublist (xs : List α) : xs.eraseDups.Sublist xs := by
  induction xs with
  | nil => exact List.Sublist.refl _
  | cons x xs ih =>
      rw [eraseDups_cons_eq]
      exact (List.filter_sublist.trans ih).cons_cons x

theorem nodup_eraseDups (xs : List α) : xs.eraseDups.Nodup := by
  induction xs with
  | nil => exact List.nodup_nil
  | cons x xs ih =>
      rw [eraseDups_cons_eq, List.nodup_cons]
      refine ⟨fun hmem => ?_, ih.filter _⟩
      simpa using (List.mem_filter.mp hmem).2

theorem count_eraseDups_of_mem {x : α} {xs : List α} (h : x ∈ xs) : xs.eraseDups.count x = 1 :=
  List.count_eq_one_of_mem (nodup_eraseDups xs) (List.mem_eraseDups.mpr h)

/-- Repetitions may be erased before a list is sorted or after. -/
theorem eraseDups_mergeSort {le : α → α → Bool} (trans : ∀ a b c, le a b → le b c → le a c)
    (total : ∀ a b, le a b || le b a) (xs : List α) :
    xs.eraseDups.mergeSort le = (xs.mergeSort le).eraseDups := by
  apply eq_of_filter_tied_eq total (List.pairwise_mergeSort trans total _)
  · exact (List.pairwise_mergeSort trans total xs).sublist (eraseDups_sublist _)
  · intro a
    rw [filter_tied_mergeSort trans total, ← eraseDups_filter, ← eraseDups_filter,
      filter_tied_mergeSort trans total]

/-- Where different elements have different results, repetitions may be erased on either side. -/
theorem mapM_eraseDups_eq_ok {f : α → Except ε β} {xs : List α} {ys : List β}
    (h : xs.mapM f = .ok ys)
    (hinj : ∀ x ∈ xs, ∀ x' ∈ xs, ∀ y, f x = .ok y → f x' = .ok y → x = x') :
    xs.eraseDups.mapM f = .ok ys.eraseDups := by
  induction xs generalizing ys with
  | nil =>
      obtain rfl := Except.ok.inj h
      rfl
  | cons x xs ih =>
      obtain ⟨y, zs, hx, hxs, rfl⟩ := exists_cons_of_mapM_eq_ok h
      have hrest := ih hxs fun a ha b hb =>
        hinj a (List.mem_cons_of_mem x ha) b (List.mem_cons_of_mem x hb)
      have hsame : ∀ x' ∈ xs.eraseDups, ∀ y', f x' = .ok y' → (x' != x) = (y' != y) := by
        intro x' hx' y' hy'
        rw [Bool.eq_iff_iff, bne_iff_ne, bne_iff_ne, not_iff_not]
        constructor
        · rintro rfl
          exact Except.ok.inj (hy'.symm.trans hx)
        · rintro rfl
          exact hinj x' (List.mem_cons_of_mem x (List.mem_eraseDups.mp hx')) x List.mem_cons_self y'
            hy' hx
      rw [eraseDups_cons_eq, eraseDups_cons_eq, List.mapM_cons, hx, mapM_filter_eq_ok hrest hsame]
      rfl

end Repeated

namespace Edit

/-! ## The scan of repeated edits -/

/-- The edit starts before the end of the edit kept last, or it is an insertion at this end. -/
def IsSpent (stop : Option Int) (e : Edit) : Prop :=
  ∃ s ∈ stop, e.start < s ∨ e.IsInsertion ∧ e.start = s

section Scan

variable {stop : Option Int} {e x : Edit} {es : List Edit}

theorem isSpent_some_stop (h : x.start ≤ x.stop) : IsSpent (some x.stop) x :=
  ⟨x.stop, rfl, Int.lt_or_eq_of_le h |>.imp_right fun heq => ⟨heq, heq⟩⟩

theorem isSpent_of_not_free (h : ¬ IsFree stop x) : IsSpent stop x := by
  obtain ⟨s, hs, hlt⟩ := not_isFree_iff.mp h
  exact ⟨s, hs, Or.inl hlt⟩

/-- A spent edit that is free leaves the scan where it is. -/
theorem IsSpent.stop_eq (h : IsSpent stop e) (hfree : IsFree stop e) : stop = some e.stop := by
  obtain ⟨s, hs, hspent⟩ := h
  have hle := hfree s hs
  rw [IsInsertion] at hspent
  rw [Option.mem_def.mp hs, Option.some.injEq]
  omega

/-- A spent edit is still spent after a free one. -/
theorem IsSpent.after (h : IsSpent stop e) (hfree : IsFree stop x) (hx : x.start ≤ x.stop) :
    IsSpent (some x.stop) e := by
  obtain ⟨s, hs, hspent⟩ := h
  have hle := hfree s hs
  rw [IsInsertion] at hspent
  refine ⟨x.stop, rfl, ?_⟩
  rw [IsInsertion]
  omega

/-- Copies of a spent edit may be dropped before the scan or after. -/
theorem keepFrom_filter_ne (h : ∀ f ∈ es, f.start ≤ f.stop) (hspent : IsSpent stop e) :
    (keepFrom stop (es.filter (· != e))).value = (keepFrom stop es).value.filter (· != e) := by
  induction es generalizing stop with
  | nil => rfl
  | cons x es ih =>
      obtain ⟨hx, hes⟩ := List.forall_mem_cons.mp h
      by_cases hxe : x = e
      · subst hxe
        rw [List.filter_cons_of_neg (by simp)]
        by_cases hfree : IsFree stop x
        · rw [keepFrom_cons_of_free hfree, List.filter_cons_of_neg (by simp),
            hspent.stop_eq hfree, ih hes (isSpent_some_stop hx)]
        · rw [keepFrom_cons_of_not_free hfree, ih hes hspent]
      · rw [List.filter_cons_of_pos (by simpa using hxe)]
        by_cases hfree : IsFree stop x
        · rw [keepFrom_cons_of_free hfree, keepFrom_cons_of_free hfree,
            List.filter_cons_of_pos (by simpa using hxe), ih hes (hspent.after hfree hx)]
        · rw [keepFrom_cons_of_not_free hfree, keepFrom_cons_of_not_free hfree, ih hes hspent]

/-- Repetitions may be erased before the scan or after. -/
theorem keepFrom_eraseDups (h : ∀ f ∈ es, f.start ≤ f.stop) :
    (keepFrom stop es.eraseDups).value = (keepFrom stop es).value.eraseDups := by
  induction es generalizing stop with
  | nil => rfl
  | cons x es ih =>
      obtain ⟨hx, hes⟩ := List.forall_mem_cons.mp h
      have herased : ∀ f ∈ es.eraseDups, f.start ≤ f.stop :=
        fun f hf => hes f (List.mem_eraseDups.mp hf)
      rw [eraseDups_cons_eq]
      by_cases hfree : IsFree stop x
      · rw [keepFrom_cons_of_free hfree, keepFrom_cons_of_free hfree, eraseDups_cons_eq,
          keepFrom_filter_ne herased (isSpent_some_stop hx), ih hes]
      · have hne : ∀ f ∈ (keepFrom stop es).value.eraseDups, (f != x) = true := by
          intro f hf
          rw [bne_iff_ne]
          rintro rfl
          exact hfree (isFree_of_mem_keepFrom hes (List.mem_eraseDups.mp hf))
        rw [keepFrom_cons_of_not_free hfree, keepFrom_cons_of_not_free hfree,
          keepFrom_filter_ne herased (isSpent_of_not_free hfree), ih hes,
          List.filter_eq_self.mpr hne]

theorem chosen_eraseDups (h : ∀ e ∈ es, e.start ≤ e.stop) :
    chosen es.eraseDups = (chosen es).eraseDups := by
  rw [chosen, eraseDups_mergeSort precedes_trans precedes_total,
    keepFrom_eraseDups fun e he => h e (List.mem_mergeSort.mp he)]
  rfl

end Scan

/-! ## Texts without some insertions -/

/-- All that is dropped from a list are insertions. -/
def DropsInsertions (ks es : List Edit) : Prop := ∀ e, ¬ e.IsInsertion → es.count e ≤ ks.count e

section Dropped

variable {cs : List Char} {pos : Nat} {ks es : List Edit} {e x : Edit}

theorem DropsInsertions.isInsertion (h : DropsInsertions ks (x :: es)) (hsub : ks.Sublist es) :
    x.IsInsertion := by
  by_contra hx
  have hcount := h x hx
  have hle := hsub.count_le x
  rw [List.count_cons_self] at hcount
  omega

theorem DropsInsertions.of_cons (h : DropsInsertions ks (x :: es)) : DropsInsertions ks es :=
  fun e he => Nat.le_trans List.count_le_count_cons (h e he)

theorem DropsInsertions.of_cons_cons (h : DropsInsertions (x :: ks) (x :: es)) :
    DropsInsertions ks es := by
  intro e he
  have hcount := h e he
  rw [List.count_cons, List.count_cons] at hcount
  exact Nat.le_of_add_le_add_right hcount

theorem IsInsertion.patch_stop (hx : x.IsInsertion) : x.patch.stop = x.patch.start :=
  congrArg Int.toNat hx.symm

theorem IsInsertion.follow (hx : x.IsInsertion) (h : Follow cs.length pos ((x :: es).map patch)) :
    Follow cs.length x.patch.start (es.map patch) := by
  rw [← hx.patch_stop]
  exact h.2.2

/-- An insertion only adds its text. -/
theorem IsInsertion.exists_weave_eq (hx : x.IsInsertion)
    (h : Follow cs.length pos ((x :: es).map patch)) :
    ∃ before after, weave cs pos ((x :: es).map patch) = before ++ x.text.toList ++ after ∧
      weave cs pos (es.map patch) = before ++ after := by
  refine ⟨_, weave cs x.patch.start (es.map patch), ?_, weave_eq_append h.1 (hx.follow h)⟩
  rw [List.map_cons, weave, hx.patch_stop]
  rfl

/-- Without some insertions the text is shorter, unless only empty texts are missing. -/
theorem weave_of_dropsInsertions (hsub : ks.Sublist es) (hdrops : DropsInsertions ks es)
    (h : Follow cs.length pos (es.map patch)) :
    (weave cs pos (ks.map patch) = weave cs pos (es.map patch) ∧
        ∀ e, e.text ≠ "" → es.count e ≤ ks.count e) ∨
      ((weave cs pos (ks.map patch)).length < (weave cs pos (es.map patch)).length ∧
        ∃ e, e.text ≠ "" ∧ ks.count e < es.count e) := by
  induction hsub generalizing pos with
  | slnil => exact Or.inl ⟨rfl, fun _ _ => Nat.le_refl _⟩
  | @cons ks es x hsub ih =>
      have hins := hdrops.isInsertion hsub
      obtain ⟨before, after, hwith, hwithout⟩ := hins.exists_weave_eq h
      have hfollow := (hins.follow h).of_le h.1
      have hrest := ih hdrops.of_cons hfollow
      by_cases htext : x.text = ""
      · rw [hwith, htext, String.toList_empty, List.append_nil, ← hwithout]
        refine hrest.imp (fun ⟨heq, hcount⟩ => ⟨heq, fun e he => ?_⟩)
          fun ⟨hlt, e, he, hcount⟩ => ⟨hlt, e, he, ?_⟩
        · rw [List.count_cons_of_ne (by rintro rfl; exact he htext)]
          exact hcount e he
        · exact Nat.lt_of_lt_of_le hcount List.count_le_count_cons
      · have hpos : 0 < x.text.toList.length := by
          rw [List.length_pos_iff, Ne, String.toList_eq_nil_iff]
          exact htext
        have hle : (weave cs pos (ks.map patch)).length ≤ (weave cs pos (es.map patch)).length := by
          rcases hrest with ⟨heq, -⟩ | ⟨hlt, -⟩
          · rw [heq]
          · exact Nat.le_of_lt hlt
        refine Or.inr ⟨?_, x, htext, ?_⟩
        · rw [hwithout, List.length_append] at hle
          rw [hwith, List.length_append, List.length_append]
          omega
        · rw [List.count_cons_self]
          exact Nat.lt_succ_of_le (hsub.count_le x)
  | @cons_cons ks es x hsub ih =>
      rcases ih hdrops.of_cons_cons h.2.2 with ⟨heq, hcount⟩ | ⟨hlt, e, he, hcount⟩
      · refine Or.inl ⟨?_, fun e he => ?_⟩
        · rw [List.map_cons, List.map_cons, weave, weave, heq]
        · rw [List.count_cons, List.count_cons]
          exact Nat.add_le_add_right (hcount e he) _
      · refine Or.inr ⟨?_, e, he, ?_⟩
        · rw [List.map_cons, List.map_cons, weave, weave, List.length_append, List.length_append,
            List.length_append, List.length_append]
          omega
        · rw [List.count_cons, List.count_cons]
          exact Nat.add_lt_add_right hcount _

theorem weave_eq_iff_of_dropsInsertions (hsub : ks.Sublist es) (hdrops : DropsInsertions ks es)
    (h : Follow cs.length pos (es.map patch)) :
    weave cs pos (ks.map patch) = weave cs pos (es.map patch) ↔
      ∀ e, e.text ≠ "" → es.count e ≤ ks.count e := by
  rcases weave_of_dropsInsertions hsub hdrops h with ⟨heq, hcount⟩ | ⟨hlt, e, he, hcount⟩
  · exact iff_of_true heq hcount
  · refine iff_of_false (fun heq => ?_) fun hall => Nat.not_lt.mpr (hall e he) hcount
    rw [heq] at hlt
    exact Nat.lt_irrefl _ hlt

end Dropped

/-! ## Edits of one stretch -/

section Stretch

variable {es : List Edit} {e : Edit}

theorem count_onStretch (e : Edit) (es : List Edit) :
    (onStretch e.stretch es).count e = es.count e :=
  List.count_filter (beq_self_eq_true e.stretch)

theorem nodup_stretch_iff :
    (es.map stretch).Nodup ↔ ∀ e ∈ es, onStretch e.stretch es = [e] := by
  induction es with
  | nil => simp
  | cons x es ih =>
      have hx : x.stretch ∉ es.map stretch ↔ onStretch x.stretch (x :: es) = [x] := by
        rw [onStretch_cons_of_eq rfl, List.cons.injEq, onStretch, List.filter_eq_nil_iff]
        simp
      rw [List.map_cons, List.nodup_cons, List.forall_mem_cons, hx, ih]
      refine and_congr_right fun hself => forall₂_congr fun e he => ?_
      have hne : x.stretch ≠ e.stretch := by
        rw [← hx] at hself
        rintro heq
        exact hself (heq ▸ List.mem_map_of_mem he)
      rw [onStretch_cons_of_ne hne]

theorem count_chosen (h : ∀ e ∈ es, e.start ≤ e.stop) (he : e ∈ chosen es) :
    (chosen es).count e = if e.IsInsertion then es.count e else 1 := by
  rw [← count_onStretch]
  split
  case isTrue hins =>
    rw [onStretch_chosen h he, if_pos hins, count_onStretch]
  case isFalse hins =>
    rw [(head?_onStretch_of_mem_chosen h he hins).1, List.count_singleton_self]

/-- Without repetitions the chosen edits are the same, apart from insertions. -/
theorem dropsInsertions_eraseDups (h : ∀ e ∈ es, e.start ≤ e.stop) :
    DropsInsertions (chosen es).eraseDups (chosen es) := by
  intro e hins
  by_cases he : e ∈ chosen es
  · rw [count_chosen h he, if_neg hins, count_eraseDups_of_mem he]
  · rw [List.count_eq_zero_of_not_mem he]
    exact Nat.zero_le _

/-- A chosen edit is repeated only if it is an insertion that is reported again. -/
theorem count_chosen_le_iff (h : ∀ e ∈ es, e.start ≤ e.stop) :
    (∀ e, e.text ≠ "" → (chosen es).count e ≤ (chosen es).eraseDups.count e) ↔
      ∀ e ∈ chosen es, e.IsInsertion → e.text ≠ "" → es.count e = 1 := by
  constructor
  · intro hcount e he hins htext
    have hle := hcount e htext
    have hpos := List.count_pos_iff.mpr he
    rw [count_eraseDups_of_mem he] at hle
    rw [count_chosen h he, if_pos hins] at hle hpos
    omega
  · intro honce e htext
    by_cases he : e ∈ chosen es
    · rw [count_eraseDups_of_mem he, count_chosen h he]
      split
      case isTrue hins => rw [honce e he hins htext]
      case isFalse => exact Nat.le_refl 1
    · rw [List.count_eq_zero_of_not_mem he]
      exact Nat.zero_le _

end Stretch

/-- The fixes reported once each resolve to the edits reported once each. -/
theorem ArePlaced.reported_eraseDups {cs : List Char} {ds single : List Diagnostic}
    {es : List Edit} (h : ArePlaced cs ds) (hes : reported cs ds = .ok es)
    (hsingle : proposals single = (proposals ds).eraseDups) :
    reported cs single = .ok es.eraseDups := by
  have hplaced : ∀ p ∈ proposals ds, p.1.IsPlaced cs ∧ p.1.IsForward := by
    intro p hp
    obtain ⟨d, hd, hfix⟩ := List.mem_filterMap.mp hp
    obtain ⟨text, hsome, rfl⟩ := Option.map_eq_some_iff.mp hfix
    exact h d hd (Option.isSome_of_eq_some hsome)
  rw [reported, hsingle]
  apply mapM_eraseDups_eq_ok hes
  rintro ⟨span, text⟩ hp ⟨other, text'⟩ hp' e he he'
  obtain ⟨hspan, hforward⟩ := hplaced _ hp
  obtain ⟨hother, hforward'⟩ := hplaced _ hp'
  rw [Prod.mk.injEq]
  exact hspan.eq_of_ofSpan hforward hother hforward' he he'

/-- No stretch is replaced twice exactly if no kept insertion is for a place with another report.
Whatever is kept and replaces something is the first reported for its stretch, and alone; of the
insertions at one place all are kept. So reporting each fix once leaves the same text exactly if no
kept insertion of some text is reported again. -/
theorem one_edit_per_stretch_iff (source : String) (ds : List Diagnostic)
    (h : ArePlaced source.toList ds) :
    ∃ es kept fixed, reported source.toList ds = .ok es ∧
      accepted source.toList ds = .ok kept ∧ applyFixes source ds = .ok fixed ∧
      ((kept.value.map stretch).Nodup ↔
        ∀ e ∈ kept.value, e.IsInsertion → onStretch e.stretch es = [e]) ∧
      (∀ e ∈ kept.value, ¬ e.IsInsertion →
        onStretch e.stretch kept.value = [e] ∧ (onStretch e.stretch es).head? = some e) ∧
      (∀ e ∈ kept.value, e.IsInsertion →
        onStretch e.stretch kept.value = onStretch e.stretch es) ∧
      ∀ single, proposals single = (proposals ds).eraseDups →
        ∃ fixedOnce, applyFixes source single = .ok fixedOnce ∧
          (fixedOnce.value = fixed.value ↔
            ∀ e ∈ kept.value, e.IsInsertion → e.text ≠ "" → es.count e = 1) := by
  obtain ⟨es, hes⟩ := h.exists_reported
  obtain ⟨kept, haccepted, hkept, -⟩ := exists_accepted_of_reported hes
  have hfits := h.fits hes
  have hforward := start_le_stop_of_fits hfits
  obtain ⟨fixed, hfixed, hvalue⟩ := exists_applyFixes_of_fits hes hfits
  have hfirst : ∀ e ∈ kept.value, ¬ e.IsInsertion →
      onStretch e.stretch kept.value = [e] ∧ (onStretch e.stretch es).head? = some e := by
    rw [hkept]
    exact fun e he hins => head?_onStretch_of_mem_chosen hforward he hins
  have hall : ∀ e ∈ kept.value, e.IsInsertion →
      onStretch e.stretch kept.value = onStretch e.stretch es := by
    rw [hkept]
    intro e he hins
    rw [onStretch_chosen hforward he, if_pos hins]
  refine ⟨es, kept, fixed, hes, haccepted, hfixed, ?_, hfirst, hall, fun single hsingle => ?_⟩
  · rw [nodup_stretch_iff]
    refine forall₂_congr fun e he => ?_
    by_cases hins : e.IsInsertion
    · rw [hall e he hins]
      simp [hins]
    · simp [hins, (hfirst e he hins).1]
  · have hsingles := h.reported_eraseDups hes hsingle
    have hfitsOnce : ∀ e ∈ es.eraseDups, e.Fits source.toList :=
      fun e he => hfits e (List.mem_eraseDups.mp he)
    obtain ⟨fixedOnce, hfixedOnce, hvalueOnce⟩ := exists_applyFixes_of_fits hsingles hfitsOnce
    refine ⟨fixedOnce, hfixedOnce, ?_⟩
    rw [← String.toList_inj, hvalue, hvalueOnce, chosen_eraseDups hforward,
      weave_eq_iff_of_dropsInsertions (eraseDups_sublist _) (dropsInsertions_eraseDups hforward)
        (follow_chosen hfits), count_chosen_le_iff hforward, hkept]

/-- A stretch is reported three times, with two texts, and an insertion behind it once. -/
theorem one_edit_per_stretch_iff_repeated :
    let report (col endCol : Int) (fix : String) : Diagnostic :=
      ⟨"X1", "", .warning, ⟨1, col, 1, endCol⟩, some fix⟩
    let ds := [report 4 4 "!", report 0 4 "first", report 0 4 "second", report 0 4 "first"]
    let single := [report 4 4 "!", report 0 4 "first", report 0 4 "second"]
    ArePlaced "a..b\n".toList ds ∧ proposals single = (proposals ds).eraseDups ∧
      ∃ kept fixed fixedOnce, accepted "a..b\n".toList ds = .ok kept ∧
        (kept.value.map stretch).Nodup ∧ applyFixes "a..b\n" ds = .ok fixed ∧
        applyFixes "a..b\n" single = .ok fixedOnce ∧ fixedOnce.value = fixed.value := by
  intro report ds single
  have hplaced : ArePlaced "a..b\n".toList ds := by decide
  have hsingle : proposals single = (proposals ds).eraseDups := by decide
  obtain ⟨es, kept, fixed, hes, haccepted, hfixed, hnodup, -, -, htext⟩ :=
    one_edit_per_stretch_iff "a..b\n" ds hplaced
  obtain ⟨fixedOnce, hfixedOnce, honce⟩ := htext single hsingle
  have hes' : reported "a..b\n".toList ds =
      .ok [⟨4, 4, "!"⟩, ⟨0, 4, "first"⟩, ⟨0, 4, "second"⟩, ⟨0, 4, "first"⟩] := by decide
  rw [hes] at hes'
  obtain rfl := Except.ok.inj hes'
  have hsorted : [(⟨4, 4, "!"⟩ : Edit), ⟨0, 4, "first"⟩, ⟨0, 4, "second"⟩,
      ⟨0, 4, "first"⟩].mergeSort precedes =
        [⟨0, 4, "first"⟩, ⟨0, 4, "second"⟩, ⟨0, 4, "first"⟩, ⟨4, 4, "!"⟩] := by
    simp [List.mergeSort, precedes]
  have hkept := haccepted
  rw [accepted_of_reported hes, hsorted] at hkept
  obtain rfl := Except.ok.inj hkept
  refine ⟨hplaced, hsingle, _, fixed, fixedOnce, haccepted, ?_, hfixed, hfixedOnce, ?_⟩
  · exact hnodup.mpr (by decide)
  · exact honce.mpr (by decide)

/-- An insertion that is reported twice is kept twice, and its text is put in twice. -/
theorem repeated_insertion_adds_up :
    let d : Diagnostic := ⟨"X1", "", .warning, ⟨1, 1, 1, 1⟩, some "x"⟩
    ArePlaced "ab".toList [d, d] ∧
      (∃ kept, accepted "ab".toList [d, d] = .ok kept ∧
        kept.value = [⟨1, 1, "x"⟩, ⟨1, 1, "x"⟩]) ∧
      ∃ fixed fixedOnce, applyFixes "ab" [d, d] = .ok fixed ∧ fixed.value = "axxb" ∧
        applyFixes "ab" [d] = .ok fixedOnce ∧ fixedOnce.value = "axb" := by
  intro d
  have htwice : reported "ab".toList [d, d] = .ok [⟨1, 1, "x"⟩, ⟨1, 1, "x"⟩] := by decide
  have honce : reported "ab".toList [d] = .ok [⟨1, 1, "x"⟩] := by decide
  have hsorted : [(⟨1, 1, "x"⟩ : Edit), ⟨1, 1, "x"⟩].mergeSort precedes =
      [⟨1, 1, "x"⟩, ⟨1, 1, "x"⟩] := List.mergeSort_of_pairwise (by decide)
  have hkept := accepted_of_reported htwice
  rw [hsorted] at hkept
  obtain ⟨fixed, hfixed, hvalue⟩ :=
    exists_applyFixes_of_fits htwice (ArePlaced.fits (by decide) htwice)
  obtain ⟨fixedOnce, hfixedOnce, hvalueOnce⟩ :=
    exists_applyFixes_of_fits honce (ArePlaced.fits (by decide) honce)
  refine ⟨by decide, ⟨_, hkept, rfl⟩, fixed, fixedOnce, hfixed, ?_, hfixedOnce, ?_⟩
  · rw [← String.toList_inj, hvalue, chosen, hsorted]
    decide
  · rw [← String.toList_inj, hvalueOnce, chosen, List.mergeSort_singleton]
    decide

end Edit

end PeriodLint
