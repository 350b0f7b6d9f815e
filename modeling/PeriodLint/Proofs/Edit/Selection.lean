import PeriodLint.Edit
import Mathlib.Data.List.Basic

/-!
# Which edits are kept

Edits are kept from the left unless they start inside the edit kept last. When
each later edit lies inside an earlier one or behind it, the kept ones are those
that no other encloses.
-/

namespace PeriodLint.Edit

/-- One edit covers the whole of another and more. -/
def Encloses (outer inner : Edit) : Prop :=
  outer.start ≤ inner.start ∧ inner.stop ≤ outer.stop ∧
    (outer.start < inner.start ∨ inner.stop < outer.stop)

instance (outer inner : Edit) : Decidable (outer.Encloses inner) :=
  inferInstanceAs (Decidable (_ ∧ _ ∧ _))

/-- No edit of a list encloses the given one. -/
def IsOutermost (es : List Edit) (e : Edit) : Prop := ∀ f ∈ es, ¬ f.Encloses e

instance (es : List Edit) (e : Edit) : Decidable (IsOutermost es e) :=
  inferInstanceAs (Decidable (∀ f ∈ es, ¬ f.Encloses e))

/-- Edits that cover something, each inside an earlier one or behind it. -/
structure AreNested (es : List Edit) : Prop where
  start_lt_stop : ∀ e ∈ es, e.start < e.stop
  inside_or_behind : es.Pairwise fun a b => a.Encloses b ∨ a.stop ≤ b.start

/-- An edit starts at the end of the edit kept last or behind it. -/
def IsFree (stop : Option Int) (e : Edit) : Prop := ∀ s ∈ stop, s ≤ e.start

instance (stop : Option Int) (e : Edit) : Decidable (IsFree stop e) :=
  inferInstanceAs (Decidable (∀ s ∈ stop, s ≤ e.start))

theorem overlaps_eq_false_iff {stop : Option Int} {e : Edit} :
    overlaps stop e = false ↔ IsFree stop e := by
  cases stop <;> simp [overlaps, IsFree]

theorem keepFrom_cons_of_free {stop : Option Int} {e : Edit} {es : List Edit}
    (h : IsFree stop e) :
    (keepFrom stop (e :: es)).value = e :: (keepFrom (some e.stop) es).value := by
  rw [keepFrom, if_neg (by simp [overlaps_eq_false_iff.mpr h])]
  rfl

theorem keepFrom_cons_of_not_free {stop : Option Int} {e : Edit} {es : List Edit}
    (h : ¬ IsFree stop e) : (keepFrom stop (e :: es)).value = (keepFrom stop es).value := by
  rw [keepFrom, if_pos (by simpa using mt overlaps_eq_false_iff.mp h)]
  rfl

theorem keepFrom_sublist (stop : Option Int) (es : List Edit) :
    (keepFrom stop es).value.Sublist es := by
  induction es generalizing stop with
  | nil => exact List.Sublist.refl _
  | cons e es ih =>
      rw [keepFrom]
      split
      · exact (ih stop).cons e
      · exact (ih (some e.stop)).cons_cons e

/-- The first edit is kept, whatever follows it. -/
theorem keepFrom_none_cons (e : Edit) (es : List Edit) :
    (keepFrom none (e :: es)).value = e :: (keepFrom (some e.stop) es).value :=
  keepFrom_cons_of_free nofun

/-- Whatever the diagnostics, the first candidate is among the accepted edits. -/
theorem exists_accepted_of_candidates {cs : List Char} {ds : List Diagnostic} {e : Edit}
    {es : List Edit} (h : candidates cs ds = .ok (e :: es)) :
    ∃ kept, accepted cs ds = .ok kept ∧ kept.value.head? = some e := by
  refine ⟨keepFrom none (e :: es), ?_, ?_⟩
  · rw [accepted, h]
    rfl
  · rw [keepFrom_none_cons]
    rfl

theorem isOutermost_cons_iff {e f : Edit} {es : List Edit} :
    IsOutermost (e :: es) f ↔ ¬ e.Encloses f ∧ IsOutermost es f :=
  List.forall_mem_cons

theorem AreNested.of_cons {e : Edit} {es : List Edit} (h : AreNested (e :: es)) : AreNested es :=
  ⟨(List.forall_mem_cons.mp h.start_lt_stop).2, (List.pairwise_cons.mp h.inside_or_behind).2⟩

theorem AreNested.isOutermost_head {e : Edit} {es : List Edit} (h : AreNested (e :: es)) :
    IsOutermost (e :: es) e := by
  have hpos := h.start_lt_stop e List.mem_cons_self
  rw [isOutermost_cons_iff]
  constructor
  · rintro ⟨-, -, hlt⟩
    omega
  · rintro f hf ⟨hstart, hstop, hlt⟩
    rcases (List.pairwise_cons.mp h.inside_or_behind).1 f hf with ⟨hstart', hstop', -⟩ | hbehind
    · omega
    · omega

/-- After an edit that is kept, what is free is what it does not enclose. -/
theorem AreNested.isFree_some_iff {stop : Option Int} {e f : Edit} {es : List Edit}
    (h : AreNested (e :: es)) (hfree : IsFree stop e) (hf : f ∈ es) :
    IsFree (some e.stop) f ↔ IsFree stop f ∧ ¬ e.Encloses f := by
  have hepos := h.start_lt_stop e List.mem_cons_self
  have hfpos := h.start_lt_stop f (List.mem_cons_of_mem e hf)
  constructor
  · intro hstart
    have hstart := hstart e.stop rfl
    refine ⟨fun s hs => ?_, ?_⟩
    · have := hfree s hs
      omega
    · rintro ⟨-, hstop, -⟩
      omega
  · rintro ⟨-, hout⟩ s hs
    obtain rfl := Option.some.inj hs
    exact ((List.pairwise_cons.mp h.inside_or_behind).1 f hf).resolve_left hout

/-- The kept edits are the free ones that no other encloses. -/
theorem keepFrom_eq_filter {stop : Option Int} {es : List Edit} (h : AreNested es)
    (hstop : ∀ e ∈ es, ∀ s ∈ stop, s ≤ e.start ∨ e.stop ≤ s) :
    (keepFrom stop es).value = es.filter fun e => IsFree stop e ∧ IsOutermost es e := by
  induction es generalizing stop with
  | nil => rfl
  | cons e es ih =>
      obtain ⟨hestop, hstop⟩ := List.forall_mem_cons.mp hstop
      by_cases hfree : IsFree stop e
      · have hnext : ∀ f ∈ es, ∀ s ∈ some e.stop, s ≤ f.start ∨ f.stop ≤ s := by
          intro f hf s hs
          obtain rfl := Option.some.inj hs
          rcases (List.pairwise_cons.mp h.inside_or_behind).1 f hf with hin | hbehind
          · exact Or.inr hin.2.1
          · exact Or.inl hbehind
        rw [keepFrom_cons_of_free hfree, ih h.of_cons hnext,
          List.filter_cons_of_pos (by simp [hfree, h.isOutermost_head])]
        congr 1
        apply List.filter_congr
        intro f hf
        rw [decide_eq_decide, h.isFree_some_iff hfree hf, isOutermost_cons_iff, and_assoc]
      · rw [keepFrom_cons_of_not_free hfree, ih h.of_cons hstop,
          List.filter_cons_of_neg (by simp [hfree])]
        apply List.filter_congr
        intro f hf
        rw [decide_eq_decide, isOutermost_cons_iff]
        refine and_congr_right fun hffree => ?_
        -- The skipped edit ends before the free ones begin, so it encloses none of them.
        have hout : ¬ e.Encloses f := by
          rintro ⟨-, hin, -⟩
          simp only [IsFree, not_forall] at hfree
          obtain ⟨s, hs, hlt⟩ := hfree
          have := (hestop s hs).resolve_left hlt
          have := hffree s hs
          have := h.start_lt_stop f (List.mem_cons_of_mem e hf)
          omega
        simp [hout]

/-- Of nested edits those are kept that no other encloses. -/
theorem keepFrom_none_eq_filter {es : List Edit} (h : AreNested es) :
    (keepFrom none es).value = es.filter fun e => IsOutermost es e := by
  rw [keepFrom_eq_filter h fun _ _ s hs => absurd hs (Option.not_mem_none s)]
  apply List.filter_congr
  intro e _
  simp [IsFree]

end PeriodLint.Edit
