import PeriodLint.Proofs.Edit.Place
import PeriodLint.Proofs.Rule.StableOrder

/-!
# Reported edits

Reported edits are sorted by their stretches, so that the edits of one stretch
keep the order in which they are reported. Those of placed fixes replace
stretches of the text.
-/

namespace PeriodLint.Edit

/-- The stretch that an edit replaces. -/
def stretch (e : Edit) : Int × Int := (e.start, e.stop)

/-- The edit replaces nothing, so that its text is put in. -/
def IsInsertion (e : Edit) : Prop := e.start = e.stop

instance (e : Edit) : Decidable e.IsInsertion := inferInstanceAs (Decidable (_ = _))

/-- The edits of a list that replace a stretch. -/
def onStretch (s : Int × Int) (es : List Edit) : List Edit := es.filter (·.stretch == s)

/-- The edit replaces a stretch of a text. -/
structure Fits (cs : List Char) (e : Edit) : Prop where
  start_nonneg : 0 ≤ e.start
  start_le_stop : e.start ≤ e.stop
  stop_le_length : e.stop ≤ cs.length

/-- Every fix is for a span from a place in a text to one that is not before it. -/
def ArePlaced (cs : List Char) (ds : List Diagnostic) : Prop :=
  ∀ d ∈ ds, d.fix.isSome → d.span.IsPlaced cs ∧ d.span.IsForward

instance (cs : List Char) (ds : List Diagnostic) : Decidable (ArePlaced cs ds) :=
  inferInstanceAs (Decidable (∀ d ∈ ds, d.fix.isSome → d.span.IsPlaced cs ∧ d.span.IsForward))

section Order

variable {a b e : Edit}

theorem stretch_eq_iff : a.stretch = b.stretch ↔ a.start = b.start ∧ a.stop = b.stop := by
  rw [stretch, stretch, Prod.mk.injEq]

theorem precedes_iff :
    precedes a b = true ↔ a.start < b.start ∨ a.start = b.start ∧ b.stop ≤ a.stop := by
  simp [precedes]

theorem precedes_trans (a b c : Edit) (hab : precedes a b) (hbc : precedes b c) :
    precedes a c := by
  rw [precedes_iff] at *
  omega

theorem precedes_total (a b : Edit) : precedes a b || precedes b a := by
  rw [Bool.or_eq_true, precedes_iff, precedes_iff]
  omega

/-- Edits are tied when they replace the same stretch. -/
theorem tied_precedes (e : Edit) : tied precedes e = (·.stretch == e.stretch) := by
  funext f
  rw [Bool.eq_iff_iff, tied_iff, precedes_iff, precedes_iff, beq_iff_eq, stretch_eq_iff]
  omega

theorem mem_onStretch_iff {s : Int × Int} {es : List Edit} :
    e ∈ onStretch s es ↔ e ∈ es ∧ e.stretch = s := by
  rw [onStretch, List.mem_filter, beq_iff_eq]

theorem pairwise_sorted (es : List Edit) : (es.mergeSort precedes).Pairwise (precedes · ·) :=
  List.pairwise_mergeSort precedes_trans precedes_total es

/-- Sorting keeps the order of the edits of one stretch. -/
theorem onStretch_sorted (e : Edit) (es : List Edit) :
    onStretch e.stretch (es.mergeSort precedes) = onStretch e.stretch es := by
  have hstable := filter_tied_mergeSort precedes_trans precedes_total e es
  rwa [tied_precedes] at hstable

end Order

section Resolution

variable {cs : List Char} {ds : List Diagnostic} {es : List Edit}

theorem ArePlaced.exists_reported (h : ArePlaced cs ds) : ∃ es, reported cs ds = .ok es :=
  exists_reported_of_hasLines fun d hd hfix => (h d hd hfix).1.hasLines

/-- A span that runs forward between places resolves to a stretch of the text. -/
theorem ArePlaced.fits (h : ArePlaced cs ds) (hes : reported cs ds = .ok es) :
    ∀ e ∈ es, e.Fits cs := by
  intro e he
  obtain ⟨d, hd, text, hfix, hspan⟩ := exists_diagnostic_of_mem_reported hes he
  obtain ⟨hplaced, hforward⟩ := h d hd (Option.isSome_of_eq_some hfix)
  obtain ⟨k, m, -, hm, hle, heq⟩ := hplaced.exists_cuts hforward text
  rw [hspan] at heq
  obtain rfl := Except.ok.inj heq
  exact ⟨Int.natCast_nonneg k, Int.ofNat_le.mpr hle, Int.ofNat_le.mpr hm.le_length⟩

end Resolution

end PeriodLint.Edit
