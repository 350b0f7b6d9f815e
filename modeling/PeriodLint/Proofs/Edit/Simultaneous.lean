import PeriodLint.Proofs.Edit.Scan
import PeriodLint.Proofs.Edit.Weave

/-!
# All edits at once

The accepted edits are applied one by one to a text that changes meanwhile, at
offsets of the text as it was. As they are applied from the last to the first
and follow one another, the outcome is that of applying all of them at once:
each text stands where its stretch was, whatever stands for the others.
-/

namespace PeriodLint.Edit

/-- The stretch of an edit and the characters that shall stand in its place. -/
def patch (e : Edit) : Patch Char := ⟨e.start.toNat, e.stop.toNat, e.text.toList⟩

section Patch

variable {cs : List Char} {ds : List Diagnostic} {es : List Edit} {e : Edit}

theorem Fits.toEdit_patch (h : e.Fits cs) : e.patch.toEdit = e := by
  obtain ⟨hstart, hle, -⟩ := h
  have hstart' := Int.toNat_of_nonneg hstart
  have hstop' := Int.toNat_of_nonneg (Int.le_trans hstart hle)
  rw [patch, Patch.toEdit, hstart', hstop', String.ofList_toList]

theorem map_toEdit_patch (h : ∀ e ∈ es, e.Fits cs) : (es.map patch).map Patch.toEdit = es := by
  have hid : es.map (Patch.toEdit ∘ patch) = es.map id :=
    List.map_congr_left fun e he => (h e he).toEdit_patch
  rw [List.map_map, hid, List.map_id]

theorem follow_patch (h : ∀ e ∈ es, e.Fits cs) (hordered : es.Pairwise fun a b => a.stop ≤ b.start) :
    Follow cs.length 0 (es.map patch) := by
  apply follow_of_pairwise _ (Nat.zero_le _)
  · rw [List.pairwise_map]
    exact hordered.imp fun hab => Int.toNat_le_toNat hab
  · rw [List.forall_mem_map]
    intro e he
    obtain ⟨hstart, hle, hlen⟩ := h e he
    simp only [patch]
    omega

theorem start_le_stop_of_fits (h : ∀ e ∈ es, e.Fits cs) : ∀ e ∈ es, e.start ≤ e.stop :=
  fun e he => (h e he).start_le_stop

theorem fits_chosen (h : ∀ e ∈ es, e.Fits cs) : ∀ e ∈ chosen es, e.Fits cs :=
  fun e he => h e (chosen_subset es he)

theorem follow_chosen (h : ∀ e ∈ es, e.Fits cs) : Follow cs.length 0 ((chosen es).map patch) :=
  follow_patch (fits_chosen h) (pairwise_chosen (start_le_stop_of_fits h))

end Patch

section Text

variable {source : String} {ds others : List Diagnostic} {es : List Edit}

/-- The chosen edits are applied as if at the same time. -/
theorem exists_applyFixes_of_fits (hes : reported source.toList ds = .ok es)
    (h : ∀ e ∈ es, e.Fits source.toList) :
    ∃ fixed, applyFixes source ds = .ok fixed ∧
      fixed.value.toList = weave source.toList 0 ((chosen es).map patch) := by
  obtain ⟨fixed, hfixed, hvalue⟩ := applyFixes_eq_ok (accepted_of_reported hes)
  refine ⟨fixed, hfixed, ?_⟩
  calc
    fixed.value.toList
      = applyAll (chosen es) source.toList := by
        rw [hvalue, String.toList_ofList]
        rfl
    _ = applyAll (((chosen es).map patch).map Patch.toEdit) source.toList := by
        rw [map_toEdit_patch (fits_chosen h)]
    _ = weave source.toList 0 ((chosen es).map patch) := by
        rw [applyAll_eq_weave (follow_chosen h), List.take_zero, List.nil_append]

/-- Only diagnostics with a fix have one to propose. -/
theorem proposals_eq_of_filter (h : others.filter (·.fix.isSome) = ds.filter (·.fix.isSome)) :
    proposals others = proposals ds := by
  have hfilter : ∀ cs : List Diagnostic, proposals (cs.filter (·.fix.isSome)) = proposals cs := by
    intro cs
    rw [proposals, List.filterMap_filter]
    apply List.filterMap_congr
    intro d _
    cases d.fix <;> rfl
  rw [← hfilter, h, hfilter]

end Text

/-- The text with the fixes applied is the original one with the texts of all accepted edits woven
in at the offsets of their stretches. What comes before one of them and what comes behind it are
woven independently of each other and of its text. Diagnostics without a fix make no difference. -/
theorem applyFixes_weaves_accepted (source : String) (ds : List Diagnostic)
    (h : ArePlaced source.toList ds) :
    ∃ kept fixed, accepted source.toList ds = .ok kept ∧ applyFixes source ds = .ok fixed ∧
      (∀ e ∈ kept.value, e.Fits source.toList) ∧
      (kept.value.Pairwise fun a b => a.stop ≤ b.start) ∧
      fixed.value.toList = weave source.toList 0 (kept.value.map patch) ∧
      (∀ front e back, kept.value = front ++ e :: back →
        fixed.value.toList =
          weave (source.toList.take e.start.toNat) 0 (front.map patch) ++ e.text.toList ++
            weave source.toList e.stop.toNat (back.map patch)) ∧
      ∀ others : List Diagnostic,
        others.filter (·.fix.isSome) = ds.filter (·.fix.isSome) →
          applyFixes source others = .ok fixed := by
  obtain ⟨es, hes⟩ := h.exists_reported
  obtain ⟨kept, haccepted, hkept, -⟩ := exists_accepted_of_reported hes
  have hfits := h.fits hes
  obtain ⟨fixed, hfixed, hvalue⟩ := exists_applyFixes_of_fits hes hfits
  have hfollow := follow_chosen hfits
  rw [← hkept] at hvalue hfollow
  refine ⟨kept, fixed, haccepted, hfixed, ?_, ?_, hvalue, ?_, ?_⟩
  · rw [hkept]
    exact fits_chosen hfits
  · rw [hkept]
    exact pairwise_chosen (start_le_stop_of_fits hfits)
  · intro front e back hsplit
    rw [hsplit, List.map_append, List.map_cons] at hvalue hfollow
    rw [hvalue, weave_append_cons hfollow]
    rfl
  · intro others hothers
    rw [applyFixes_of_proposals_eq (proposals_eq_of_filter hothers), hfixed]

/-- A stretch is cut out on one line, and on the next a longer text stands for one stretch, with an
insertion right behind it. The report without a fix is on no line of the text. -/
theorem applyFixes_weaves_accepted_longer :
    let report (span : Span) (fix : Option String) : Diagnostic := ⟨"X1", "", .hint, span, fix⟩
    let source := "é = 1\nx y\n"
    let ds := [report ⟨2, 1, 2, 1⟩ (some "!"), report ⟨9, 0, 8, 0⟩ none,
      report ⟨2, 0, 2, 1⟩ (some "long\nname"), report ⟨1, 4, 1, 5⟩ (some "")]
    ArePlaced source.toList ds ∧
      ∃ kept fixed, accepted source.toList ds = .ok kept ∧ applyFixes source ds = .ok fixed ∧
        kept.value = [⟨4, 5, ""⟩, ⟨6, 7, "long\nname"⟩, ⟨7, 7, "!"⟩] ∧
        fixed.value = "é = \nlong\nname! y\n" := by
  intro report source ds
  have hplaced : ArePlaced source.toList ds := by decide
  obtain ⟨kept, fixed, haccepted, hfixed, -, -, hweave, -, -⟩ :=
    applyFixes_weaves_accepted source ds hplaced
  have hes : reported source.toList ds =
      .ok [⟨7, 7, "!"⟩, ⟨6, 7, "long\nname"⟩, ⟨4, 5, ""⟩] := by decide
  have hsorted : [(⟨7, 7, "!"⟩ : Edit), ⟨6, 7, "long\nname"⟩, ⟨4, 5, ""⟩].mergeSort precedes =
      [⟨4, 5, ""⟩, ⟨6, 7, "long\nname"⟩, ⟨7, 7, "!"⟩] := by
    simp [List.mergeSort, precedes]
  have hkept := haccepted
  rw [accepted_of_reported hes, hsorted] at hkept
  obtain rfl := Except.ok.inj hkept
  refine ⟨hplaced, _, fixed, haccepted, hfixed, rfl, ?_⟩
  rw [← String.toList_inj, hweave]
  decide

end PeriodLint.Edit
