import PeriodLint.Proofs.Check.Unreadable
import PeriodLint.Proofs.Text.Unified

/-!
# Rewritten files

A file that mending rewrites gets back the text that was read from it, with the
fixed ranges replaced and every line end a line feed. So its bytes outside the
fixed ranges are kept exactly if no carriage return is among them.
-/

namespace PeriodLint

open Utf8 Text

/-! ## Stretches of a text and of what is read of it -/

namespace Patch

/-- A stretch between characters of what is read of a text, as one of the text. -/
def rawChars (cs : List Char) (p : Patch Char) : Patch Char :=
  ⟨rawOffset cs p.start, rawOffset cs p.stop, p.text⟩

/-- A stretch between bytes of what is read of a text, as one of the text. -/
def raw (cs : List Char) (p : Patch Char) : Patch Char :=
  ⟨rawByteOffset cs p.start, rawByteOffset cs p.stop, p.text⟩

theorem chars_raw (cs : List Char) (p : Patch Char) :
    (p.raw cs).chars cs = (p.chars (unifyBreaks cs)).rawChars cs := by
  rw [chars, raw, charsBefore_rawByteOffset, charsBefore_rawByteOffset]
  rfl

theorem isLocated_raw (cs : List Char) (p : Patch Char) : (p.raw cs).IsLocated cs :=
  ⟨rawByteOffset_mem_boundaries cs _, rawByteOffset_mem_boundaries cs _⟩

end Patch

section Raw

variable {cs : List Char} {pos length : Nat} {ps : List (Patch Char)}

theorem Follow.raw (cs : List Char) (h : Follow length pos ps) :
    Follow (encode cs).length (rawByteOffset cs pos) (ps.map (Patch.raw cs)) := by
  induction ps generalizing pos with
  | nil => exact le_length_encode (rawByteOffset_mem_boundaries cs pos)
  | cons p ps ih => exact ⟨rawByteOffset_mono cs h.1, rawByteOffset_mono cs h.2.1, ih h.2.2⟩

/-- Without a carriage return outside the stretches, to replace them in a text comes to replacing
them in what is read of it. -/
theorem weave_rawChars (cs : List Char) (h : Follow length pos ps)
    (hout : '\r' ∉ outside cs (rawOffset cs pos) (ps.map (Patch.rawChars cs))) :
    weave cs (rawOffset cs pos) (ps.map (Patch.rawChars cs)) = weave (unifyBreaks cs) pos ps := by
  induction ps generalizing pos with
  | nil => exact (unifyBreaks_eq_self hout).symm.trans (unifyBreaks_drop cs pos)
  | cons p ps ih =>
      rw [List.map_cons, outside_cons, List.mem_append, not_or] at hout
      have hgap := (unifyBreaks_eq_self hout.1).symm.trans (unifyBreaks_drop_take cs h.1)
      rw [List.map_cons, weave, weave, ← ih h.2.2 hout.2, ← hgap]
      rfl

/-- To replace stretches in the bytes of a text comes to replacing them in what is read of it
exactly if there is no carriage return outside them. -/
theorem weave_raw_eq_iff (h : Follow (encode (unifyBreaks cs)).length 0 ps)
    (hps : ∀ p ∈ ps, p.IsLocated (unifyBreaks cs))
    (hnew : '\r' ∉ weave (unifyBreaks cs) 0 (ps.map (Patch.chars (unifyBreaks cs)))) :
    weave (encode (unifyBreaks cs)) 0 (ps.map Patch.bytes) =
        weave (encode cs) 0 ((ps.map (Patch.raw cs)).map Patch.bytes) ↔
      13 ∉ outside (encode cs) 0 ((ps.map (Patch.raw cs)).map Patch.bytes) := by
  have hraw := h.raw cs
  rw [rawByteOffset_zero] at hraw
  have hlocated : ∀ p ∈ ps.map (Patch.raw cs), p.IsLocated cs :=
    List.forall_mem_map.mpr fun p _ => p.isLocated_raw cs
  have hchars : (ps.map (Patch.raw cs)).map (Patch.chars cs) =
      (ps.map (Patch.chars (unifyBreaks cs))).map (Patch.rawChars cs) := by
    rw [List.map_map, List.map_map]
    exact List.map_congr_left fun p _ => p.chars_raw cs
  have hread := encode_weave h (zero_mem_boundaries _) hps
  have hold := encode_weave hraw (zero_mem_boundaries cs) hlocated
  have hleft := encode_outside hraw (zero_mem_boundaries cs) hlocated
  rw [charsBefore_zero] at hread hold hleft
  rw [hchars] at hold hleft
  -- Both results are encoded texts, so they may be compared as characters.
  rw [← hread, ← hold, ← hleft, encode_injective.eq_iff, mem_encode_iff encodeChar_carriageReturn]
  constructor
  · intro heq hmem
    rw [heq] at hnew
    exact hnew (mem_weave_of_mem_outside hmem)
  · intro hout
    have hfollow := h.chars (zero_mem_boundaries _) hps
    rw [charsBefore_zero] at hfollow
    have hweave := weave_rawChars cs hfollow
    rw [rawOffset_zero] at hweave
    exact (hweave hout).symm

end Raw

theorem Check.readText_encode_eq (cs : List Char) :
    Check.readText (encode cs) = .ok (String.ofList (unifyBreaks cs)) := by
  rw [Check.readText, decode_encode]
  rfl

/-- What is read of the stretch of a node is its text. -/
theorem Node.IsLocated.readText_raw {cs : List Char} {n : Node} (h : n.IsLocated (unifyBreaks cs)) :
    Check.readText (((encode cs).take (rawByteOffset cs n.stop)).drop (rawByteOffset cs n.start)) =
      .ok (n.text (encode (unifyBreaks cs))) := by
  rw [drop_take_encode (rawByteOffset_mono cs h.start_le_stop) (rawByteOffset_mem_boundaries cs _)
      (rawByteOffset_mem_boundaries cs _), charsBefore_rawByteOffset, charsBefore_rawByteOffset,
    Check.readText_encode_eq, unifyBreaks_drop_take cs (charsBefore_mono _ h.start_le_stop),
    ← h.toList_text, String.ofList_toList]

namespace Check

/-! ## One pass -/

/-- One pass of mending changes a text, and another one would not change what it leaves. -/
structure EndsAfterOnePass (parse : Parser) (rules : List Rule) (source final : String) : Prop where
  fixes : Fixes parse rules source final
  changed : final ≠ source
  stays : Fixes parse rules final final

section OnePass

variable {parse : Parser} {rules : List Rule} {fs : FileStore} {path : Path} {bytes : Bytes}
  {source final : String}

theorem EndsAfterOnePass.examine (h : EndsAfterOnePass parse rules source final) :
    (examine parse rules true source).value = .ok (final, (analyze parse rules final).value) :=
  (mend_of_fixes_ne h.fixes h.changed).trans (mend_of_fixes_self 9 h.stays)

theorem EndsAfterOnePass.read_of_file (h : EndsAfterOnePass parse rules source final)
    (hread : fs.read path = .ok bytes) (htext : readText bytes = .ok source) {one : FileOutcome}
    (hone : (file parse rules true fs path).value = .ok one) :
    one.store.read path = .ok (encode final.toList) := by
  rw [file_of_examine hread htext h.examine] at hone
  obtain rfl := Except.ok.inj hone
  dsimp only
  rw [writeBack, if_neg h.changed]
  exact FileStore.read_write_self hread _

/-- Where a run changes one of its files, it has checked the file as it was before. -/
theorem exists_file_of_read_ne {fix : Bool} {o : Outcome} {paths : List Path}
    (hapart : paths.Pairwise o.store.Apart) (hpath : path ∈ paths)
    (hne : (files parse rules fix o paths).value.store.read path ≠ o.store.read path) :
    ∃ store one, store.read path = o.store.read path ∧
      (file parse rules fix store path).value = .ok one ∧
      (files parse rules fix o paths).value.store.read path = one.store.read path := by
  induction paths generalizing o with
  | nil => cases hpath
  | cons p paths ih =>
      obtain ⟨hp, hpaths⟩ := List.pairwise_cons.mp hapart
      cases hfile : (file parse rules fix o.store p).value with
      | error e =>
          rw [files_cons_error hfile] at hne
          exact absurd rfl hne
      | ok one =>
          have hshape := shape_of_file hfile
          rw [files_cons_ok hfile] at hne ⊢
          rcases List.mem_cons.mp hpath with rfl | hmem
          · exact ⟨o.store, one, rfl, hfile, read_files fun q hq => (hp q hq).symm.congr hshape⟩
          · have hsame : one.store.read path = o.store.read path :=
              read_of_file hfile (hp path hmem)
            obtain ⟨store, other, hread, hother, hleft⟩ :=
              ih (o := o.add one) (hpaths.imp fun hpq => hpq.congr hshape) hmem
                fun heq => hne (heq.trans hsame)
            exact ⟨store, other, hread.trans hsame, hother, hleft⟩

end OnePass

/-! ## Runs -/

section Run

variable {parse : Parser} {fs : FileStore} {config : Config}

/-- With a configuration the library's own rule runs with some severity or not at all. -/
theorem activeRules_eq (config : Config) :
    (config.activeRules Rule.registry).value = [] ∨
      ∃ severity, (config.activeRules Rule.registry).value = [.wholePeriod severity] := by
  rw [Config.activeRules, Logged.value_mapM, Rule.registry, List.filter_cons, List.filter_nil]
  split
  · rw [List.map_singleton, Config.configureRule]
    split <;> exact Or.inr ⟨_, rfl⟩
  · exact Or.inl rfl

/-- Where one pass changes a text, the library's own rule runs. -/
theorem EndsAfterOnePass.exists_activeRules_eq {source final : String}
    (h : EndsAfterOnePass parse (config.activeRules Rule.registry).value source final) :
    ∃ severity, (config.activeRules Rule.registry).value = [.wholePeriod severity] := by
  refine (activeRules_eq config).resolve_left fun hnil => h.changed ?_
  refine h.fixes.unique (fixes_self_of_eq_nil (List.eq_nil_iff_forall_not_mem.mpr fun d hd => ?_))
  have hreports := mem_reports_of_mem_analyze hd
  rw [hnil] at hreports
  cases hreports

/-- The ranges of a source that a pass replaces, as stretches between its bytes. -/
def fixedRanges (parse : Parser) (source : String) : List (Patch Char) :=
  (Analysis.outermost (encode source.toList) (parse source)).map
    (Analysis.patch (encode source.toList))

theorem follow_fixedRanges {source : String} (hwf : (parse source).IsWellFormed source.toList) :
    Follow (encode source.toList).length 0 (fixedRanges parse source) :=
  Analysis.follow_outermost hwf

theorem isLocated_of_mem_fixedRanges {source : String}
    (hwf : (parse source).IsWellFormed source.toList) :
    ∀ p ∈ fixedRanges parse source, p.IsLocated source.toList :=
  Analysis.isLocated_of_mem_patches hwf

/-- A pass over a program leaves the source with its fixed ranges replaced. -/
theorem exists_fixes_eq_weave (parse : Parser) {source : String}
    (hwf : (parse source).IsWellFormed source.toList)
    (hok : (parse source).hasError = false) (severity : Severity) :
    ∃ updated, Fixes parse [.wholePeriod severity] source updated ∧ updated.toList =
      weave source.toList 0 ((fixedRanges parse source).map (Patch.chars source.toList)) := by
  obtain ⟨fixed, hfixed, hvalue⟩ := Analysis.applyFixes_ofTree hwf severity
  rw [← analyze_eq_ofTree hok] at hfixed
  exact ⟨fixed.value, ⟨fixed, hfixed, rfl⟩, hvalue⟩

theorem Fixes.toList_eq_weave {severity : Severity} {source final : String}
    (h : Fixes parse [.wholePeriod severity] source final) (hchanged : final ≠ source)
    (hwf : (parse source).IsWellFormed source.toList) :
    final.toList =
      weave source.toList 0 ((fixedRanges parse source).map (Patch.chars source.toList)) := by
  cases hok : (parse source).hasError with
  | true => exact absurd (h.unique (fixes_self_of_eq_nil (analyze_eq_nil hok _))) hchanged
  | false =>
      obtain ⟨updated, hfixes, hupdated⟩ := exists_fixes_eq_weave parse hwf hok severity
      rw [h.unique hfixes]
      exact hupdated

/-- A pass brings no carriage return into a text that was read. -/
theorem Fixes.carriageReturn_not_mem {severity : Severity} {source final : String}
    (h : Fixes parse [.wholePeriod severity] source final) (hchanged : final ≠ source)
    (hsource : '\r' ∉ source.toList) : '\r' ∉ final.toList :=
  (Mended.step h hchanged (Mended.refl final)).not_mem
    (List.forall_mem_singleton.mpr ⟨severity, rfl⟩) hsource

/-- A file that a run rewrites in one pass holds what this pass leaves. -/
theorem EndsAfterOnePass.read_run {request : CheckRequest} {changed : Logged (List Path)}
    {path : Path} {bytes : Bytes} {source final : String}
    (h : EndsAfterOnePass parse (config.activeRules Rule.registry).value source final)
    (hload : (Config.load fs fs.cwdPath).value = .ok config) (hfix : request.fix = true)
    (hpath : path ∈ checkedFiles fs request changed) (hread : fs.read path = .ok bytes)
    (htext : readText bytes = .ok source)
    (hne : (run parse Rule.registry fs request changed).value.store.read path ≠ .ok bytes) :
    (run parse Rule.registry fs request changed).value.store.read path =
      .ok (encode final.toList) := by
  rw [(lines_store_of_load hload).2, hfix] at hne ⊢
  rw [← hread] at hne
  obtain ⟨store, one, hstore, hone, hlast⟩ :=
    exists_file_of_read_ne (pairwise_apart_checkedFiles fs request changed) hpath hne
  rw [hlast]
  exact h.read_of_file (hstore.trans hread) htext hone

end Run

/-- A file that a run rewrites in one pass of mending. Its new bytes are those of what was read of
it, with the fixed ranges replaced. They are the old bytes with the same ranges replaced exactly if
no carriage return stands outside of these. -/
theorem mending_keeps_bytes_iff {parse : Parser} {fs : FileStore} {config : Config}
    (hload : (Config.load fs fs.cwdPath).value = .ok config) {request : CheckRequest}
    (hfix : request.fix = true) {changed : Logged (List Path)} {path : Path}
    (hpath : path ∈ checkedFiles fs request changed) {bytes : Bytes} {cs : List Char}
    (hread : fs.read path = .ok bytes) (hdecode : decode bytes = .ok cs) {source final : String}
    (hsource : source.toList = unifyBreaks cs) (hwf : (parse source).IsWellFormed source.toList)
    (hpass : EndsAfterOnePass parse (config.activeRules Rule.registry).value source final) :
    let ranges := fixedRanges parse source
    let oldRanges := ranges.map (Patch.raw cs)
    let left := (run parse Rule.registry fs request changed).value.store.read path
    left ≠ .ok bytes →
      (∀ n ∈ Analysis.outermost (encode source.toList) (parse source),
        readText ((bytes.take (rawByteOffset cs n.stop)).drop (rawByteOffset cs n.start)) =
          .ok (n.text (encode source.toList))) ∧
      left = .ok (weave (encode source.toList) 0 (ranges.map Patch.bytes)) ∧
      (left = .ok (weave bytes 0 (oldRanges.map Patch.bytes)) ↔
        13 ∉ outside bytes 0 (oldRanges.map Patch.bytes)) := by
  intro ranges oldRanges left hleft
  obtain rfl := eq_encode_of_decode hdecode
  have htext : readText (encode cs) = .ok source := by
    rw [readText_encode_eq, ← hsource, String.ofList_toList]
  have hnew : left = .ok (encode final.toList) :=
    hpass.read_run hload hfix hpath hread htext hleft
  obtain ⟨severity, hrules⟩ := hpass.exists_activeRules_eq
  rw [hrules] at hpass
  have hfinal := hpass.fixes.toList_eq_weave hpass.changed hwf
  have hfollow := follow_fixedRanges hwf
  have hlocated := isLocated_of_mem_fixedRanges hwf
  have hbytes := encode_weave hfollow (zero_mem_boundaries source.toList) hlocated
  rw [charsBefore_zero, ← hfinal] at hbytes
  have hmissing : '\r' ∉ final.toList :=
    hpass.fixes.carriageReturn_not_mem hpass.changed (hsource ▸ not_mem_unifyBreaks cs)
  refine ⟨fun n hn => ?_, hnew.trans (congrArg Except.ok hbytes), ?_⟩
  · have hn := Analysis.isLocated_of_mem_flagged hwf (Analysis.mem_flagged_of_mem_outermost hn)
    rw [hsource] at hn ⊢
    exact hn.readText_raw
  · rw [hnew, hbytes, Except.ok.injEq]
    rw [hfinal] at hmissing
    rw [hsource] at hfollow hlocated hmissing ⊢
    exact weave_raw_eq_iff hfollow hlocated hmissing

/-! ## Directories with one file -/

/-- A parser that knows a single program. -/
def parseOnly (text : String) (tree : Node) : Parser := fun source =>
  if source = text then tree else { kind := "program", start := 0, stop := 0 }

section Only

variable {text replacement final : String} {tree : Node} {severity : Severity}

theorem parseOnly_self (text : String) (tree : Node) : parseOnly text tree text = tree := if_pos rfl

theorem analyze_parseOnly_eq_nil (hne : final ≠ text) (tree : Node) (severity : Severity) :
    (analyze (parseOnly text tree) [.wholePeriod severity] final).value = [] := by
  refine analyze_eq_nil_of_no_ranges (List.forall_mem_singleton.mpr ⟨severity, rfl⟩) ?_
  rw [parseOnly, if_neg hne, Node.ofKind_eq]
  rfl

theorem fixedRanges_parseOnly (h : tree.IsSoleRange text replacement) :
    fixedRanges (parseOnly text tree) text = [⟨tree.start, tree.stop, replacement.toList⟩] := by
  rw [fixedRanges, parseOnly_self, h.outermost_eq, List.map_singleton, Analysis.patch,
    Analysis.proposal, h.replacement?_eq]
  rfl

/-- One pass replaces the range, and nothing is known about the text that it leaves. -/
theorem endsAfterOnePass_parseOnly (h : tree.IsSoleRange text replacement) (hne : final ≠ text)
    (hfinal : final.toList = weave text.toList 0
      [(⟨tree.start, tree.stop, replacement.toList⟩ : Patch Char).chars text.toList])
    (severity : Severity) :
    EndsAfterOnePass (parseOnly text tree) [.wholePeriod severity] text final := by
  have hself := parseOnly_self text tree
  obtain ⟨updated, hfixes, hupdated⟩ := exists_fixes_eq_weave (parseOnly text tree)
    (hself.symm ▸ h.isWellFormed) (hself.symm ▸ h.hasError) severity
  rw [fixedRanges_parseOnly h, List.map_singleton, ← hfinal] at hupdated
  rw [String.toList_injective hupdated] at hfixes
  exact ⟨hfixes, hne, fixes_self_of_eq_nil (analyze_parseOnly_eq_nil hne tree severity)⟩

end Only

/-- A directory with a single file. -/
def storeOf (bytes : Bytes) : FileStore := { entries := [(["r.rb"], .file bytes)] }

section Store

variable {text final : String} {tree : Node} {bytes : Bytes}

theorem load_storeOf (bytes : Bytes) :
    (Config.load (storeOf bytes) (storeOf bytes).cwdPath).value = .ok {} :=
  FileStore.load_of_nothing_at rfl rfl rfl

theorem read_storeOf (bytes : Bytes) : (storeOf bytes).read (pathTo "r.rb") = .ok bytes :=
  FileStore.read_of_file_at rfl (by decide) rfl ""

theorem foundFiles_storeOf (bytes : Bytes) (fix : Bool) :
    foundFiles (storeOf bytes) { paths := [pathTo "r.rb"], fix } (pure []) =
      .ok [pathTo "r.rb"] :=
  FileStore.resolveFiles_of_read (read_storeOf bytes)

theorem checkedFiles_storeOf (bytes : Bytes) (fix : Bool) :
    checkedFiles (storeOf bytes) { paths := [pathTo "r.rb"], fix } (pure []) =
      [pathTo "r.rb"] :=
  checkedFiles_of_ok (foundFiles_storeOf bytes fix)

theorem read_run_storeOf (htext : readText bytes = .ok text)
    (hpass : EndsAfterOnePass (parseOnly text tree) [.wholePeriod .warning] text final) :
    (run (parseOnly text tree) Rule.registry (storeOf bytes)
      { paths := [pathTo "r.rb"], fix := true } (pure [])).value.store.read (pathTo "r.rb") =
        .ok (encode final.toList) := by
  have hone := file_of_examine (read_storeOf bytes) htext hpass.examine
  have hfiles := files_cons_ok (o := { store := storeOf bytes }) hone []
  rw [run_of_load (foundFiles_storeOf bytes true) (load_storeOf bytes)]
  exact (congrArg (·.store.read (pathTo "r.rb")) hfiles).trans
    (hpass.read_of_file (read_storeOf bytes) htext hone)

end Store

/-- A range whose receivers have a line end in them. -/
def brokenRange : Node :=
  Nested.range (Nested.send { kind := "call", start := 0, stop := 5 } 16)
    (Nested.send { kind := "call", start := 24, stop := 29 } 10)

def brokenText : String := "f(\n1).beginning_of_day..f(\n1).end_of_day\n"

theorem isSoleRange_brokenRange : brokenRange.IsSoleRange brokenText "f(\n1).all_day" := by
  have hexpr : brokenRange.rangeExpr (encode brokenText.toList) =
      ⟨some ⟨some "f(\n1)", some "beginning_of_day", []⟩,
        some ⟨some "f(\n1)", some "end_of_day", []⟩⟩ := by
    decide +kernel
  exact Node.isSoleRange_of_preorder (by decide) rfl rfl rfl rfl (by rw [hexpr]; decide)

/-- The bytes of a file in which a carriage return stands before this line end. -/
def brokenBytes : Bytes := encode "f(\r\n1).beginning_of_day..f(\r\n1).end_of_day\n".toList

theorem endsAfterOnePass_broken :
    EndsAfterOnePass (parseOnly brokenText brokenRange) [.wholePeriod .warning] brokenText
      "f(\n1).all_day\n" :=
  endsAfterOnePass_parseOnly isSoleRange_brokenRange (by decide) (by decide) .warning

/-- Carriage returns in a fixed range go with it. -/
theorem mending_keeps_bytes_iff_broken :
    let left := (run (parseOnly brokenText brokenRange) Rule.registry (storeOf brokenBytes)
      { paths := [pathTo "r.rb"], fix := true } (pure [])).value.store.read (pathTo "r.rb")
    left ≠ .ok brokenBytes ∧
      left = .ok (weave brokenBytes 0 [⟨0, 42, encode "f(\n1).all_day".toList⟩]) := by
  intro left
  have htext : readText brokenBytes = .ok brokenText := readText_encode_eq _
  have hleft : left ≠ .ok brokenBytes := by
    rw [show left = _ from read_run_storeOf htext endsAfterOnePass_broken]
    decide
  have hwf : (parseOnly brokenText brokenRange brokenText).IsWellFormed brokenText.toList :=
    (parseOnly_self brokenText brokenRange).symm ▸ isSoleRange_brokenRange.isWellFormed
  have hchecked : pathTo "r.rb" ∈ checkedFiles (storeOf brokenBytes)
      { paths := [pathTo "r.rb"], fix := true } (pure []) := by
    rw [checkedFiles_storeOf]
    exact List.mem_singleton_self _
  have hsource : brokenText.toList =
      unifyBreaks "f(\r\n1).beginning_of_day..f(\r\n1).end_of_day\n".toList := rfl
  obtain ⟨-, -, hkept⟩ := mending_keeps_bytes_iff (load_storeOf brokenBytes) rfl hchecked
    (read_storeOf brokenBytes) (decode_encode _) hsource hwf endsAfterOnePass_broken hleft
  rw [fixedRanges_parseOnly isSoleRange_brokenRange] at hkept
  exact ⟨hleft, hkept.mpr (by decide)⟩

/-- The line ends behind the fixed range are not kept. -/
theorem line_ends_are_lost :
    let bytes := encode "date.beginning_of_day..date.end_of_day\r\nx = 1\r\n".toList
    let left := (run (parseOnly dayText dayRange) Rule.registry (storeOf bytes)
      { paths := [pathTo "r.rb"], fix := true } (pure [])).value.store.read (pathTo "r.rb")
    EndsAfterOnePass (parseOnly dayText dayRange) [.wholePeriod .warning] dayText
        "date.all_day\nx = 1\n" ∧
      left = .ok (encode "date.all_day\nx = 1\n".toList) ∧
      left ≠ .ok (weave bytes 0 [⟨0, 38, encode "date.all_day".toList⟩]) := by
  intro bytes left
  have hpass : EndsAfterOnePass (parseOnly dayText dayRange) [.wholePeriod .warning] dayText
      "date.all_day\nx = 1\n" :=
    endsAfterOnePass_parseOnly isSoleRange_dayRange (by decide) (by decide) .warning
  have htext : readText bytes = .ok dayText := readText_encode_eq _
  have hleft : left = _ := read_run_storeOf htext hpass
  refine ⟨hpass, hleft, ?_⟩
  rw [hleft]
  decide

end Check

end PeriodLint
