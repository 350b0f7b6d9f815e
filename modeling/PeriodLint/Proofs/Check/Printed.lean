import PeriodLint.Proofs.Check.Singles
import PeriodLint.Proofs.Rule.AnyOrder
import PeriodLint.Proofs.Rule.Reports

/-!
# Printed reports

A run prints a record for each diagnostic that it leaves, file by file and in
each file by position. A record quotes the receiver and the argument of a range
as they are written. So it takes one line exactly if there is no line end in
them, and only then splitting at the line ends gives the records back.
-/

namespace PeriodLint

open Utf8 Text

/-! ## Records and their lines -/

namespace Text

theorem lines_append_lineFeed {line : List Char} (h : '\n' ∉ line) (cs : List Char) :
    lines (line ++ '\n' :: cs) = line :: lines cs := by
  induction line with
  | nil => exact lines_cons_lineFeed cs
  | cons c line ih =>
      rw [List.mem_cons, not_or] at h
      exact lines_cons_of_ne (Ne.symm h.1) (ih h.2)

theorem count_flatMap_lineFeed (records : List (List Char)) :
    (records.flatMap (· ++ ['\n'])).count '\n' =
      (records.map (·.count '\n')).sum + records.length := by
  induction records with
  | nil => rfl
  | cons record records ih =>
      rw [List.flatMap_cons, List.count_append, List.count_append, ih, List.map_cons, List.sum_cons,
        List.length_cons, List.count_singleton_self]
      omega

/-- Ended records are the lines of their text exactly if there is no line end in them. -/
theorem lines_flatMap_iff {records : List (List Char)} :
    lines (records.flatMap (· ++ ['\n'])) = records ++ [[]] ↔ ∀ r ∈ records, '\n' ∉ r := by
  constructor
  · intro h r hr
    -- There are as many lines as line ends, so the records have no share in these.
    have hlength := congrArg List.length h
    rw [length_lines, count_flatMap_lineFeed, List.length_append, List.length_singleton] at hlength
    have hsum : (records.map (·.count '\n')).sum = 0 := by omega
    have hcount := List.sum_eq_zero_iff_forall_eq_nat.mp hsum _ (List.mem_map_of_mem hr)
    exact List.count_eq_zero.mp hcount
  · intro h
    induction records with
    | nil => rfl
    | cons record records ih =>
        obtain ⟨hrecord, hrecords⟩ := List.forall_mem_cons.mp h
        rw [List.flatMap_cons, List.append_assoc, List.singleton_append,
          lines_append_lineFeed hrecord, ih hrecords, List.cons_append]

theorem lineFeed_not_mem_repr (n : Nat) : '\n' ∉ n.repr.toList := by
  rw [Nat.toList_repr]
  intro h
  have hdigit := Nat.isDigit_of_mem_toDigits (by decide) (by decide) h
  exact absurd hdigit (by decide)

theorem lineFeed_not_mem_toString (n : Int) : '\n' ∉ (toString n).toList := by
  cases n with
  | ofNat n => exact lineFeed_not_mem_repr n
  | negSucc n =>
      have hsign : (toString (Int.negSucc n)).toList = '-' :: (n + 1).repr.toList :=
        String.toList_append
      rw [hsign, List.mem_cons, not_or]
      exact ⟨by decide, lineFeed_not_mem_repr (n + 1)⟩

end Text

/-! ## Line ends in reports -/

namespace Node

/-- A range is what a diagnostic of the library's own rule is about. -/
def IsReportedAs (source : Bytes) (n : Node) (d : Diagnostic) : Prop :=
  ∃ severity text, n.AmountsTo source text ∧ d = Rule.report severity (n.span source) text

/-- There is a line end in the receiver of a range or in the argument that it passes. -/
def IsBroken (source : Bytes) (n : Node) : Prop :=
  ∃ first last receiver p, n.Joins first last ∧ Bounds source first last receiver p ∧
    ('\n' ∈ receiver.toList ∨ ∃ a, first.Passes [a] ∧ '\n' ∈ (a.text source).toList)

section Broken

variable {source : Bytes} {n first last : Node} {receiver text : String} {p : Period}

theorem argumentTexts_of_passes {a : Node} (h : n.Passes [a]) (source : Bytes) :
    n.argumentTexts source = [a.text source] :=
  passes_singleton_iff.mp ⟨a, h, rfl⟩

/-- The endpoints of a range and what they ask of which receiver are determined. -/
theorem isBroken_iff (hjoins : n.Joins first last) (hbounds : Bounds source first last receiver p) :
    n.IsBroken source ↔
      '\n' ∈ receiver.toList ∨ ∃ a, first.Passes [a] ∧ '\n' ∈ (a.text source).toList := by
  refine ⟨?_, fun h => ⟨first, last, receiver, p, hjoins, hbounds, h⟩⟩
  rintro ⟨first', last', receiver', p', hjoins', hbounds', h⟩
  have hends := (joins_iff.mp hjoins').2.symm.trans (joins_iff.mp hjoins).2
  obtain ⟨rfl, rfl⟩ : first' = first ∧ last' = last := by simpa using hends
  have hpair := (bounds_iff.mp hbounds').symm.trans (bounds_iff.mp hbounds)
  obtain ⟨rfl, -⟩ : receiver' = receiver ∧ p' = p := by simpa using hpair
  exact h

/-- The call that a range amounts to has the line ends of the receiver and of the argument. -/
theorem AmountsTo.lineFeed_mem_iff (h : n.AmountsTo source text) :
    '\n' ∈ text.toList ↔ n.IsBroken source := by
  obtain ⟨first, last, receiver, p, hjoins, hbounds, hargs⟩ := h
  rw [isBroken_iff hjoins hbounds]
  rcases hargs with ⟨hfirst, -, rfl⟩ | ⟨rfl, a, b, ha, -, -, rfl⟩
  · rw [RangeExpr.mem_wholeCall_iff (by cases p <;> decide)]
    refine (or_iff_left ?_).symm
    rintro ⟨a, ha, -⟩
    have htexts := argumentTexts_of_passes ha source
    rw [passes_nil_iff.mp hfirst] at htexts
    cases htexts
  · have hparens : '\n' ∉ "(".toList ∧ '\n' ∉ ")".toList := by decide
    simp only [String.toList_append, List.mem_append, hparens, or_false]
    rw [RangeExpr.mem_wholeCall_iff (by decide)]
    refine or_congr_right ⟨fun hmem => ⟨a, ha, hmem⟩, ?_⟩
    rintro ⟨b, hb, hmem⟩
    have hsame := (argumentTexts_of_passes ha source).symm.trans (argumentTexts_of_passes hb source)
    rwa [List.singleton_inj.mp hsame]

theorem IsReportedAs.lineFeed_mem_message_iff {d : Diagnostic} (h : n.IsReportedAs source d) :
    '\n' ∈ d.message.toList ↔ n.IsBroken source := by
  obtain ⟨severity, text, htext, rfl⟩ := h
  rw [← htext.lineFeed_mem_iff]
  have hwords : '\n' ∉ "Use `".toList ∧ '\n' ∉ "` instead.".toList := by decide
  simp only [Rule.report, String.toList_append, List.mem_append, hwords, false_or, or_false]

theorem IsReportedAs.lineFeed_not_mem_ruleId {d : Diagnostic} (h : n.IsReportedAs source d) :
    '\n' ∉ d.ruleId.toList := by
  have hid : '\n' ∉ Rule.wholePeriodId.toList := by decide
  obtain ⟨severity, text, -, rfl⟩ := h
  exact hid

end Broken

end Node

namespace Check

section Records

variable {d : Diagnostic} {p : Path}

theorem toList_printed (o : Outcome) :
    o.printed.toList = (o.lines.map String.toList).flatMap (· ++ ['\n']) := by
  rw [Outcome.printed, String.toList_join, List.flatMap_map, List.flatMap_map]
  exact List.flatMap_congr fun line _ => String.toList_append

theorem reportLine_eq (p : Path) (d : Diagnostic) :
    reportLine p d = p.toString ++ ":" ++ toString d.span.line ++ ":" ++ toString d.span.col ++
      ": " ++ d.ruleId ++ " " ++ d.message :=
  rfl

/-- A record has a line end in it where the message has one. -/
theorem lineFeed_mem_reportLine_iff (hp : '\n' ∉ p.toString.toList)
    (hd : '\n' ∉ d.ruleId.toList) :
    '\n' ∈ (reportLine p d).toList ↔ '\n' ∈ d.message.toList := by
  have hline := lineFeed_not_mem_toString d.span.line
  have hcol := lineFeed_not_mem_toString d.span.col
  have hmarks : '\n' ∉ ":".toList ∧ '\n' ∉ ": ".toList ∧ '\n' ∉ " ".toList := by decide
  simp only [reportLine_eq, String.toList_append, List.mem_append, hp, hline, hcol, hd, hmarks,
    false_or]

/-- The text of a file that can be read. -/
def textAt? (fs : FileStore) (p : Path) : Option String :=
  match fs.read p with
  | .ok bytes => (readText bytes).toOption
  | .error _ => none

/-- What there is to report on a file of a store. -/
def remaining (parse : Parser) (rules : List Rule) (fs : FileStore) (p : Path) : List Diagnostic :=
  match textAt? fs p with
  | some source => (analyze parse rules source).value
  | none => []

end Records

/-! ## What a run prints -/

section Runs

variable {parse : Parser} {rules : List Rule} {fs store : FileStore} {p : Path} {fix : Bool}
  {bytes : Bytes} {source final : String} {ds : List Diagnostic}

theorem textAt?_of_read (hread : fs.read p = .ok bytes) (htext : readText bytes = .ok source) :
    textAt? fs p = some source := by
  rw [textAt?, hread]
  simp only [htext, Except.toOption]

theorem remaining_of_textAt? (h : textAt? fs p = some source) :
    remaining parse rules fs p = (analyze parse rules source).value := by
  rw [remaining, h]

theorem remaining_congr (h : store.read p = fs.read p) :
    remaining parse rules store p = remaining parse rules fs p := by
  rw [remaining, remaining, textAt?, textAt?, h]

theorem pairwise_remaining (parse : Parser) (rules : List Rule) (fs : FileStore) (p : Path) :
    (remaining parse rules fs p).Pairwise (Analysis.precedes · ·) := by
  rw [remaining]
  split
  · next source _ =>
      cases herror : (parse source).hasError with
      | true => simp [analyze_eq_nil herror]
      | false =>
          rw [analyze_eq_ofTree herror]
          exact Analysis.pairwise_ofTree rules _ source
  · exact List.Pairwise.nil

/-- The records of a file take one line each exactly if none is about a range with a line end in its
receiver or its argument. -/
theorem lineFeed_not_mem_records_iff (hrules : ∀ rule ∈ rules, rule.IsWholePeriod)
    (hp : '\n' ∉ p.toString.toList) (hsource : textAt? fs p = some source) :
    (∀ d ∈ remaining parse rules fs p, '\n' ∉ (reportLine p d).toList) ↔
      ∀ n ∈ (parse source).ofKind "range", ∀ d ∈ remaining parse rules fs p,
        n.IsReportedAs (encode source.toList) d → ¬ n.IsBroken (encode source.toList) := by
  rw [remaining_of_textAt? hsource]
  have hrecord {n : Node} {d : Diagnostic} (hn : n.IsReportedAs (encode source.toList) d) :
      '\n' ∈ (reportLine p d).toList ↔ n.IsBroken (encode source.toList) :=
    (lineFeed_mem_reportLine_iff hp hn.lineFeed_not_mem_ruleId).trans hn.lineFeed_mem_message_iff
  constructor
  · intro h n _ d hd hn
    exact mt (hrecord hn).mpr (h d hd)
  · intro h d hd
    obtain ⟨severity, n, hrange, text, htext, heq⟩ := exists_node_of_mem_analyze hrules hd
    have hn : n.IsReportedAs (encode source.toList) d :=
      ⟨severity, text, Rule.replacement?_eq_some_iff.mp htext, heq⟩
    exact mt (hrecord hn).mp (h n hrange d hd hn)

/-- Examining a text ends with what there is to report on the text that it leaves. -/
theorem analyze_of_examine (hrules : ∀ rule ∈ rules, rule.IsWholePeriod)
    (h : (examine parse rules fix source).value = .ok (final, ds))
    (hsource : '\r' ∉ source.toList) :
    ds = (analyze parse rules final).value ∧ '\r' ∉ final.toList := by
  cases fix with
  | false =>
      obtain ⟨rfl, rfl⟩ := Prod.mk.inj (Except.ok.inj h)
      exact ⟨rfl, hsource⟩
  | true =>
      obtain ⟨hds, n, -, hmended, -⟩ := exists_mended_of_mend h
      exact ⟨hds, hmended.not_mem hrules hsource⟩

/-- A file that can be read adds the records of what is left in it. -/
theorem exists_records_of_isReadable (parse : Parser) (fix : Bool)
    (hrules : ∀ rule ∈ rules, rule.IsWholePeriod) (h : isReadable fs p = true) :
    ∃ one, (file parse rules fix fs p).value = .ok one ∧ isReadable one.store p = true ∧
      one.lines = (remaining parse rules one.store p).map (reportLine p) := by
  obtain ⟨bytes, source, hread, htext⟩ := isReadable_iff.mp h
  obtain ⟨final, ds, hexamine⟩ := exists_examine hrules parse fix source
  obtain ⟨rfl, hfinal⟩ := analyze_of_examine hrules hexamine (not_mem_of_readText htext)
  obtain ⟨left, hleft, htextLeft⟩ := exists_read_writeBack hread htext hfinal
  refine ⟨_, file_of_examine hread htext hexamine,
    isReadable_iff.mpr ⟨left, final, hleft, htextLeft⟩, ?_⟩
  rw [remaining_of_textAt? (textAt?_of_read hleft htextLeft)]

/-- A run over files that can be read prints the records of what it leaves, file by file. -/
theorem lines_files (parse : Parser) (fix : Bool) {o : Outcome} {paths : List Path}
    (hrules : ∀ rule ∈ rules, rule.IsWholePeriod) (hapart : paths.Pairwise o.store.Apart)
    (hreadable : ∀ p ∈ paths, isReadable o.store p = true) :
    let left := (files parse rules fix o paths).value
    (∀ p ∈ paths, isReadable left.store p = true) ∧
      left.lines = o.lines ++
        paths.flatMap fun p => (remaining parse rules left.store p).map (reportLine p) := by
  induction paths generalizing o with
  | nil => exact ⟨nofun, (List.append_nil _).symm⟩
  | cons p paths ih =>
      obtain ⟨hp, hpaths⟩ := List.pairwise_cons.mp hapart
      obtain ⟨hpread, hread⟩ := List.forall_mem_cons.mp hreadable
      obtain ⟨one, hfile, hone, hlines⟩ := exists_records_of_isReadable parse fix hrules hpread
      have hshape := shape_of_file hfile
      have hothers : ∀ q ∈ paths, isReadable one.store q = true := fun q hq =>
        (isReadable_congr (read_of_file hfile (hp q hq))).trans (hread q hq)
      -- The files after this one leave it as it is.
      have hlast : (files parse rules fix (o.add one) paths).value.store.read p =
          one.store.read p :=
        read_files fun q hq => (hp q hq).symm.congr hshape
      obtain ⟨hrest, hadded⟩ :=
        ih (o := o.add one) (hpaths.imp fun hpq => hpq.congr hshape) hothers
      rw [files_cons_ok hfile]
      refine ⟨List.forall_mem_cons.mpr ⟨(isReadable_congr hlast).trans hone, hrest⟩, ?_⟩
      rw [hadded, List.flatMap_cons, remaining_congr hlast, ← hlines, ← List.append_assoc]
      rfl

end Runs

/-- A run over files that can be read prints for each diagnostic that is left in a file one record
and a line end, file by file and in each file by position. Where no path has a line end in it, the
lines are the records exactly if no range that is left has one in its receiver or its argument. -/
theorem printed_lines_are_records_iff {parse : Parser} {fs : FileStore} {config : Config}
    (hload : (Config.load fs fs.cwdPath).value = .ok config) {request : CheckRequest}
    {changed : Logged (List Path)}
    (hreadable : ∀ p ∈ checkedFiles fs request changed, isReadable fs p = true)
    (hpaths : ∀ p ∈ checkedFiles fs request changed, '\n' ∉ p.toString.toList) :
    let paths := checkedFiles fs request changed
    let o := (run parse Rule.registry fs request changed).value
    let left := remaining parse (config.activeRules Rule.registry).value o.store
    let records := paths.flatMap fun p => (left p).map (reportLine p)
    (∀ p ∈ paths, isReadable o.store p = true ∧ (left p).Pairwise (Analysis.precedes · ·)) ∧
      o.printed = String.join (records.map (· ++ "\n")) ∧
      (lines o.printed.toList = records.map String.toList ++ [[]] ↔
        ∀ p ∈ paths, ∀ source, textAt? o.store p = some source →
          ∀ n ∈ (parse source).ofKind "range", ∀ d ∈ left p,
            n.IsReportedAs (encode source.toList) d → ¬ n.IsBroken (encode source.toList)) := by
  intro paths o left records
  have hrules := isWholePeriod_of_mem_activeRules config
  obtain ⟨hprint, hstore⟩ : o.lines = _ ∧ o.store = _ := lines_store_of_load hload
  have hapart : paths.Pairwise fs.Apart := pairwise_apart_checkedFiles fs request changed
  obtain ⟨hafter, hlines⟩ :=
    lines_files parse request.fix (o := { store := fs }) hrules hapart hreadable
  rw [← hstore] at hafter hlines
  rw [← hprint] at hlines
  rw [List.nil_append] at hlines
  have hprinted : o.printed = String.join (records.map (· ++ "\n")) := by
    rw [Outcome.printed, hlines]
  refine ⟨fun p hp => ⟨hafter p hp, pairwise_remaining ..⟩, hprinted, ?_⟩
  rw [toList_printed, hlines, lines_flatMap_iff, List.forall_mem_map, List.forall_mem_flatMap]
  refine forall₂_congr fun p hp => ?_
  obtain ⟨bytes, source, hread, htext⟩ := isReadable_iff.mp (hafter p hp)
  have hsource := textAt?_of_read hread htext
  simp only [List.forall_mem_map, hsource, Option.some.injEq, forall_eq']
  exact lineFeed_not_mem_records_iff hrules (hpaths p hp) hsource

section Store

variable {text replacement : String} {tree : Node}

theorem checked_storeOf (htext : '\r' ∉ text.toList) :
    ∀ p ∈ checkedFiles (storeOf (encode text.toList)) { paths := [pathTo "r.rb"] } (pure []),
      isReadable (storeOf (encode text.toList)) p = true ∧ '\n' ∉ p.toString.toList := by
  rw [checkedFiles_storeOf]
  exact List.forall_mem_singleton.mpr
    ⟨isReadable_iff.mpr ⟨_, _, read_storeOf _, readText_encode htext⟩, by decide⟩

theorem textAt?_storeOf (htext : '\r' ∉ text.toList) :
    textAt? (storeOf (encode text.toList)) (pathTo "r.rb") = some text :=
  textAt?_of_read (read_storeOf _) (readText_encode htext)

/-- A run without mending leaves the single range of a file and prints a record for it. -/
theorem run_storeOf (h : tree.IsSoleRange text replacement) (htext : '\r' ∉ text.toList) :
    let d := Rule.report .warning (tree.span (encode text.toList)) replacement
    (run (parseOnly text tree) Rule.registry (storeOf (encode text.toList))
        { paths := [pathTo "r.rb"] } (pure [])).value =
      { store := storeOf (encode text.toList), lines := [reportLine (pathTo "r.rb") d] } ∧
    remaining (parseOnly text tree) [.wholePeriod .warning] (storeOf (encode text.toList))
      (pathTo "r.rb") = [d] := by
  intro d
  have hself := parseOnly_self text tree
  have hsole : (parseOnly text tree text).IsSoleRange text replacement := hself.symm ▸ h
  have hanalyze : (analyze (parseOnly text tree) [.wholePeriod .warning] text).value = [d] := by
    rw [hsole.analyze_eq, hself]
  have hfile : (file (parseOnly text tree) [.wholePeriod .warning] false
      (storeOf (encode text.toList)) (pathTo "r.rb")).value = .ok _ :=
    file_of_examine (read_storeOf _) (readText_encode htext) rfl
  constructor
  · rw [run_of_load (foundFiles_storeOf _ false) (load_storeOf _)]
    refine (files_cons_ok (o := { store := _ }) hfile []).trans ?_
    rw [hanalyze, writeBack, if_pos rfl]
    rfl
  · rw [remaining_of_textAt? (textAt?_storeOf htext), hanalyze]

end Store

/-- A range with its receiver on one line is reported on one line. -/
theorem printed_lines_are_records_iff_day :
    let parse := parseOnly dayText dayRange
    let fs := storeOf (encode dayText.toList)
    let request : CheckRequest := { paths := [pathTo "r.rb"] }
    let o := (run parse Rule.registry fs request (pure [])).value
    (∀ p ∈ checkedFiles fs request (pure []),
        isReadable fs p = true ∧ '\n' ∉ p.toString.toList) ∧
      lines o.printed.toList = ["r.rb:1:0: DTR001 Use `date.all_day` instead.".toList, []] := by
  intro parse fs request o
  have htext : '\r' ∉ dayText.toList := by decide
  have hchecked := checked_storeOf htext
  obtain ⟨hrun, hleft⟩ := run_storeOf isSoleRange_dayRange htext
  have hwhole : ¬ dayRange.IsBroken (encode dayText.toList) :=
    (Rule.replacement?_eq_some_iff.mp isSoleRange_dayRange.replacement?_eq).lineFeed_mem_iff.not.mp
      (by decide)
  obtain ⟨-, -, hiff⟩ := @printed_lines_are_records_iff parse fs _ (load_storeOf _) request
    (pure []) (fun p hp => (hchecked p hp).1) fun p hp => (hchecked p hp).2
  refine ⟨hchecked, (hiff.mpr ?_).trans ?_⟩
  · rw [checkedFiles_storeOf, hrun]
    refine List.forall_mem_singleton.mpr fun source hsource n hn _ _ _ => ?_
    obtain rfl := Option.some.inj ((textAt?_storeOf htext).symm.trans hsource)
    rw [show parse dayText = dayRange from parseOnly_self _ _, isSoleRange_dayRange.ofKind_range,
      List.mem_singleton] at hn
    rwa [hn]
  · have hrules : (({} : Config).activeRules Rule.registry).value = [.wholePeriod .warning] := rfl
    rw [checkedFiles_storeOf, hrun, hrules, List.flatMap_singleton, hleft]
    decide +kernel

/-- A record of a range whose receiver has a line end in it takes two lines. -/
theorem broken_record_takes_two_lines :
    let parse := parseOnly brokenText brokenRange
    let fs := storeOf (encode brokenText.toList)
    let request : CheckRequest := { paths := [pathTo "r.rb"] }
    let o := (run parse Rule.registry fs request (pure [])).value
    let left := remaining parse [.wholePeriod .warning] o.store (pathTo "r.rb")
    (∀ p ∈ checkedFiles fs request (pure []),
        isReadable fs p = true ∧ '\n' ∉ p.toString.toList) ∧
      left.length = 1 ∧
      o.printed = "r.rb:1:0: DTR001 Use `f(\n1).all_day` instead.\n" ∧
      (lines o.printed.toList).length = 3 ∧
      lines o.printed.toList ≠
        left.map (fun d => (reportLine (pathTo "r.rb") d).toList) ++ [[]] := by
  intro parse fs request o left
  have htext : '\r' ∉ brokenText.toList := by decide
  obtain ⟨hrun, hleft⟩ := run_storeOf isSoleRange_brokenRange htext
  have hprinted : o.printed = "r.rb:1:0: DTR001 Use `f(\n1).all_day` instead.\n" := by
    rw [show o = _ from hrun]
    decide +kernel
  have hlength : left.length = 1 := by
    rw [show left = _ from (congrArg (remaining _ _ ·.store _) hrun).trans hleft]
    rfl
  have hlines : (lines o.printed.toList).length = 3 := by
    rw [hprinted]
    decide
  refine ⟨checked_storeOf htext, hlength, hprinted, hlines, fun heq => ?_⟩
  rw [heq, List.length_append, List.length_map, hlength] at hlines
  cases hlines

end Check

end PeriodLint
