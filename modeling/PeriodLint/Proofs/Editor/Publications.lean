import PeriodLint.Editor.Session
import PeriodLint.Proofs.Edit.AnyTree
import PeriodLint.Proofs.Edit.Pass
import Mathlib.Data.List.Induction

/-!
# Publications of a session

A session answers every step from the current text of its document alone. So
what was last published for an open document is the analysis of its text,
nothing is left of a closed one, and a request is answered by fixes for what
was last published. Steps about other documents make no difference.
-/

namespace PeriodLint.Editor

open Text

/-! ## What an editor has told -/

/-- The document that a step is about. -/
def Step.uri : Step → String
  | .open uri _ => uri
  | .change uri _ => uri
  | .close uri => uri
  | .codeAction uri _ => uri

/-- Whether a step tells what became of its document. A request does not. -/
def Step.tells : Step → Bool
  | .codeAction _ _ => false
  | _ => true

/-- The text that a step gives to its document. -/
def Step.text? : Step → Option String
  | .open _ text => some text
  | .change _ text => some text
  | _ => none

theorem Step.text?_eq_none {step : Step} (h : step.tells = false) : step.text? = none := by
  cases step with
  | codeAction => rfl
  | «open» | change | close => cases h

/-- What was told last of a document. -/
def lastTold? (uri : String) (steps : List Step) : Option Step :=
  (steps.filter fun step => step.tells && step.uri == uri).getLast?

/-- The current text of a document that is open. A document is open if it was last opened or
changed. -/
def openText? (uri : String) (steps : List Step) : Option String :=
  (lastTold? uri steps).bind Step.text?

/-- A document was last closed. -/
def IsClosed (uri : String) (steps : List Step) : Prop := lastTold? uri steps = some (.close uri)

/-- What was last published for a document. -/
def lastPublished? (uri : String) (answers : List Answer) : Option (List Notice) :=
  ((answers.flatMap (·.published)).filter (·.uri == uri)).getLast?.map (·.notices)

theorem lastTold?_append (uri : String) (steps more : List Step) :
    lastTold? uri (steps ++ more) = (lastTold? uri more).or (lastTold? uri steps) := by
  rw [lastTold?, List.filter_append, List.getLast?_append]
  rfl

theorem lastTold?_append_singleton (uri : String) (steps : List Step) (step : Step) :
    lastTold? uri (steps ++ [step]) =
      if step.tells && step.uri == uri then some step else lastTold? uri steps := by
  rw [lastTold?_append, lastTold?, List.filter_singleton]
  cases step.tells && step.uri == uri <;> rfl

theorem openText?_append_singleton (uri : String) (steps : List Step) (step : Step) :
    openText? uri (steps ++ [step]) =
      if step.tells && step.uri == uri then step.text? else openText? uri steps := by
  rw [openText?, lastTold?_append_singleton]
  split <;> rfl

theorem lastPublished?_append (uri : String) (answers more : List Answer) :
    lastPublished? uri (answers ++ more) =
      (lastPublished? uri more).or (lastPublished? uri answers) := by
  rw [lastPublished?, List.flatMap_append, List.filter_append, List.getLast?_append, Option.map_or]
  rfl

/-! ## Texts of the workspace -/

namespace Workspace

theorem text_setText (w : Workspace) (uri text other : String) :
    (w.setText uri text).text other = if uri = other then text else w.text other := by
  rw [Workspace.text, Workspace.text, setText, lookup_filter_bne_append]
  split <;> rfl

/-- A step changes the text of its own document at most, and to the text that it gives. -/
theorem text_after (w : Workspace) (step : Step) (uri : String) :
    (w.after step).text uri =
      if step.uri = uri then step.text?.getD (w.text uri) else w.text uri := by
  cases step with
  | «open» other text => exact text_setText w other text uri
  | change other text => exact text_setText w other text uri
  | close other => exact (ite_self _).symm
  | codeAction other requested => exact (ite_self _).symm

/-- The workspace holds the current text of every open document. -/
theorem text_of_openText? {uri text : String} {steps : List Step}
    (h : openText? uri steps = some text) (w : Workspace) :
    (steps.foldl Workspace.after w).text uri = text := by
  -- The last step decides, or else it leaves both the text and whether the document is open.
  induction steps using List.reverseRecOn with
  | nil => cases h
  | append_singleton steps step ih =>
      rw [openText?_append_singleton] at h
      rw [List.foldl_append, List.foldl_cons, List.foldl_nil, text_after]
      by_cases huri : step.uri = uri
      · rw [if_pos huri]
        cases htells : step.tells with
        | true =>
            rw [htells, huri, beq_self_eq_true, Bool.and_self, if_pos rfl] at h
            rw [h, Option.getD_some]
        | false =>
            rw [htells, Bool.false_and, if_neg Bool.false_ne_true] at h
            rw [Step.text?_eq_none htells, Option.getD_none, ih h]
      · rw [beq_eq_false_iff_ne.mpr huri, Bool.and_false, if_neg Bool.false_ne_true] at h
        rw [if_neg huri, ih h]

end Workspace

/-! ## The answer to a step -/

/-- The lines of two stretches meet: neither stretch begins on a line behind the other. -/
def Range.LinesMeet (a b : Range) : Prop :=
  a.start.line ≤ b.stop.line ∧ b.start.line ≤ a.stop.line

instance (a b : Range) : Decidable (a.LinesMeet b) := inferInstanceAs (Decidable (_ ∧ _))

/-- The quick fix for a diagnostic that is published as a notice, which is the preferred one. -/
def quickFix (uri : String) (notice : Notice) (fix : String) : Action where
  title := "Replace with `" ++ fix ++ "`"
  kind := quickFixKind
  isPreferred := true
  uri := uri
  notice := notice
  edit := ⟨notice.range, fix⟩

/-- The quick fixes for a stretch, one for each fix whose notice meets it. -/
def quickFixes (uri : String) (requested : Range) (ds : List Diagnostic) (notices : List Notice) :
    List Action :=
  (ds.zip notices).filterMap fun (d, notice) =>
    if notice.range.LinesMeet requested then d.fix.map (quickFix uri notice) else none

/-- The notices for the diagnostics of a text. -/
def noticesOf (text : String) (ds : List Diagnostic) : Except NoSuchLine (List Notice) :=
  ds.mapM (noticeOf (lines text.toList))

/-- The answer to a step about a document with some diagnostics and their notices. -/
def reply (ds : List Diagnostic) (notices : List Notice) : Step → Answer
  | .open uri _ => { published := [⟨uri, notices⟩] }
  | .change uri _ => { published := [⟨uri, notices⟩] }
  | .close uri => { published := [⟨uri, []⟩] }
  | .codeAction uri requested => { actions := some (quickFixes uri requested ds notices) }

section Answer

variable {ls : List (List Char)} {d : Diagnostic} {notice : Notice}

theorem rangeOf_of_noticeOf (h : noticeOf ls d = .ok notice) :
    rangeOf ls d.span = .ok notice.range := by
  cases hrange : rangeOf ls d.span with
  | error e =>
      rw [noticeOf, hrange] at h
      cases h
  | ok range =>
      rw [noticeOf, hrange] at h
      obtain rfl := Except.ok.inj h
      rfl

theorem actionOf_eq_quickFix (h : noticeOf ls d = .ok notice) (uri fix : String) :
    actionOf uri ls d fix = .ok (quickFix uri notice fix) := by
  rw [actionOf, h, rangeOf_of_noticeOf h]
  rfl

theorem line_of_position {line col : Int} {p : Position} (h : position ls line col = .ok p) :
    p.line = line - 1 := by
  rw [position] at h
  split at h
  · obtain rfl := Except.ok.inj h
    rfl
  · cases h

/-- A request meets a diagnostic as it meets its notice. -/
theorem meets_iff_linesMeet (h : noticeOf ls d = .ok notice) (requested : Range) :
    meets d.span requested = true ↔ notice.range.LinesMeet requested := by
  have hrange := rangeOf_of_noticeOf h
  cases hstart : position ls d.span.line d.span.col with
  | error e =>
      rw [rangeOf, hstart] at hrange
      cases hrange
  | ok start =>
      cases hstop : position ls d.span.endLine d.span.endCol with
      | error e =>
          rw [rangeOf, hstart, hstop] at hrange
          cases hrange
      | ok stop =>
          rw [rangeOf, hstart, hstop] at hrange
          rw [← Except.ok.inj hrange, Range.LinesMeet, line_of_position hstart,
            line_of_position hstop, meets, Bool.and_eq_true, decide_eq_true_eq, decide_eq_true_eq]

theorem offered_cons (requested : Range) (d : Diagnostic) (ds : List Diagnostic) :
    offered requested (d :: ds) =
      (if meets d.span requested then d.fix else none).toList.map (d, ·) ++
        offered requested ds := by
  rw [offered, List.filterMap_cons]
  cases d.fix with
  | none => simp [offered]
  | some fix => cases meets d.span requested <;> rfl

theorem quickFixes_cons (uri : String) (requested : Range) (d : Diagnostic) (ds : List Diagnostic)
    (notice : Notice) (notices : List Notice) :
    quickFixes uri requested (d :: ds) (notice :: notices) =
      (if notice.range.LinesMeet requested then d.fix else none).toList.map (quickFix uri notice) ++
        quickFixes uri requested ds notices := by
  rw [quickFixes, List.zip_cons_cons, List.filterMap_cons]
  by_cases hmeet : notice.range.LinesMeet requested
  · cases hfix : d.fix <;> simp [hmeet, hfix, quickFixes]
  · simp [hmeet, quickFixes]

/-- The offered fixes are built for the notices of their diagnostics. -/
theorem mapM_offered {ds : List Diagnostic} {notices : List Notice}
    (h : ds.mapM (noticeOf ls) = .ok notices) (uri : String) (requested : Range) :
    ((offered requested ds).mapM fun (d, fix) => actionOf uri ls d fix) =
      .ok (quickFixes uri requested ds notices) := by
  induction ds generalizing notices with
  | nil => rfl
  | cons d ds ih =>
      obtain ⟨notice, rest, hnotice, hrest, rfl⟩ := exists_cons_of_mapM_eq_ok h
      rw [offered_cons, quickFixes_cons, if_congr (meets_iff_linesMeet hnotice requested) rfl rfl,
        List.mapM_append, ih hrest]
      cases if notice.range.LinesMeet requested then d.fix else none with
      | none => rfl
      | some fix =>
          rw [Option.toList_some, List.map_singleton, List.map_singleton, List.mapM_cons]
          simp only [actionOf_eq_quickFix hnotice]
          rfl

end Answer

/-! ## Steps and sessions -/

section Session

variable {parse : Parser} {rules : List Rule} {w : Workspace} {steps : List Step} {step : Step}
  {answers : List Answer} {a : Answer}

/-- The analysis of a text reports on lines of the text. -/
def ReportsOnLines (parse : Parser) (rules : List Rule) : Prop :=
  ∀ source, ∀ d ∈ (analyze parse rules source).value, d.span.HasLines source.toList

theorem ReportsOnLines.exists_noticesOf (h : ReportsOnLines parse rules) (text : String) :
    ∃ notices, noticesOf text (analyze parse rules text).value = .ok notices := by
  refine exists_mapM_eq_ok fun d hd => ?_
  obtain ⟨range, hrange⟩ := (h text d hd).exists_range
  rw [noticeOf, hrange]
  exact ⟨_, rfl⟩

theorem publish_eq_ok {text : String} {notices : List Notice}
    (h : noticesOf text (analyze parse rules text).value = .ok notices) (uri : String) :
    (publish parse rules uri text).value = .ok { published := [⟨uri, notices⟩] } := by
  rw [noticesOf] at h
  simp only [publish, Logged.value_bind, Logged.value_pure, h]
  rfl

theorem offer_eq_ok {text : String} {notices : List Notice}
    (h : noticesOf text (analyze parse rules text).value = .ok notices) (uri : String)
    (requested : Range) :
    (offer parse rules uri text requested).value =
      .ok { actions :=
        some (quickFixes uri requested (analyze parse rules text).value notices) } := by
  have hactions := mapM_offered h uri requested
  rw [offer, Logged.value_bind, Logged.value_pure, hactions]
  rfl

/-- The library's own rule reports on lines, whatever trees the parser delivers. -/
theorem reportsOnLines_of_isWholePeriod (hrules : ∀ rule ∈ rules, rule.IsWholePeriod)
    (parse : Parser) : ReportsOnLines parse rules := by
  intro source d hd
  obtain ⟨severity, n, -, text, -, rfl⟩ := exists_node_of_mem_analyze hrules hd
  exact n.hasLines_span source.toList

/-- Every step is answered, from the current text of its document. -/
theorem ReportsOnLines.exists_reply (h : ReportsOnLines parse rules) (w : Workspace)
    (step : Step) :
    ∃ notices, noticesOf (w.text step.uri) (analyze parse rules (w.text step.uri)).value =
        .ok notices ∧
      (answer parse rules w step).value =
        .ok (reply (analyze parse rules (w.text step.uri)).value notices step) := by
  obtain ⟨notices, hnotices⟩ := h.exists_noticesOf (w.text step.uri)
  refine ⟨notices, hnotices, ?_⟩
  cases step with
  | «open» uri text | change uri text => exact publish_eq_ok hnotices uri
  | close uri => rfl
  | codeAction uri requested => exact offer_eq_ok hnotices uri requested

/-- The answers of a session, which has no failures. -/
def Answered (parse : Parser) (rules : List Rule) (w : Workspace) (steps : List Step)
    (answers : List Answer) : Prop :=
  (session parse rules w steps).map (·.value) = answers.map .ok

theorem session_append (w : Workspace) (steps more : List Step) :
    session parse rules w (steps ++ more) =
      session parse rules w steps ++ session parse rules (steps.foldl Workspace.after w) more := by
  induction steps generalizing w with
  | nil => rfl
  | cons step steps ih =>
      rw [List.cons_append, session, session, ih, List.cons_append, List.foldl_cons]

theorem session_take (w : Workspace) (steps : List Step) (n : Nat) :
    session parse rules w (steps.take n) = (session parse rules w steps).take n := by
  induction steps generalizing w n with
  | nil => rw [List.take_nil, session, List.take_nil]
  | cons step steps ih =>
      cases n with
      | zero => rfl
      | succ n => rw [List.take_succ_cons, session, session, List.take_succ_cons, ih]

theorem ReportsOnLines.exists_answered (h : ReportsOnLines parse rules) (w : Workspace)
    (steps : List Step) : ∃ answers, Answered parse rules w steps answers := by
  induction steps generalizing w with
  | nil => exact ⟨[], rfl⟩
  | cons step steps ih =>
      obtain ⟨answers, hanswers⟩ := ih (w.after step)
      obtain ⟨notices, -, hreply⟩ := h.exists_reply (w.after step) step
      refine ⟨reply (analyze parse rules ((w.after step).text step.uri)).value notices step ::
        answers, ?_⟩
      rw [Answered, session, List.map_cons, List.map_cons, hreply, hanswers]

theorem Answered.take (h : Answered parse rules w steps answers) (n : Nat) :
    Answered parse rules w (steps.take n) (answers.take n) := by
  rw [Answered, session_take, List.map_take, h, List.map_take]

/-- A session up to one of its steps. -/
theorem Answered.upTo {n : Nat} (h : Answered parse rules w steps answers)
    (hstep : steps[n]? = some step) (ha : answers[n]? = some a) :
    Answered parse rules w (steps.take n ++ [step]) (answers.take n ++ [a]) := by
  have hupTo := h.take (n + 1)
  rwa [List.take_add_one, List.take_add_one, hstep, ha] at hupTo

/-- The last answer of a session is given in the workspace after all steps. -/
theorem Answered.exists_last (h : Answered parse rules w (steps ++ [step]) answers) :
    ∃ former a, answers = former ++ [a] ∧ Answered parse rules w steps former ∧
      (answer parse rules ((steps ++ [step]).foldl Workspace.after w) step).value = .ok a := by
  rw [Answered, session_append, List.map_append, eq_comm, List.map_eq_append_iff] at h
  obtain ⟨former, last, rfl, hformer, hlast⟩ := h
  rw [session, session, List.map_singleton, List.map_eq_singleton_iff] at hlast
  obtain ⟨a, rfl, ha⟩ := hlast
  rw [List.foldl_append]
  exact ⟨former, a, rfl, hformer.symm, ha.symm⟩

/-! ### What is published -/

/-- Every open document is published as its text is analysed, and nothing is published of a closed
one. -/
def IsCurrent (parse : Parser) (rules : List Rule) (steps : List Step) (answers : List Answer) :
    Prop :=
  ∀ uri,
    (∀ text, openText? uri steps = some text →
      ∃ notices, lastPublished? uri answers = some notices ∧
        noticesOf text (analyze parse rules text).value = .ok notices) ∧
      (IsClosed uri steps → lastPublished? uri answers = some [])

theorem uri_of_mem_reply {ds : List Diagnostic} {notices : List Notice} {p : Publication}
    (h : p ∈ (reply ds notices step).published) : p.uri = step.uri := by
  cases step with
  | «open» | change | close => exact congrArg Publication.uri (List.mem_singleton.mp h)
  | codeAction => cases h

/-- A step leaves what was published for other documents. -/
theorem lastPublished?_append_reply_of_ne {uri : String} (h : step.uri ≠ uri)
    (ds : List Diagnostic) (notices : List Notice) (answers : List Answer) :
    lastPublished? uri (answers ++ [reply ds notices step]) = lastPublished? uri answers := by
  have hnone : (reply ds notices step).published.filter (·.uri == uri) = [] := by
    refine List.filter_eq_nil_iff.mpr fun p hp => ?_
    rw [uri_of_mem_reply hp]
    simpa using h
  rw [lastPublished?_append, lastPublished?, List.flatMap_singleton, hnone]
  rfl

theorem lastPublished?_append_publication (uri : String) (notices : List Notice)
    (answers : List Answer) :
    lastPublished? uri (answers ++ [{ published := [⟨uri, notices⟩] }]) = some notices := by
  rw [lastPublished?_append]
  simp [lastPublished?]

/-- Each step keeps the publications current. -/
theorem IsCurrent.append_reply {text : String} {notices : List Notice}
    (h : IsCurrent parse rules steps answers) (htext : ∀ given ∈ step.text?, text = given)
    (hnotices : noticesOf text (analyze parse rules text).value = .ok notices) :
    IsCurrent parse rules (steps ++ [step])
      (answers ++ [reply (analyze parse rules text).value notices step]) := by
  intro uri
  rw [IsClosed, lastTold?_append_singleton, openText?_append_singleton]
  by_cases huri : step.uri = uri
  · subst huri
    rw [beq_self_eq_true, Bool.and_true]
    cases step with
    | «open» uri given | change uri given =>
        obtain rfl := htext given rfl
        refine ⟨fun current hcurrent => ?_, nofun⟩
        obtain rfl := Option.some.inj hcurrent
        exact ⟨notices, lastPublished?_append_publication uri notices answers, hnotices⟩
    | close uri =>
        exact ⟨nofun, fun _ => lastPublished?_append_publication uri [] answers⟩
    | codeAction uri requested =>
        rw [lastPublished?_append]
        exact h uri
  · rw [beq_eq_false_iff_ne.mpr huri, Bool.and_false, if_neg Bool.false_ne_true,
      if_neg Bool.false_ne_true, lastPublished?_append_reply_of_ne huri]
    exact h uri

/-- So the publications of a session are current. -/
theorem Answered.isCurrent (hlines : ReportsOnLines parse rules)
    (h : Answered parse rules w steps answers) : IsCurrent parse rules steps answers := by
  induction steps using List.reverseRecOn generalizing answers with
  | nil => exact fun uri => ⟨nofun, nofun⟩
  | append_singleton steps step ih =>
      obtain ⟨former, a, rfl, hformer, ha⟩ := h.exists_last
      obtain ⟨notices, hnotices, hreply⟩ := hlines.exists_reply _ step
      obtain rfl := Except.ok.inj (ha.symm.trans hreply)
      refine (ih hformer).append_reply (fun given hgiven => ?_) hnotices
      rw [List.foldl_append, List.foldl_cons, List.foldl_nil, Workspace.text_after, if_pos rfl,
        hgiven, Option.getD_some]

/-- A step publishes for its own document alone. -/
theorem Answered.uri_of_mem_published (hlines : ReportsOnLines parse rules)
    (h : Answered parse rules w (steps ++ [step]) (answers ++ [a])) {p : Publication}
    (hp : p ∈ a.published) : p.uri = step.uri := by
  obtain ⟨former, last, heq, -, hlast⟩ := h.exists_last
  obtain rfl := List.head_eq_of_cons_eq (List.append_inj' heq rfl).2
  obtain ⟨notices, -, hreply⟩ := hlines.exists_reply _ step
  obtain rfl := Except.ok.inj (hlast.symm.trans hreply)
  exact uri_of_mem_reply hp

/-- A request about an open document is answered by fixes for what was last published. -/
theorem Answered.actions_eq (hlines : ReportsOnLines parse rules) {uri text : String}
    {requested : Range}
    (h : Answered parse rules w (steps ++ [.codeAction uri requested]) (answers ++ [a]))
    (htext : openText? uri steps = some text) :
    ∃ notices, lastPublished? uri answers = some notices ∧
      noticesOf text (analyze parse rules text).value = .ok notices ∧
      a.actions = some (quickFixes uri requested (analyze parse rules text).value notices) := by
  obtain ⟨former, a', heq, hformer, ha⟩ := h.exists_last
  obtain ⟨rfl, hlast⟩ := List.append_inj' heq rfl
  obtain rfl := List.head_eq_of_cons_eq hlast
  obtain ⟨notices, hpublished, hnotices⟩ := (hformer.isCurrent hlines uri).1 text htext
  have hcurrent :
      ((steps ++ [Step.codeAction uri requested]).foldl Workspace.after w).text uri = text := by
    rw [List.foldl_append]
    exact Workspace.text_of_openText? htext w
  have hoffer := offer_eq_ok hnotices uri requested
  refine ⟨notices, hpublished, hnotices, ?_⟩
  rw [answer, hcurrent, hoffer] at ha
  rw [← Except.ok.inj ha]

/-! ### Steps about other documents -/

/-- An answer depends on the text of the document alone. -/
theorem answer_congr {other : Workspace} (h : w.text step.uri = other.text step.uri) :
    answer parse rules w step = answer parse rules other step := by
  cases step with
  | close => rfl
  | «open» uri | change uri | codeAction uri =>
      rw [Step.uri] at h
      rw [answer, answer, h]

/-- The answers about one document are those of the session without the other documents. -/
theorem zip_session_filter {other : Workspace} (uri : String) (h : w.text uri = other.text uri) :
    ((steps.zip (session parse rules w steps)).filter (·.1.uri == uri)).map (·.2) =
      session parse rules other (steps.filter (·.uri == uri)) := by
  -- The workspaces go apart with every step that is left out, and still agree on this document.
  induction steps generalizing w other with
  | nil => rfl
  | cons step steps ih =>
      rw [session, List.zip_cons_cons]
      by_cases huri : step.uri = uri
      · have hafter : (w.after step).text uri = (other.after step).text uri := by
          rw [Workspace.text_after, Workspace.text_after, h]
        rw [List.filter_cons_of_pos (by simpa using huri), List.map_cons, ih hafter,
          List.filter_cons_of_pos (by simpa using huri), session,
          answer_congr (w := w.after step) (huri ▸ hafter)]
      · have hafter : (w.after step).text uri = other.text uri := by
          rw [Workspace.text_after, if_neg huri, h]
        rw [List.filter_cons_of_neg (by simpa using huri), ih hafter,
          List.filter_cons_of_neg (by simpa using huri)]

end Session

/-- In every session, after every step, the last publication for an open document is the analysis of
its current text and the last one for a closed document is empty. A step publishes for its own
document alone, and the answers about one document are those of a session with nothing else. A
request about an open document is answered by one quick fix for each fix that was last published on
the requested lines, with the notice as it was published and at its range. -/
theorem publications_stay_current {parse : Parser} {rules : List Rule}
    (hlines : ReportsOnLines parse rules) (w : Workspace) (steps : List Step) :
    ∃ answers, Answered parse rules w steps answers ∧
      (∀ n, IsCurrent parse rules (steps.take n) (answers.take n)) ∧
      (∀ (n : Nat) (step : Step) (a : Answer), steps[n]? = some step → answers[n]? = some a →
        ∀ p ∈ a.published, p.uri = step.uri) ∧
      (∀ uri, ((steps.zip (session parse rules w steps)).filter (·.1.uri == uri)).map (·.2) =
        session parse rules w (steps.filter (·.uri == uri))) ∧
      ∀ (n : Nat) (uri text : String) (requested : Range) (a : Answer),
        steps[n]? = some (.codeAction uri requested) → answers[n]? = some a →
        openText? uri (steps.take n) = some text →
        ∃ notices, lastPublished? uri (answers.take n) = some notices ∧
          noticesOf text (analyze parse rules text).value = .ok notices ∧
          a.actions = some (quickFixes uri requested (analyze parse rules text).value notices) := by
  obtain ⟨answers, hanswers⟩ := hlines.exists_answered w steps
  refine ⟨answers, hanswers, fun n => (hanswers.take n).isCurrent hlines, ?_, ?_, ?_⟩
  · intro n step a hstep ha p hp
    exact (hanswers.upTo hstep ha).uri_of_mem_published hlines hp
  · intro uri
    exact zip_session_filter uri rfl
  · intro n uri text requested a hstep ha htext
    exact (hanswers.upTo hstep ha).actions_eq hlines htext

theorem publications_stay_current_twoLineRange :
    let requested : Range := ⟨⟨1, 0⟩, ⟨1, 3⟩⟩
    let steps : List Step :=
      [.open "a" twoLineText, .open "b" twoLineText, .codeAction "a" requested, .close "b"]
    ReportsOnLines (fun _ => twoLineRange) [.wholePeriod .warning] ∧
      ∃ answers, Answered (fun _ => twoLineRange) [.wholePeriod .warning] [] steps answers ∧
        lastPublished? "b" answers = some [] ∧
        ∃ notice a, lastPublished? "a" (answers.take 2) = some [notice] ∧ answers[2]? = some a ∧
          a.actions = some [quickFix "a" notice "é.all_day"] := by
  intro requested steps
  have hlines : ReportsOnLines (fun _ => twoLineRange) [.wholePeriod .warning] :=
    reportsOnLines_of_isWholePeriod (List.forall_mem_singleton.mpr ⟨.warning, rfl⟩) _
  obtain ⟨answers, hanswers, hcurrent, -, -, hactions⟩ :=
    publications_stay_current hlines [] steps
  have hlength : answers.length = 4 := by
    have hlength := congrArg List.length hanswers
    rw [List.length_map, List.length_map] at hlength
    exact hlength.symm
  have hclosed := (hcurrent 4 "b").2 rfl
  rw [List.take_of_length_le (Nat.le_of_eq hlength)] at hclosed
  have ha : answers[2]? = some answers[2] := List.getElem?_eq_getElem (by omega)
  obtain ⟨notices, hpublished, hnotices, hfixes⟩ :=
    hactions 2 "a" twoLineText requested answers[2] rfl ha rfl
  have hreports := isSoleRange_twoLineRange.analyze_eq (fun _ => twoLineRange) .warning
  rw [hreports] at hnotices hfixes
  obtain ⟨notice, rest, hnotice, hrest, rfl⟩ := exists_cons_of_mapM_eq_ok hnotices
  obtain rfl := Except.ok.inj hrest
  have hmeets : notice.range.LinesMeet requested :=
    (meets_iff_linesMeet hnotice requested).mp (by decide +kernel)
  refine ⟨hlines, answers, hanswers, hclosed, notice, answers[2], hpublished, ha, ?_⟩
  rw [hfixes, quickFixes_cons, if_pos hmeets]
  rfl

end PeriodLint.Editor
