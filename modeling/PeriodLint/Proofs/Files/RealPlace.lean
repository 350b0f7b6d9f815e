import Mathlib.Data.List.Basic
import PeriodLint.Proofs.Files.Shape
import PeriodLint.Proofs.Results

/-!
# Real places

A path leads somewhere when its way ends, however many links are on it, and the
place where it ends is then the real place of the path. So a path without a real
place leads nowhere. Among paths that have one, the files of a list are told
apart by it.
-/

namespace PeriodLint

namespace FileStore

/-! ## Ways -/

/-- The way of some parts from a directory to a place, with the number of links on it. The way of a
link is that of its target. -/
inductive Leads (fs : FileStore) : Nat → Place → List String → Place → Prop where
  | here {here : Place} : Leads fs 0 here [] here
  | up {n : Nat} {here place : Place} {rest : List String}
      (hhere : fs.entryAt? here = some .directory) (hrest : Leads fs n here.dropLast rest place) :
      Leads fs n here (".." :: rest) place
  | down {n : Nat} {here place : Place} {part : String} {rest : List String} {e : Entry}
      (hhere : fs.entryAt? here = some .directory) (hpart : part ≠ "..")
      (hentry : fs.entryAt? (here ++ [part]) = some e) (hnolink : ∀ target, e ≠ .link target)
      (hrest : Leads fs n (here ++ [part]) rest place) : Leads fs n here (part :: rest) place
  | link {n m : Nat} {here middle place : Place} {part : String} {rest : List String}
      {target : Path} (hhere : fs.entryAt? here = some .directory) (hpart : part ≠ "..")
      (hlink : fs.entryAt? (here ++ [part]) = some (.link target))
      (htarget : Leads fs n (targetBase here target) target.parts middle)
      (hrest : Leads fs m middle rest place) : Leads fs (n + m + 1) here (part :: rest) place

section Leads

variable {fs : FileStore} {n n' links : Nat} {here place place' : Place} {parts rest : List String}
  {part : String}

/-- A place is reached over one way only. -/
theorem Leads.unique (h : fs.Leads n here parts place) (h' : fs.Leads n' here parts place') :
    n = n' ∧ place = place' := by
  induction h generalizing n' place' with
  | here =>
      cases h'
      exact ⟨rfl, rfl⟩
  | up _ _ ih =>
      cases h' with
      | up _ hrest => exact ih hrest
      | down _ hpart => exact absurd rfl hpart
      | link _ hpart => exact absurd rfl hpart
  | down _ hpart hentry hnolink _ ih =>
      cases h' with
      | up => exact absurd rfl hpart
      | down _ _ _ _ hrest => exact ih hrest
      | link _ _ hlink => exact absurd (Option.some.inj (hentry.symm.trans hlink)) (hnolink _)
  | link _ hpart hlink _ _ ihtarget ihrest =>
      cases h' with
      | up => exact absurd rfl hpart
      | down _ _ hentry hnolink =>
          exact absurd (Option.some.inj (hentry.symm.trans hlink)) (hnolink _)
      | link _ _ hlink' htarget hrest =>
          obtain rfl := Entry.link.inj (Option.some.inj (hlink.symm.trans hlink'))
          obtain ⟨rfl, rfl⟩ := ihtarget htarget
          obtain ⟨rfl, rfl⟩ := ihrest hrest
          exact ⟨rfl, rfl⟩

/-- The way of some parts and further ones goes over the place of the former. -/
theorem Leads.of_append (h : fs.Leads n here (parts ++ rest) place) :
    ∃ k m middle, n = k + m ∧ fs.Leads k here parts middle ∧ fs.Leads m middle rest place := by
  induction parts generalizing n here with
  | nil => exact ⟨0, n, here, (Nat.zero_add n).symm, .here, h⟩
  | cons part parts ih =>
      rw [List.cons_append] at h
      cases h with
      | up hhere hrest =>
          obtain ⟨k, m, middle, hn, hleft, hright⟩ := ih hrest
          exact ⟨k, m, middle, hn, .up hhere hleft, hright⟩
      | down hhere hpart hentry hnolink hrest =>
          obtain ⟨k, m, middle, hn, hleft, hright⟩ := ih hrest
          exact ⟨k, m, middle, hn, .down hhere hpart hentry hnolink hleft, hright⟩
      | @link l _ _ _ _ _ _ _ hhere hpart hlink htarget hrest =>
          obtain ⟨k, m, middle, rfl, hleft, hright⟩ := ih hrest
          exact ⟨l + k + 1, m, middle, by omega, .link hhere hpart hlink htarget hleft, hright⟩

/-- Following some links at most, parts lead to where their way ends. -/
theorem exists_leads_of_follow (h : fs.follow links here parts = .ok place) :
    ∃ n, fs.Leads n here parts place := by
  fun_induction follow fs links here parts with
  | case1 =>
      obtain rfl := Except.ok.inj h
      exact ⟨0, .here⟩
  | case2 links here rest hhere ih =>
      obtain ⟨n, hrest⟩ := ih h
      exact ⟨n, .up hhere hrest⟩
  | case3 => cases h
  | case4 => cases h
  | case5 here part rest hhere hpart target hlink links ih =>
      obtain ⟨n, hway⟩ := ih h
      obtain ⟨k, m, middle, rfl, htarget, hrest⟩ := hway.of_append
      exact ⟨k + m + 1, .link hhere hpart hlink htarget hrest⟩
  | case6 links here part rest hhere hpart e hnolink hentry ih =>
      obtain ⟨n, hrest⟩ := ih h
      exact ⟨n, .down hhere hpart hentry hnolink hrest⟩
  | case7 => cases h

/-! ## The end of a way -/

/-- The links that are being followed have targets with no fewer links on their ways. -/
def AreLonger (fs : FileStore) (n : Nat) (active : List Place) : Prop :=
  ∀ here part target k middle, here ++ [part] ∈ active →
    fs.entryAt? (here ++ [part]) = some (.link target) →
      fs.Leads k (targetBase here target) target.parts middle → n ≤ k

theorem AreLonger.mono {m : Nat} {active : List Place} (h : fs.AreLonger n active) (hle : m ≤ n) :
    fs.AreLonger m active :=
  fun here part target k middle hmem hlink htarget =>
    Nat.le_trans hle (h here part target k middle hmem hlink htarget)

/-- A link may be followed while others are whose targets have longer ways. -/
theorem AreLonger.cons {target : Path} {middle : Place} {active : List Place}
    (h : fs.AreLonger n active) (hlink : fs.entryAt? (here ++ [part]) = some (.link target))
    (htarget : fs.Leads n (targetBase here target) target.parts middle) :
    fs.AreLonger n ((here ++ [part]) :: active) := by
  intro here' part' target' k middle' hmem hlink' htarget'
  rcases List.mem_cons.mp hmem with heq | hmem
  · obtain ⟨rfl, hpart⟩ := List.append_inj' heq rfl
    obtain rfl := List.singleton_inj.mp hpart
    obtain rfl := Entry.link.inj (Option.some.inj (hlink.symm.trans hlink'))
    exact Nat.le_of_eq (htarget.unique htarget').1
  · exact h here' part' target' k middle' hmem hlink' htarget'

/-- A way does not come back to a link on it, since what is left of the way grows shorter. -/
theorem Leads.settle_eq {active : List Place} (h : fs.Leads n here parts place)
    (hactive : fs.AreLonger n active) : fs.settle active here parts = .ok place := by
  induction h generalizing active with
  | here => exact settle_nil
  | up _ _ ih =>
      rw [settle_up]
      exact ih hactive
  | @down _ _ _ _ _ e _ hpart hentry hnolink _ ih =>
      rw [settle_cons hpart, hentry]
      cases e with
      | link target => exact absurd rfl (hnolink target)
      | _ => exact ih hactive
  | @link n m here middle _ part _ target _ hpart hlink htarget _ ihtarget ihrest =>
      have hnot : here ++ [part] ∉ active := by
        intro hmem
        have hle := hactive here part target n middle hmem hlink htarget
        omega
      have htargetActive := (hactive.mono (by omega : n ≤ n + m + 1)).cons hlink htarget
      have hrestActive := hactive.mono (by omega : m ≤ n + m + 1)
      rw [settle_cons hpart, hlink]
      simp only [if_neg hnot, ihtarget htargetActive, ihrest hrestActive]

/-- The real place of a path is where it leads, however many links are on its way. -/
theorem resolve_of_leads {p : Path} (h : fs.Leads n (fs.base p) p.parts place) :
    fs.resolve p = .ok place := by
  rw [resolve, h.settle_eq fun _ _ _ _ _ hmem => absurd hmem List.not_mem_nil]

theorem resolve_of_locate {p : Path} (h : fs.locate p = .ok place) : fs.resolve p = .ok place := by
  obtain ⟨n, hway⟩ := exists_leads_of_follow h
  exact resolve_of_leads hway

end Leads

theorem resolve_of_nothing_at {fs : FileStore} {name : String} (hcwd : fs.cwd = [])
    (hname : name ≠ "..") (hnull : Path.hasNull name = false) (h : fs.entryAt? [name] = none)
    (root : String) : fs.resolve ⟨root, [name]⟩ = .ok [name] := by
  rw [resolve, base_eq_nil hcwd, settle_cons hname, List.nil_append, h]
  simp [hnull]

/-! ## Files of a list -/

/-- Paths stand beside their real places. -/
def ArePlaced (fs : FileStore) (placed : List (Path × Place)) : Prop :=
  ∀ e ∈ placed, fs.resolve e.1 = .ok e.2

section Placed

variable {fs : FileStore} {seen : List Place} {placed : List (Path × Place)} {ps : List Path}
  {p : Path} {place : Place}

theorem ArePlaced.of_cons (h : fs.ArePlaced ((p, place) :: placed)) :
    fs.resolve p = .ok place ∧ fs.ArePlaced placed :=
  List.forall_mem_cons.mp h

theorem withPlace_eq_ok_iff {e : Path × Place} :
    fs.withPlace p = .ok e ↔ e.1 = p ∧ fs.resolve p = .ok e.2 := by
  rw [withPlace]
  cases fs.resolve p with
  | error err => simp [bind, Except.bind]
  | ok place => simp [bind, Except.bind, pure, Except.pure, Prod.ext_iff, eq_comm]

theorem withPlace_eq_error_iff {err : PathError} :
    fs.withPlace p = .error err ↔ fs.resolve p = .error err := by
  rw [withPlace]
  cases fs.resolve p with
  | error err' => simp [bind, Except.bind]
  | ok place => simp [bind, Except.bind, pure, Except.pure]

theorem mapM_withPlace_eq_ok_iff :
    ps.mapM fs.withPlace = .ok placed ↔ placed.map (·.1) = ps ∧ fs.ArePlaced placed := by
  constructor
  · intro h
    induction ps generalizing placed with
    | nil =>
        obtain rfl := Except.ok.inj h
        exact ⟨rfl, List.forall_mem_nil _⟩
    | cons p ps ih =>
        obtain ⟨e, rest, hp, hps, rfl⟩ := exists_cons_of_mapM_eq_ok h
        obtain ⟨rfl, hplace⟩ := withPlace_eq_ok_iff.mp hp
        obtain ⟨rfl, hrest⟩ := ih hps
        exact ⟨rfl, List.forall_mem_cons.mpr ⟨hplace, hrest⟩⟩
  · rintro ⟨rfl, hplaced⟩
    have hall : ∀ e ∈ placed, (fs.withPlace ∘ (·.1)) e = .ok (id e) :=
      fun e he => withPlace_eq_ok_iff.mpr ⟨rfl, hplaced e he⟩
    rw [List.mapM_map, mapM_eq_ok hall, List.map_id]

theorem resolveFiles_eq_ok_iff {changed paths files : List Path} :
    fs.resolveFiles changed paths = .ok files ↔
      ∃ placed, placed.map (·.1) = fs.candidates changed paths ∧ fs.ArePlaced placed ∧
        files = distinct [] placed := by
  simp only [← and_assoc, ← mapM_withPlace_eq_ok_iff]
  rw [resolveFiles]
  cases (fs.candidates changed paths).mapM fs.withPlace with
  | error e => simp [bind, Except.bind]
  | ok placed => simp [bind, Except.bind, pure, Except.pure, eq_comm]

/-- The files of paths are told exactly if each of them has a real place. -/
theorem exists_resolveFiles_iff {changed paths : List Path} :
    (∃ files, fs.resolveFiles changed paths = .ok files) ↔
      ∀ p ∈ fs.candidates changed paths, ∃ place, fs.resolve p = .ok place := by
  rw [resolveFiles, exists_bind_eq_ok_iff]
  constructor
  · rintro ⟨placed, hplaced, -⟩ p hp
    obtain ⟨e, he⟩ := exists_eq_ok_of_mapM_eq_ok hplaced p hp
    exact ⟨e.2, (withPlace_eq_ok_iff.mp he).2⟩
  · intro h
    obtain ⟨placed, hplaced⟩ := exists_mapM_eq_ok (f := fs.withPlace) fun p hp => by
      obtain ⟨place, hplace⟩ := h p hp
      exact ⟨(p, place), withPlace_eq_ok_iff.mpr ⟨rfl, hplace⟩⟩
    exact ⟨placed, hplaced, _, rfl⟩

/-- What paths stand for that are no directories are these paths. -/
theorem candidates_eq_self (h : ∀ p ∈ ps, fs.isDirectory p = false) :
    fs.candidates [] ps = ps := by
  have hexpand : ∀ p ∈ ps, fs.expand p = [p] := by
    intro p hp
    rw [expand, h p hp]
    rfl
  rw [candidates, List.nil_append, List.flatMap_congr hexpand]
  exact List.flatMap_singleton' ps

theorem resolveFiles_singleton (hp : fs.isDirectory p = false) (h : fs.resolve p = .ok place) :
    fs.resolveFiles [] [p] = .ok [p] :=
  resolveFiles_eq_ok_iff.mpr ⟨[(p, place)],
    (candidates_eq_self (List.forall_mem_singleton.mpr hp)).symm,
    List.forall_mem_singleton.mpr h, rfl⟩

theorem isDirectory_of_read {bytes : Bytes} (h : fs.read p = .ok bytes) :
    fs.isDirectory p = false := by
  obtain ⟨place, hplace, hentry⟩ := exists_locate_of_read h
  rw [isDirectory, find?, hplace]
  simp only [hentry]

/-- A path at which a file is read stands for this file. -/
theorem resolveFiles_of_read {bytes : Bytes} (h : fs.read p = .ok bytes) :
    fs.resolveFiles [] [p] = .ok [p] := by
  obtain ⟨place, hplace, -⟩ := exists_locate_of_read h
  exact resolveFiles_singleton (isDirectory_of_read h) (resolve_of_locate hplace)

theorem exists_of_resolveFiles_eq_error {changed paths : List Path} {e : PathError}
    (h : fs.resolveFiles changed paths = .error e) :
    ∃ before p after, fs.candidates changed paths = before ++ p :: after ∧
      (∀ q ∈ before, ∃ place, fs.resolve q = .ok place) ∧ fs.resolve p = .error e := by
  rw [resolveFiles] at h
  cases hplaced : (fs.candidates changed paths).mapM fs.withPlace with
  | ok placed =>
      rw [hplaced] at h
      cases h
  | error e' =>
      rw [hplaced] at h
      obtain rfl := Except.error.inj h
      obtain ⟨before, p, after, hsplit, hbefore, hp⟩ := exists_of_mapM_eq_error hplaced
      refine ⟨before, p, after, hsplit, fun q hq => ?_, withPlace_eq_error_iff.mp hp⟩
      obtain ⟨e, he⟩ := hbefore q hq
      exact ⟨e.2, (withPlace_eq_ok_iff.mp he).2⟩

theorem distinct_sublist (seen : List Place) (placed : List (Path × Place)) :
    (distinct seen placed).Sublist (placed.map (·.1)) := by
  induction placed generalizing seen with
  | nil => exact List.Sublist.refl []
  | cons e placed ih =>
      obtain ⟨q, place⟩ := e
      rw [distinct, List.map_cons]
      split
      · exact (ih seen).cons q
      · exact (ih _).cons_cons q

/-- What is kept of a list has no place that was seen. -/
theorem ArePlaced.resolve_ne (h : fs.ArePlaced placed) (hp : p ∈ distinct seen placed)
    (hplace : place ∈ seen) : fs.resolve p ≠ .ok place := by
  induction placed generalizing seen with
  | nil => cases hp
  | cons e placed ih =>
      obtain ⟨q, other⟩ := e
      obtain ⟨hq, hplaced⟩ := h.of_cons
      rw [distinct] at hp
      split at hp
      · exact ih hplaced hp hplace
      · next hother =>
          rcases List.mem_cons.mp hp with rfl | hp
          · intro heq
            obtain rfl := Except.ok.inj (hq.symm.trans heq)
            exact hother (List.contains_iff_mem.mpr hplace)
          · exact ih hplaced hp (List.mem_cons_of_mem other hplace)

theorem ArePlaced.pairwise_distinct (h : fs.ArePlaced placed) (seen : List Place) :
    (distinct seen placed).Pairwise fun p q => fs.resolve p ≠ fs.resolve q := by
  induction placed generalizing seen with
  | nil => exact List.Pairwise.nil
  | cons e placed ih =>
      obtain ⟨q, place⟩ := e
      obtain ⟨hq, hplaced⟩ := h.of_cons
      rw [distinct]
      split
      · exact ih hplaced seen
      · refine List.pairwise_cons.mpr ⟨fun p hp => ?_, ih hplaced _⟩
        rw [hq]
        exact (hplaced.resolve_ne hp List.mem_cons_self).symm

/-- No two of the files of paths have the same real place. -/
theorem pairwise_resolve_resolveFiles {changed paths files : List Path}
    (h : fs.resolveFiles changed paths = .ok files) :
    files.Pairwise fun p q => fs.resolve p ≠ fs.resolve q := by
  obtain ⟨placed, -, hplaced, rfl⟩ := resolveFiles_eq_ok_iff.mp h
  exact hplaced.pairwise_distinct []

theorem mem_candidates_of_mem_resolveFiles {changed paths files : List Path}
    (h : fs.resolveFiles changed paths = .ok files) (hp : p ∈ files) :
    p ∈ fs.candidates changed paths := by
  obtain ⟨placed, hcandidates, -, rfl⟩ := resolveFiles_eq_ok_iff.mp h
  exact hcandidates ▸ (distinct_sublist [] placed).subset hp

end Placed

end FileStore

end PeriodLint
