import PatentFilter.Proofs.Office.Lifecycle
import PatentFilter.Proofs.QuerySet.CompileOrder
import PatentFilter.Proofs.QuerySet.Table

/-!
# The log of a set-up

A set-up leaves one entry for each code that it could build, in the order of compiling, and then
either the two entries of success with their counts, or the one of failure with the fault of the
first code that could not be built. It leaves the same entries each time.
-/

namespace PatentFilter

/-- An entry as it is written to a log. -/
def LogEntry.written (e : LogEntry) : String × List (String × String) := (e.name, e.fields)

namespace Query

/-- The queries are those of the codes, one by one. -/
def BuiltFrom (codes : List Code) (qs : List Query) : Prop :=
  List.Forall₂ (fun c q => ofCode c = .ok q) codes qs

theorem scheme_of_built {c : Code} {q : Query} (h : ofCode c = .ok q) : q.scheme = c.scheme := by
  obtain ⟨_, rfl⟩ := ofCode_eq_ok_iff.mp h
  rfl

theorem exists_builtFrom {codes : List Code} (h : ∀ c ∈ codes, ∃ q, ofCode c = .ok q) :
    ∃ qs, BuiltFrom codes qs := by
  refine ⟨codes.map ofSound, List.forall₂_map_right_iff.mpr (List.forall₂_same.mpr ?_)⟩
  intro c hc
  exact ofCode_eq_ok_iff.mpr ⟨exists_ofCode_eq_ok_iff.mp (h c hc), rfl⟩

theorem BuiltFrom.map_scheme {codes : List Code} {qs : List Query} (h : BuiltFrom codes qs) :
    qs.map scheme = codes.map Code.scheme := by
  induction h with
  | nil => rfl
  | cons hHead _ ih => rw [List.map_cons, List.map_cons, ih, scheme_of_built hHead]

end Query

namespace QuerySet

def builtEntries (codes : List Code) (qs : List Query) : Log :=
  List.zipWith (fun c q => .queryBuilt c.scheme q.text) codes qs

theorem map_written_builtEntries (codes : List Code) (qs : List Query) :
    (builtEntries codes qs).map LogEntry.written = List.zipWith (fun c q =>
      ("query_built", [("scheme", c.scheme.name), ("query", q.text)])) codes qs := by
  rw [builtEntries, List.map_zipWith]
  rfl

theorem build_of_builtFrom {codes : List Code} {qs : List Query} (h : Query.BuiltFrom codes qs) :
    build codes = (.ok qs, builtEntries codes qs) := by
  induction h with
  | nil => rfl
  | @cons c q cs qs hHead _ ih =>
    rw [build, hHead]
    simp only [ih, Query.scheme_of_built hHead, Except.map, builtEntries, List.zipWith_cons_cons]

/-- Nothing behind the first code without a query is tried. -/
theorem build_append_of_error {earlier : List Code} {qs : List Query}
    (h : Query.BuiltFrom earlier qs) {c : Code} {f : CodeFault} (hFault : Query.ofCode c = .error f)
    (later : List Code) :
    build (earlier ++ c :: later) = (.error f, builtEntries earlier qs) := by
  induction h with
  | nil =>
    rw [List.nil_append, build, hFault]
    rfl
  | @cons b q bs qs hHead _ ih =>
    rw [List.cons_append, build, hHead]
    simp only [ih, Query.scheme_of_built hHead, Except.map, builtEntries, List.zipWith_cons_cons]

theorem length_of_builtFrom {wanted : List Code} {qs : List Query}
    (h : Query.BuiltFrom (compileOrder wanted) qs) : qs.length = wanted.length :=
  h.length_eq.symm.trans (perm_compileOrder wanted).length_eq

theorem length_paths_of_builtFrom {wanted : List Code} {qs : List Query}
    (h : Query.BuiltFrom (compileOrder wanted) qs) (hs : (compile wanted).1 = .ok (ofQueries qs)) :
    (ofQueries qs).paths.length = 2 * (wanted.map Code.scheme).toFinset.card := by
  have hSchemes : ((compileOrder wanted).map Code.scheme).toFinset =
      (wanted.map Code.scheme).toFinset :=
    List.toFinset_eq_of_perm _ _ ((perm_compileOrder wanted).map Code.scheme)
  rw [(Reachable.compile hs).length_paths, queries_ofQueries, h.map_scheme, hSchemes]

theorem compile_of_builtFrom {wanted : List Code} {qs : List Query}
    (h : Query.BuiltFrom (compileOrder wanted) qs) :
    compile wanted = (.ok (ofQueries qs), builtEntries (compileOrder wanted) qs ++
      [.setCompiled wanted.length wanted.length
        (2 * (wanted.map Code.scheme).toFinset.card)]) := by
  have hCompile : compile wanted = (.ok (ofQueries qs), builtEntries (compileOrder wanted) qs ++
      [.setCompiled wanted.length (ofQueries qs).queries.length (ofQueries qs).paths.length]) := by
    rw [compile, build_of_builtFrom h]
  rw [hCompile, queries_ofQueries, length_of_builtFrom h,
    length_paths_of_builtFrom h (congrArg Prod.fst hCompile)]

theorem compile_of_error {wanted earlier later : List Code} {c : Code} {f : CodeFault}
    {qs : List Query} (hOrder : compileOrder wanted = earlier ++ c :: later)
    (h : Query.BuiltFrom earlier qs) (hFault : Query.ofCode c = .error f) :
    compile wanted = (.error f, builtEntries earlier qs) := by
  rw [compile, hOrder, build_append_of_error h hFault]

end QuerySet

namespace Screening

open QuerySet

theorem log_setUp_of_builtFrom {s : Screening} {qs : List Query}
    (h : Query.BuiltFrom (compileOrder s.wanted) qs) :
    s.setUp.2.2 = builtEntries (compileOrder s.wanted) qs ++
      [.setCompiled s.wanted.length s.wanted.length
        (2 * (s.wanted.map Code.scheme).toFinset.card),
        .setUp s.wanted.length s.wanted.length] := by
  rw [setUp, compile_of_builtFrom h]
  simp only [queries_ofQueries, length_of_builtFrom h, List.append_assoc, List.singleton_append]

theorem log_setUp_of_error {s : Screening} {earlier later : List Code} {c : Code} {f : CodeFault}
    {qs : List Query} (hOrder : compileOrder s.wanted = earlier ++ c :: later)
    (h : Query.BuiltFrom earlier qs) (hFault : Query.ofCode c = .error f) :
    s.setUp.2.2 = builtEntries earlier qs ++ [.setupFailed f] := by
  rw [setUp, compile_of_error hOrder h hFault]

theorem log_setUp_congr {s t : Screening} (h : s.wanted = t.wanted) :
    s.setUp.2.2 = t.setUp.2.2 := by
  rw [setUp, setUp, h]
  split <;> rfl

end Screening

namespace Office

open QuerySet

theorem log_step_setUp {o : Office} {slot : Nat} {s : Screening}
    (hs : o.screenings[slot]? = some s) :
    (o.step (.screening slot .setUp)).2.log = s.setUp.2.2 := by
  rw [step_screening_eq_observed hs, log_observed]
  rfl

/-- The log of a set-up as it is written, after any run and in any slot. It depends on the wanted
codes alone, so every set-up leaves the same one, be it the first or not. -/
theorem log_of_setUp {wanted : List Code} {cs : List Command} {slot : Nat} {s : Screening}
    (hs : ((opening wanted).run cs).1.screenings[slot]? = some s) :
    let o := ((opening wanted).run cs).1
    let log := (o.step (.screening slot .setUp)).2.log.map LogEntry.written
    let order := wanted.filter (fun c => c.scheme = .cpc) ++
      wanted.filter (fun c => c.scheme = .uspc)
    let built (codes : List Code) (qs : List Query) := List.zipWith (fun c q =>
      ("query_built", [("scheme", c.scheme.name), ("query", q.text)])) codes qs
    let count := toString wanted.length
    ((∀ c ∈ wanted, ∃ q, Query.ofCode c = .ok q) →
      ∃ qs, Query.BuiltFrom order qs ∧ log = built order qs ++
        [("pattern_set_compiled", [("wanted", count), ("queries", count),
            ("field_paths", toString (2 * (wanted.map Code.scheme).toFinset.card))]),
          ("setup_success", [("wanted", count), ("queries", count)])]) ∧
    (∀ earlier c later f, order = earlier ++ c :: later →
      (∀ b ∈ earlier, ∃ q, Query.ofCode b = .ok q) → Query.ofCode c = .error f →
      ∃ qs, Query.BuiltFrom earlier qs ∧
        log = built earlier qs ++ [("setup_failure", [("error", f.message)])]) ∧
    ((o.step (.screening slot .setUp)).1.step (.screening slot .setUp)).2.log.map
      LogEntry.written = log ∧
    ∀ (ds : List Command) (i : Nat) (t : Screening),
      ((opening wanted).run ds).1.screenings[i]? = some t →
      (((opening wanted).run ds).1.step (.screening i .setUp)).2.log.map LogEntry.written = log := by
  intro o log order built count
  obtain rfl := wanted_of_run hs
  have hLog : log = s.setUp.2.2.map LogEntry.written :=
    congrArg (List.map LogEntry.written) (log_step_setUp hs)
  refine ⟨fun hAll => ?_, fun earlier c later f hOrder hEarlier hFault => ?_, ?_,
    fun ds i t ht => ?_⟩
  · obtain ⟨qs, hqs⟩ := Query.exists_builtFrom fun c hc => hAll c (mem_compileOrder.mp hc)
    refine ⟨qs, hqs, ?_⟩
    rw [hLog, Screening.log_setUp_of_builtFrom hqs, List.map_append, map_written_builtEntries]
    rfl
  · obtain ⟨qs, hqs⟩ := Query.exists_builtFrom hEarlier
    refine ⟨qs, hqs, ?_⟩
    rw [hLog, Screening.log_setUp_of_error hOrder hqs hFault, List.map_append,
      map_written_builtEntries]
    rfl
  · rw [log_step_setUp (screening_step_self hs).1, hLog,
      Screening.log_setUp_congr s.frame_setUp.1]
  · rw [log_step_setUp ht, hLog, Screening.log_setUp_congr (wanted_of_run ht)]

/-- In a fork that is set up again: the first code of the list is the second one that is tried. -/
theorem log_of_setUp_failing :
    let wanted : List Code := [.uspc "", .cpc "H" "04" "N" "21", .uspc "705"]
    let o := ((opening wanted).run [.screening 0 .fork, .screening 1 .setUp]).1
    o.screenings[1]? = some (.ofWanted wanted) ∧
    (o.step (.screening 1 .setUp)).2.log.map LogEntry.written =
      [("query_built", [("scheme", "CPC"),
          ("query", (Query.ofSound (.cpc "H" "04" "N" "21")).text)]),
        ("setup_failure", [("error", (CodeFault.blankField (.uspc "") .mainClass).message)])] := by
  intro wanted o
  have hs : o.screenings[1]? = some (.ofWanted wanted) := by decide +kernel
  obtain ⟨_, hFailed, _⟩ := log_of_setUp hs
  have hEarlier : ∀ b ∈ [Code.cpc "H" "04" "N" "21"], ∃ q, Query.ofCode b = .ok q := by
    rw [List.forall_mem_singleton, Query.exists_ofCode_eq_ok_iff]
    decide
  obtain ⟨qs, hqs, hLog⟩ :=
    hFailed [.cpc "H" "04" "N" "21"] (.uspc "") [.uspc "705"] _ rfl hEarlier rfl
  obtain ⟨q, _, hq, hNil, rfl⟩ := List.forall₂_cons_left_iff.mp hqs
  obtain rfl := List.forall₂_nil_left_iff.mp hNil
  obtain ⟨_, rfl⟩ := Query.ofCode_eq_ok_iff.mp hq
  exact ⟨hs, hLog⟩

end Office

end PatentFilter
