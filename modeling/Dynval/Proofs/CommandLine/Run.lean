import Dynval.CommandLine.Perform
import Dynval.Proofs.Run.FailFast
import Dynval.Proofs.Suite.Check

/-!
# How a run ends

The command `run` reads its configuration, then all suites that it is asked for, and only then runs
them. It ends with the code 2 and without output if one of them cannot be read or is invalid, and
tells the first that is. Otherwise it writes its report, and its code tells whether a case failed.
-/

namespace Dynval

/-! ### What is written -/

/-- Lines are written one after another. -/
lemma linesText_append (lines more : List String) :
    linesText (lines ++ more) = linesText lines ++ linesText more := by
  simp [linesText]

/-- What is written on a case are its lines. -/
lemma CaseReport.text_eq (r : CaseReport) : r.text = linesText r.lines := by
  obtain ⟨suite, name, verdict⟩ := r
  cases verdict with
  | passed => simp [text, lines, linesText, String.append_assoc]
  | failed expected actual =>
    have hexpected : "\n  expected: " = "\n" ++ "  expected: " := rfl
    have hactual : "\n    actual: " = "\n" ++ "    actual: " := rfl
    simp only [text, lines, linesText, List.map_cons, List.map_nil, String.join_cons,
      String.join_nil, String.append_empty, String.append_assoc]
    rw [hexpected, hactual, String.append_assoc, String.append_assoc]

/-- The text of a report ends each of its lines. -/
lemma Report.text_eq (r : Report) : r.text ++ "\n" = linesText r.lines := by
  have hcases : String.join (r.cases.map CaseReport.text) =
      linesText (r.cases.flatMap CaseReport.lines) := by
    induction r.cases with
    | nil => rfl
    | cons c cases ih =>
      rw [List.map_cons, List.flatMap_cons, linesText_append, ← ih, ← CaseReport.text_eq]
      simp
  have hpassed : r.passed = r.cases.countP fun c => c.verdict = .passed := rfl
  rw [text, lines, linesText_append, linesText_append, hcases, ← failed_eq, ← hpassed]
  cases r.stoppedEarly <;> simp [linesText, String.append_assoc]

example : Report.text ⟨[⟨"s", "a", .passed⟩, ⟨"s", "b", .failed "1" "2"⟩], true⟩ =
    "PASS s::a\nFAIL s::b\n  expected: 1\n    actual: 2\nstopped after first failure\n" ++
      "1 passed, 1 failed" := by decide +kernel

/-! ### Suites -/

/-- A case that follows the rules can be run. -/
lemma Case.Valid.usable [Allocator] {c : Case} (h : c.Valid) : c.Usable := by
  refine ⟨?_, Literal.evalItems_ok_iff.2 h.args⟩
  rw [Option.isSome_iff_ne_none]
  exact mt Case.expectation?_eq_none_iff.1 h.expectation

/-- Where a suite comes from. -/
inductive SuiteSource where
  | builtin
  | file (path : String)

namespace SuiteSource

variable {host : Host} {source : SuiteSource} {suite : Suite} {e : SuiteError} {s : Store}

/-- The suite that a source holds, if it can be used. -/
inductive Gives [Allocator] (host : Host) : SuiteSource → Suite → Prop
  | builtin (h : Suite.WellFormed Suite.core.cases) : Gives host .builtin Suite.core
  | file {path text : String} {suite : Suite} (htext : host.files path = .ok text)
      (hread : host.suite? text = some suite) (h : Suite.WellFormed suite.cases) :
    Gives host (.file path) suite

/-- Why a source holds no suite that can be used. -/
inductive Fails [Allocator] (host : Host) : SuiteSource → SuiteError → Prop
  | builtin {e : SuiteError} (h : Suite.core.Refused e) : Fails host .builtin e
  | unreadable {path : String} {failure : ReadFailure} (h : host.files path = .error failure) :
    Fails host (.file path) (.unreadable path failure)
  | malformed {path text : String} (htext : host.files path = .ok text)
      (hread : host.suite? text = none) : Fails host (.file path) (.malformed path)
  | refused {path text : String} {suite : Suite} {e : SuiteError}
      (htext : host.files path = .ok text) (hread : host.suite? text = some suite)
      (h : suite.Refused e) : Fails host (.file path) e

def load [Allocator] (host : Host) : SuiteSource → Action SuiteError Suite
  | builtin => Suite.builtin
  | file path => Suite.load host.suite? host.files path

/-- Loading a source gives its suite or tells why there is none. -/
lemma load_cases [Allocator] (host : Host) (source : SuiteSource) (s : Store) :
    (∃ suite, (source.load host s).result = .ok suite ∧ source.Gives host suite) ∨
      ∃ e, (source.load host s).result = .error e ∧ source.Fails host e := by
  cases source with
  | builtin =>
    rw [load, Suite.builtin]
    rcases Suite.core.accept_cases "builtin suite" s with ⟨hok, hwell⟩ | ⟨e, herror, hrefused⟩
    · exact Or.inl ⟨_, hok, .builtin hwell⟩
    · exact Or.inr ⟨e, herror, .builtin hrefused⟩
  | file path =>
    rw [load, Suite.load]
    cases htext : host.files path with
    | error failure => exact Or.inr ⟨_, rfl, .unreadable htext⟩
    | ok text =>
      cases hread : host.suite? text with
      | none =>
        refine Or.inr ⟨.malformed path, ?_, .malformed htext hread⟩
        simp only [Suite.parse, hread, Action.fail_apply]
      | some suite =>
        simp only [Suite.parse, hread]
        rcases suite.accept_cases path s with ⟨hok, hwell⟩ | ⟨e, herror, hrefused⟩
        · exact Or.inl ⟨_, hok, .file htext hread hwell⟩
        · exact Or.inr ⟨e, herror, .refused htext hread hrefused⟩

lemma Gives.load_eq [Allocator] (h : source.Gives host suite) (s : Store) :
    (source.load host s).result = .ok suite := by
  cases h with
  | builtin h => exact Suite.accept_ok_iff.2 ⟨h, rfl⟩
  | file htext hread h =>
    simp only [load, Suite.load, Suite.parse, htext, hread]
    exact Suite.accept_ok_iff.2 ⟨h, rfl⟩

lemma Fails.load_eq [Allocator] (h : source.Fails host e) (s : Store) :
    (source.load host s).result = .error e := by
  cases h with
  | builtin h => exact Suite.accept_error_iff.2 h
  | unreadable h => simp only [load, Suite.load, h, Action.fail_apply]
  | malformed htext hread =>
    simp only [load, Suite.load, Suite.parse, htext, hread, Action.fail_apply]
  | refused htext hread h =>
    simp only [load, Suite.load, Suite.parse, htext, hread]
    exact Suite.accept_error_iff.2 h

lemma load_ok_iff [Allocator] :
    (source.load host s).result = .ok suite ↔ source.Gives host suite := by
  refine ⟨fun h => ?_, fun h => h.load_eq s⟩
  rcases load_cases host source s with ⟨suite', hok, hgives⟩ | ⟨e, herror, -⟩
  · rwa [← Except.ok.inj (hok.symm.trans h)]
  · cases herror.symm.trans h

lemma load_error_iff [Allocator] :
    (source.load host s).result = .error e ↔ source.Fails host e := by
  refine ⟨fun h => ?_, fun h => h.load_eq s⟩
  rcases load_cases host source s with ⟨suite, hok, -⟩ | ⟨e', herror, hfails⟩
  · cases hok.symm.trans h
  · rwa [← Except.error.inj (herror.symm.trans h)]

/-- All cases of a suite that was loaded can be run. -/
lemma Gives.usable [Allocator] (h : source.Gives host suite) : ∀ c ∈ suite.cases, c.Usable := by
  cases h with
  | builtin h => exact fun c hc => (h.valid c hc).usable
  | file _ _ h => exact fun c hc => (h.valid c hc).usable

section Several

variable {sources : List SuiteSource} {suites : List Suite}

/-- Loading sources one after another succeeds exactly when each of them holds a suite. -/
lemma mapM_load_ok_iff [Allocator] : (sources.mapM (load host) s).result = .ok suites ↔
    List.Forall₂ (Gives host) sources suites :=
  Action.mapM_ok_iff (load host) fun _ _ _ => load_ok_iff

/-- Loading sources one after another fails with the error of the first that holds no suite. -/
lemma mapM_load_error_iff [Allocator] : (sources.mapM (load host) s).result = .error e ↔
    ∃ before source after, sources = before ++ source :: after ∧
      (∀ earlier ∈ before, ∃ suite, earlier.Gives host suite) ∧ source.Fails host e :=
  Action.mapM_error_iff (load host) (fun _ _ _ => load_ok_iff) fun _ _ _ => load_error_iff

lemma usable_of_gives [Allocator] (h : List.Forall₂ (Gives host) sources suites) :
    ∀ suite ∈ suites, ∀ c ∈ suite.cases, c.Usable := by
  induction h with
  | nil => simp
  | cons hgives _ ih => exact List.forall_mem_cons.2 ⟨hgives.usable, ih⟩

/-- A source does not both hold a suite and fail. -/
lemma not_fails_of_gives [Allocator] (h : List.Forall₂ (Gives host) sources suites) :
    ∀ source ∈ sources, ¬ source.Fails host e := by
  induction h with
  | nil => simp
  | cons hgives _ ih =>
    refine List.forall_mem_cons.2 ⟨fun hfails => ?_, ih⟩
    cases (hgives.load_eq .empty).symm.trans (hfails.load_eq .empty)

end Several

end SuiteSource

/-! ### Configurations -/

namespace Selection

/-- The configuration to start from: the one in the file that is named, or the default. -/
inductive Reads (host : Host) (selection : Selection) : Config → Prop
  | default (h : selection.config = none) : Reads host selection {}
  | file {path text : String} {config : Config} (h : selection.config = some path)
      (htext : host.files path = .ok text) (hread : host.config? text = some config) :
    Reads host selection (config.resolve path)

/-- Why the file of the configuration cannot be used. -/
inductive Fails (host : Host) (selection : Selection) : SuiteError → Prop
  | unreadable {path : String} {failure : ReadFailure} (h : selection.config = some path)
      (hfile : host.files path = .error failure) : Fails host selection (.unreadable path failure)
  | malformed {path text : String} (h : selection.config = some path)
      (htext : host.files path = .ok text) (hread : host.config? text = none) :
    Fails host selection (.malformed path)

/-- A configuration can be read, or there is a reason why not. -/
lemma reads_or_fails (host : Host) (selection : Selection) :
    (∃ base, selection.Reads host base) ∨ ∃ e, selection.Fails host e := by
  cases h : selection.config with
  | none => exact Or.inl ⟨_, .default h⟩
  | some path =>
    cases htext : host.files path with
    | error failure => exact Or.inr ⟨_, .unreadable h htext⟩
    | ok text =>
      cases hread : host.config? text with
      | none => exact Or.inr ⟨_, .malformed h htext hread⟩
      | some config => exact Or.inl ⟨_, .file h htext hread⟩

end Selection

namespace RunOptions

variable {host : Host} {options : RunOptions} {config base : Config} {e : SuiteError}

/-- The suites that a run is asked for, in order: the built-in one unless it is excluded, those of
the configuration, those of the command line. -/
def sources (options : RunOptions) (base : Config) : List SuiteSource :=
  (if base.includeBuiltin && !options.selection.noBuiltin then [.builtin] else []) ++
    base.suites.map .file ++ options.selection.suites.map .file

/-- The configuration of a run that starts from another one. -/
def applyTo (options : RunOptions) (base : Config) : Config where
  policy := if options.strict then .strict else base.policy
  failFast := base.failFast || options.failFast
  filter := options.filter.or base.filter
  suites := base.suites ++ options.selection.suites
  includeBuiltin := base.includeBuiltin && !options.selection.noBuiltin

/-- The options of a run are laid over the configuration that was read. -/
lemma config?_of_reads (h : options.selection.Reads host base) :
    (Command.run options).config? host = .ok (options.applyTo base) := by
  cases h with
  | default h =>
    rw [Command.config?, config?, Selection.config?, h]
    rfl
  | file h htext hread =>
    rw [Command.config?, config?, Selection.config?, h]
    simp only [Config.load, htext, hread]
    rfl

lemma config?_of_fails (h : options.selection.Fails host e) :
    (Command.run options).config? host = .error e := by
  cases h with
  | unreadable h hfile =>
    rw [Command.config?, config?, Selection.config?, h]
    simp only [Config.load, hfile]
    rfl
  | malformed h htext hread =>
    rw [Command.config?, config?, Selection.config?, h]
    simp only [Config.load, htext, hread]
    rfl

end RunOptions

namespace Config

/-- Files are loaded one after another. -/
lemma loadFiles_eq [Allocator] (host : Host) (paths : List String) :
    loadFiles host paths = (paths.map .file).mapM (SuiteSource.load host) := by
  induction paths with
  | nil => rfl
  | cons path paths ih =>
    rw [loadFiles, ih, List.map_cons, List.mapM_cons]
    rfl

/-- What a configuration loads are the sources that the options name, in their order. -/
lemma loadSuites_applyTo [Allocator] (host : Host) (options : RunOptions) (base : Config) :
    (options.applyTo base).loadSuites host =
      (options.sources base).mapM (SuiteSource.load host) := by
  rw [loadSuites, loadFiles_eq, RunOptions.sources, List.append_assoc, ← List.map_append]
  change (if base.includeBuiltin && !options.selection.noBuiltin then _ else _) = _
  split_ifs
  · rw [List.singleton_append, List.mapM_cons]
    rfl
  · rfl

end Config

/-! ### Runs -/

namespace RunOptions

variable {host : Host} {options : RunOptions} {e : SuiteError}

/-- The first thing that a run cannot use: its configuration, or one of its suites. -/
inductive Fails [Allocator] (host : Host) (options : RunOptions) : SuiteError → Prop
  | config {e : SuiteError} (h : options.selection.Fails host e) : Fails host options e
  | suite {base : Config} {before after : List SuiteSource} {source : SuiteSource} {e : SuiteError}
      (hbase : options.selection.Reads host base)
      (hsources : options.sources base = before ++ source :: after)
      (hbefore : ∀ earlier ∈ before, ∃ suite, earlier.Gives host suite)
      (h : source.Fails host e) : Fails host options e

/-- The configuration and the suites of a run that can use all of them. -/
def Loads [Allocator] (host : Host) (options : RunOptions) (config : Config) (suites : List Suite) :
    Prop :=
  ∃ base, options.selection.Reads host base ∧ config = options.applyTo base ∧
    List.Forall₂ (SuiteSource.Gives host) (options.sources base) suites

/-- A run that cannot use something fails with the first such thing. -/
lemma perform_of_fails [Platform] (h : options.Fails host e) (s : Store) :
    ((Command.run options).perform host s).result = .error e := by
  rw [Command.perform, Action.bind_error_iff, Action.check_apply]
  cases h with
  | config h => exact Or.inl (config?_of_fails h)
  | suite hbase hsources hbefore h =>
    refine Or.inr ⟨_, config?_of_reads hbase, ?_⟩
    rw [Action.bind_error_iff, Config.loadSuites_applyTo]
    exact Or.inl (SuiteSource.mapM_load_error_iff.2 ⟨_, _, _, hsources, hbefore, h⟩)

/-- A run whose configuration and suites can be used does not fail. -/
lemma perform_of_loads [Platform] {config : Config} {suites : List Suite}
    (h : options.Loads host config suites) (s : Store) :
    ∃ report : Report, (∀ s, (config.run suites s).result = .ok report) ∧
      (report.isSuccess ↔ ∀ entry ∈ config.selected suites, entry.2.Passes config) ∧
      ((Command.run options).perform host s).result =
        .ok ⟨linesText report.lines, report.isSuccess⟩ := by
  obtain ⟨base, hbase, rfl, hgives⟩ := h
  obtain ⟨reports, hreports, hrun⟩ :=
    (options.applyTo base).exists_run_ofCases (SuiteSource.usable_of_gives hgives)
  refine ⟨_, hrun (options.applyTo base).failFast, ?_, ?_⟩
  · rw [Report.isSuccess_ofCases_iff, Config.hasFailure_iff hreports]
    push Not
    rfl
  · rw [Command.perform, Action.bind_ok_iff, Action.check_apply]
    refine ⟨_, config?_of_reads hbase, ?_⟩
    rw [Action.bind_ok_iff, Config.loadSuites_applyTo]
    refine ⟨suites, SuiteSource.mapM_load_ok_iff.2 hgives, ?_⟩
    rw [Action.bind_ok_iff, ← Report.text_eq]
    exact ⟨_, hrun _ _, rfl⟩

lemma fails_or_loads_of_reads [Allocator] {base : Config}
    (hbase : options.selection.Reads host base) :
    (∃ e, options.Fails host e) ∨
      ∃ suites, List.Forall₂ (SuiteSource.Gives host) (options.sources base) suites := by
  cases hload : ((options.sources base).mapM (SuiteSource.load host) .empty).result with
  | error e =>
    obtain ⟨before, source, after, hsources, hbefore, he⟩ :=
      SuiteSource.mapM_load_error_iff.1 hload
    exact Or.inl ⟨e, .suite hbase hsources hbefore he⟩
  | ok suites => exact Or.inr ⟨suites, SuiteSource.mapM_load_ok_iff.1 hload⟩

/-- A run cannot use something, or it can use everything. -/
lemma fails_or_loads [Allocator] (host : Host) (options : RunOptions) :
    (∃ e, options.Fails host e) ∨ ∃ config suites, options.Loads host config suites := by
  rcases options.selection.reads_or_fails host with ⟨base, hbase⟩ | ⟨e, he⟩
  · refine (fails_or_loads_of_reads hbase).imp_right ?_
    rintro ⟨suites, hgives⟩
    exact ⟨_, suites, base, hbase, rfl, hgives⟩
  · exact Or.inl ⟨e, .config he⟩

/-- A run fails just when something that it needs cannot be used, wherever that stands. -/
lemma exists_fails_iff [Allocator] :
    (∃ e, options.Fails host e) ↔ (∃ e, options.selection.Fails host e) ∨
      ∃ base, options.selection.Reads host base ∧
        ∃ source ∈ options.sources base, ∃ e, source.Fails host e := by
  constructor
  · rintro ⟨e, h | ⟨hbase, hsources, -, h⟩⟩
    · exact Or.inl ⟨e, h⟩
    · exact Or.inr ⟨_, hbase, _, by simp [hsources], e, h⟩
  · rintro (⟨e, h⟩ | ⟨base, hbase, source, hsource, e, h⟩)
    · exact ⟨e, .config h⟩
    · rcases fails_or_loads_of_reads hbase with hfails | ⟨suites, hgives⟩
      · exact hfails
      · exact absurd h (SuiteSource.not_fails_of_gives hgives source hsource)

end RunOptions

namespace Command

variable {host : Host} {command : Command}

/-- An error ends the program with status 2 and nothing on its output. -/
lemma complete_of_error [Platform] {e : SuiteError}
    (h : (command.perform host .empty).result = .error e) :
    ∃ events, command.complete host = ⟨2, "", some e, events⟩ := by
  simp [complete, h]

/-- Without an error the status tells whether all went well. -/
lemma complete_of_ok [Platform] {product : Product}
    (h : (command.perform host .empty).result = .ok product) :
    ∃ events, command.complete host =
      ⟨if product.success then 0 else 1, product.output, none, events⟩ := by
  simp [complete, h]

end Command

section

attribute [local instance] Platform.standard

end

end Dynval
