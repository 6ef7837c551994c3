import Mathlib
import Dynval.Platform
import Dynval.Proofs.Literal.Errors
import Dynval.Toml.Schema

/-!
# Which suites are accepted

The rules for cases, apart from the order in which they are checked: `Case.Valid` has those that
concern a case alone, `Case.Breaks` says how each broken rule is reported. A suite is accepted just
when its names differ and its cases are valid (`Suite.WellFormed`). Otherwise its first case that
breaks a rule is reported, with the first rule that it breaks (`Suite.Refused`).
-/

namespace Dynval

/-! ### Arguments -/

namespace Literal

/-- Whether a literal stands for a value. -/
def HasValue [Allocator] (L : Toml) : Prop :=
  ∃ v, (eval L .empty).result = .ok v

/-- A literal has a value exactly when nothing is wrong with it. -/
lemma hasValue_iff [Allocator] {L : Toml} : HasValue L ↔ errors L = [] :=
  (stops_evals.1 L).ok_iff

/-- The error of the first of some literals that has no value. -/
def FirstError [Allocator] (items : List Toml) (e : LiteralError) : Prop :=
  ∃ before L after, items = before ++ L :: after ∧ (∀ M ∈ before, HasValue M) ∧
    (eval L .empty).result = .error e

/-- Literals have values together exactly when each of them has one. -/
lemma evalItems_ok_iff [Allocator] {items : List Toml} {s : Store} :
    (∃ vs, (evalItems items s).result = .ok vs) ↔ ∀ L ∈ items, HasValue L := by
  rw [(stops_evals.2.2.2 items).ok_iff, List.flatMap_eq_nil_iff]
  simp only [hasValue_iff]

lemma evalItems_error_iff [Allocator] {items : List Toml} {s : Store} {e : LiteralError} :
    (evalItems items s).result = .error e ↔ FirstError items e := by
  rw [(stops_evals.2.2.2 items).error_iff, List.head?_flatMap, List.findSome?_eq_some_iff]
  simp only [FirstError, hasValue_iff, (stops_evals.1 _).error_iff, List.head?_eq_none_iff]
  constructor
  · rintro ⟨before, L, after, hitems, hL, hbefore⟩
    exact ⟨before, L, after, hitems, hbefore, hL⟩
  · rintro ⟨before, L, after, hitems, hbefore, hL⟩
    exact ⟨before, L, after, hitems, hL, hbefore⟩

/-- There is a first error exactly when some literal has no value. -/
lemma exists_firstError_iff [Allocator] {items : List Toml} :
    (∃ e, FirstError items e) ↔ ¬ ∀ L ∈ items, HasValue L := by
  rw [← evalItems_ok_iff (s := .empty)]
  simp only [← evalItems_error_iff (s := .empty)]
  cases (evalItems items .empty).result <;> simp

end Literal

/-! ### Rules -/

/-- Whether an operation takes a number of arguments. -/
def Arity.Allows (a : Arity) (n : Nat) : Prop :=
  a.least ≤ n ∧ ∀ most ∈ a.most, n ≤ most

lemma Arity.accepts_iff {a : Arity} {n : Nat} : a.accepts n ↔ a.Allows n := by
  simp [accepts, Allows, Option.all_eq_true]

/-- The names that a case can expect are those of the kinds of faults. -/
lemma Case.mem_faultNames_iff {name : String} :
    name ∈ faultNames ↔ ∃ kind : FaultKind, kind.name = name := by
  constructor
  · simp only [faultNames, List.mem_cons, List.not_mem_nil, or_false]
    rintro (rfl | rfl | rfl | rfl | rfl | rfl | rfl | rfl)
    exacts [⟨.divisionByZero, rfl⟩, ⟨.value, rfl⟩, ⟨.type, rfl⟩, ⟨.index, rfl⟩, ⟨.key, rfl⟩,
      ⟨.overflow, rfl⟩, ⟨.memory, rfl⟩, ⟨.io, rfl⟩]
  · rintro ⟨kind, rfl⟩
    cases kind <;> decide

/-- The place of a rule in the order in which the rules are checked. -/
def CaseProblem.rank : CaseProblem → Nat
  | duplicateName => 0
  | noExpectation => 1
  | unknownFault _ => 2
  | wrongArity .. => 3
  | literal _ => 4

namespace Case

/-- Whether a case follows the rules that concern it alone. -/
structure Valid [Allocator] (c : Case) : Prop where
  /-- Exactly one thing is expected. -/
  expectation : c.expect.isSome ≠ c.raises.isSome
  fault : ∀ name ∈ c.raises, ∃ kind : FaultKind, kind.name = name
  arity : c.op.arity.Allows c.args.length
  args : ∀ L ∈ c.args, Literal.HasValue L

/-- The rules that a case breaks behind cases of the given names. -/
inductive Breaks [Allocator] (earlier : List String) (c : Case) : CaseProblem → Prop
  | name (h : c.name ∈ earlier) : Breaks earlier c .duplicateName
  | expectation (h : c.expect.isSome = c.raises.isSome) : Breaks earlier c .noExpectation
  | fault {name : String} (hraises : c.raises = some name)
      (h : ∀ kind : FaultKind, kind.name ≠ name) : Breaks earlier c (.unknownFault name)
  | arity (h : ¬ c.op.arity.Allows c.args.length) :
    Breaks earlier c (.wrongArity c.op c.args.length)
  | args {e : LiteralError} (h : Literal.FirstError c.args e) : Breaks earlier c (.literal e)

/-- Whether a problem is the first of a case in the order of the rules. -/
def FirstProblem [Allocator] (earlier : List String) (c : Case) (p : CaseProblem) : Prop :=
  c.Breaks earlier p ∧ ∀ q, c.Breaks earlier q → p.rank ≤ q.rank

variable {c : Case} {earlier : List String} {p q : CaseProblem} {s : Store}

/-- A case that breaks no rule is valid and has a new name. -/
lemma not_breaks_iff [Allocator] : (∀ p, ¬ c.Breaks earlier p) ↔ c.name ∉ earlier ∧ c.Valid := by
  constructor
  · intro h
    refine ⟨fun hname => h _ (.name hname), fun hsome => h _ (.expectation hsome), ?_, ?_, ?_⟩
    · intro name hraises
      by_contra! hname
      exact h _ (.fault hraises hname)
    · by_contra harity
      exact h _ (.arity harity)
    · by_contra hargs
      obtain ⟨e, he⟩ := Literal.exists_firstError_iff.2 hargs
      exact h _ (.args he)
  · rintro ⟨hname, hvalid⟩ p hp
    cases hp with
    | name h => exact hname h
    | expectation h => exact hvalid.expectation h
    | fault hraises h =>
      obtain ⟨kind, hkind⟩ := hvalid.fault _ hraises
      exact h kind hkind
    | arity h => exact h hvalid.arity
    | args h => exact Literal.exists_firstError_iff.1 ⟨_, h⟩ hvalid.args

/-- Of each rule there is one problem at most. -/
lemma Breaks.eq_of_rank [Allocator] (hp : c.Breaks earlier p) (hq : c.Breaks earlier q)
    (h : p.rank = q.rank) : p = q := by
  cases hp <;> cases hq <;> cases h
  case name.name => rfl
  case expectation.expectation => rfl
  case fault.fault hp _ _ hq _ => rw [Option.some.inj (hp.symm.trans hq)]
  case arity.arity => rfl
  case args.args e hp f hq =>
    rw [← Literal.evalItems_error_iff (s := .empty)] at hp hq
    rw [Except.error.inj (hp.symm.trans hq)]

/-- A case has one first problem. -/
lemma FirstProblem.unique [Allocator] (hp : c.FirstProblem earlier p)
    (hq : c.FirstProblem earlier q) : p = q :=
  hp.1.eq_of_rank hq.1 (Nat.le_antisymm (hp.2 q hq.1) (hq.2 p hp.1))

/-! ### Checking a case -/

lemma expectation?_eq_none_iff : c.expectation? = none ↔ c.expect.isSome = c.raises.isSome := by
  unfold expectation?
  cases c.expect <;> cases c.raises <;> simp

section Order

-- the rules before a rule hold: a problem that is left has at least the rank of that rule
variable (hname : c.name ∉ earlier)

include hname

lemma Breaks.one_le_rank [Allocator] (hq : c.Breaks earlier q) : 1 ≤ q.rank := by
  cases hq with
  | name h => exact absurd h hname
  | _ => simp [CaseProblem.rank]

lemma problem?_of_isSome_eq (h : c.expect.isSome = c.raises.isSome) :
    c.problem? earlier = some .noExpectation := by
  rw [problem?, if_neg hname, expectation?_eq_none_iff.2 h]

variable (hone : c.expect.isSome ≠ c.raises.isSome)

include hone

lemma Breaks.two_le_rank [Allocator] (hq : c.Breaks earlier q) : 2 ≤ q.rank := by
  cases hq with
  | name h => exact absurd h hname
  | expectation h => exact absurd h hone
  | _ => simp [CaseProblem.rank]

lemma problem?_of_unknown {name : String} (hraises : c.raises = some name)
    (h : ∀ kind : FaultKind, kind.name ≠ name) :
    c.problem? earlier = some (.unknownFault name) := by
  have hexpect : c.expect = none := by simpa [hraises] using hone
  rw [problem?, if_neg hname, expectation?, hexpect, hraises]
  exact if_neg fun hmem => (mem_faultNames_iff.1 hmem).elim h

variable (hfault : ∀ name ∈ c.raises, ∃ kind : FaultKind, kind.name = name)

include hfault

lemma Breaks.three_le_rank [Allocator] (hq : c.Breaks earlier q) : 3 ≤ q.rank := by
  cases hq with
  | name h => exact absurd h hname
  | expectation h => exact absurd h hone
  | fault hraises h =>
    obtain ⟨kind, hkind⟩ := hfault _ hraises
    exact absurd hkind (h kind)
  | _ => simp [CaseProblem.rank]

lemma problem?_of_known :
    c.problem? earlier =
      if c.op.arity.accepts c.args.length then none
      else some (.wrongArity c.op c.args.length) := by
  rw [problem?, if_neg hname, expectation?]
  cases hexpect : c.expect with
  | some text =>
    have hraises : c.raises = none := by simpa [hexpect] using hone
    rw [hraises]
    rfl
  | none =>
    have hraises : c.raises ≠ none := by simpa [hexpect] using hone
    obtain ⟨name, hraises⟩ := Option.ne_none_iff_exists'.1 hraises
    rw [hraises]
    exact if_pos (mem_faultNames_iff.2 (hfault name hraises))

end Order

/-- Without its literals a case shows its first problem, unless its only problem is a literal. -/
lemma problem?_cases [Allocator] (earlier : List String) (c : Case) :
    (∃ p, c.problem? earlier = some p ∧ c.FirstProblem earlier p) ∨
      c.problem? earlier = none ∧ ∀ p, c.Breaks earlier p → ∃ e, p = .literal e := by
  by_cases hname : c.name ∈ earlier
  · exact Or.inl ⟨_, if_pos hname, .name hname, fun q _ => Nat.zero_le _⟩
  by_cases hone : c.expect.isSome = c.raises.isSome
  · exact Or.inl ⟨_, problem?_of_isSome_eq hname hone, .expectation hone,
      fun q hq => hq.one_le_rank hname⟩
  by_cases hfault : ∃ name ∈ c.raises, ∀ kind : FaultKind, kind.name ≠ name
  · obtain ⟨name, hraises, hunknown⟩ := hfault
    exact Or.inl ⟨_, problem?_of_unknown hname hone hraises hunknown, .fault hraises hunknown,
      fun q hq => hq.two_le_rank hname hone⟩
  push Not at hfault
  rw [problem?_of_known hname hone hfault]
  split_ifs with harity
  · refine Or.inr ⟨rfl, fun q hq => ?_⟩
    have hrank := hq.three_le_rank hname hone hfault
    cases hq with
    | arity h => exact absurd (Arity.accepts_iff.1 harity) h
    | args h => exact ⟨_, rfl⟩
    | _ => simp [CaseProblem.rank] at hrank
  · exact Or.inl ⟨_, rfl, .arity (mt Arity.accepts_iff.2 harity),
      fun q hq => hq.three_le_rank hname hone hfault⟩

lemma check_eq_of_problem?_none [Allocator] (h : c.problem? earlier = none) :
    c.check earlier = c.evalArgs.mapError .literal >>= fun _ => pure () := by
  rw [check, h]

/-- A case is refused for its first problem, or it has none. -/
lemma check_cases [Allocator] (earlier : List String) (c : Case) (s : Store) :
    (∃ p, (c.check earlier s).result = .error p ∧ c.FirstProblem earlier p) ∨
      (c.check earlier s).result = .ok () ∧ ∀ p, ¬ c.Breaks earlier p := by
  rcases problem?_cases earlier c with ⟨p, hp, hfirst⟩ | ⟨hnone, hliteral⟩
  · rw [check, hp]
    exact Or.inl ⟨p, rfl, hfirst⟩
  rw [check_eq_of_problem?_none hnone]
  cases hargs : (c.evalArgs s).result with
  | error e =>
    rw [Action.bind_of_error (Action.mapError_of_error hargs _)]
    refine Or.inl ⟨_, rfl, .args (Literal.evalItems_error_iff.1 hargs), fun q hq => ?_⟩
    obtain ⟨f, rfl⟩ := hliteral q hq
    exact Nat.le_refl _
  | ok args =>
    rw [Action.bind_of_ok (Action.mapError_ok_iff.2 hargs)]
    refine Or.inr ⟨rfl, fun q hq => ?_⟩
    obtain ⟨f, rfl⟩ := hliteral q hq
    cases hq with
    | args h =>
      exact Literal.exists_firstError_iff.1 ⟨f, h⟩ (Literal.evalItems_ok_iff.1 ⟨args, hargs⟩)

/-- Of the cases before a case only the names matter, in whatever order. -/
lemma Breaks.mono [Allocator] {earlier' : List String} (hsub : earlier ⊆ earlier')
    (hp : c.Breaks earlier p) : c.Breaks earlier' p := by
  cases hp with
  | name h => exact .name (hsub h)
  | expectation h => exact .expectation h
  | fault hraises h => exact .fault hraises h
  | arity h => exact .arity h
  | args h => exact .args h

/-- Only the names of the cases before count. -/
lemma breaks_congr [Allocator] {earlier' : List String}
    (h : ∀ name, name ∈ earlier ↔ name ∈ earlier') : c.Breaks earlier = c.Breaks earlier' :=
  funext fun _ => propext ⟨.mono fun _ => (h _).1, .mono fun _ => (h _).2⟩

end Case

/-! ### Checking a suite -/

namespace Suite

/-- Whether cases follow all rules. -/
structure WellFormed [Allocator] (cases : List Case) : Prop where
  names : (cases.map Case.name).Nodup
  valid : ∀ c ∈ cases, c.Valid

/-- Whether an error is the first problem of the first case of a suite that has one. -/
def Refused [Allocator] (suite : Suite) (e : SuiteError) : Prop :=
  ∃ before c after p, suite.cases = before ++ c :: after ∧ WellFormed before ∧
    c.FirstProblem (before.map Case.name) p ∧ e = .invalidCase suite.name c.name p

variable {suite : Suite} {cases before after : List Case} {c : Case} {e f : SuiteError}

/-- Cases are well formed when each of them breaks no rule behind those before it. -/
lemma wellFormed_concat [Allocator] : WellFormed (cases ++ [c]) ↔
    WellFormed cases ∧ ∀ p, ¬ c.Breaks (cases.map Case.name) p := by
  rw [Case.not_breaks_iff]
  constructor
  · rintro ⟨hnames, hvalid⟩
    rw [List.map_append, List.map_singleton, ← List.concat_eq_append, List.nodup_concat] at hnames
    simp only [List.forall_mem_append, List.forall_mem_singleton] at hvalid
    exact ⟨⟨hnames.2, hvalid.1⟩, hnames.1, hvalid.2⟩
  · rintro ⟨⟨hnames, hvalid⟩, hname, hc⟩
    refine ⟨?_, List.forall_mem_append.2 ⟨hvalid, by simpa using hc⟩⟩
    rw [List.map_append, List.map_singleton, ← List.concat_eq_append, List.nodup_concat]
    exact ⟨hname, hnames⟩

lemma WellFormed.of_append [Allocator] (h : WellFormed (cases ++ after)) : WellFormed cases := by
  have hnames := h.names
  rw [List.map_append] at hnames
  exact ⟨hnames.of_append_left, fun c hc => h.valid c (List.mem_append_left _ hc)⟩

lemma WellFormed.not_breaks [Allocator] (h : WellFormed (before ++ c :: after)) (p : CaseProblem) :
    ¬ c.Breaks (before.map Case.name) p := by
  rw [List.append_cons] at h
  exact (wellFormed_concat.1 h.of_append).2 p

/-- A suite that is refused is not well formed. -/
lemma Refused.not_wellFormed [Allocator] (h : suite.Refused e) : ¬ WellFormed suite.cases := by
  obtain ⟨before, c, after, p, hcases, -, hp, -⟩ := h
  rw [hcases]
  exact fun hwell => hwell.not_breaks p hp.1

/-- A case that breaks a rule is not among cases that follow the rules. -/
lemma first_eq [Allocator] {between after' : List Case} {c' : Case} {p : CaseProblem}
    (hwell : WellFormed (before ++ between)) (hrest : c :: after = between ++ c' :: after')
    (hp : c.FirstProblem (before.map Case.name) p) : between = [] ∧ c = c' := by
  cases between with
  | nil => exact ⟨rfl, (List.cons.inj hrest).1⟩
  | cons d between =>
    obtain ⟨rfl, -⟩ := List.cons.inj hrest
    exact absurd hp.1 (hwell.not_breaks p)

/-- A suite is refused for one reason. -/
lemma Refused.unique [Allocator] (he : suite.Refused e) (hf : suite.Refused f) : e = f := by
  obtain ⟨before, c, after, p, hcases, hbefore, hp, rfl⟩ := he
  obtain ⟨before', c', after', p', hcases', hbefore', hp', rfl⟩ := hf
  rw [hcases, List.append_eq_append_iff] at hcases'
  -- one of the two beginnings goes on where the other ends
  rcases hcases' with ⟨between, rfl, hrest⟩ | ⟨between, rfl, hrest⟩
  · obtain ⟨rfl, rfl⟩ := first_eq hbefore' hrest hp
    rw [List.append_nil] at hp'
    rw [hp.unique hp']
  · obtain ⟨rfl, rfl⟩ := first_eq hbefore hrest hp'
    rw [List.append_nil] at hp
    rw [hp.unique hp']

/-- The loop over the cases: those seen so far follow the rules, and their names are known. -/
lemma checkCases_cases [Allocator] (name : String) {earlier : List String} {seen : List Case}
    (hearlier : ∀ n, n ∈ earlier ↔ n ∈ seen.map Case.name) (hseen : WellFormed seen) (s : Store) :
    ((checkCases name earlier cases s).result = .ok () ∧ WellFormed (seen ++ cases)) ∨
      ∃ before c after p, cases = before ++ c :: after ∧ WellFormed (seen ++ before) ∧
        c.FirstProblem ((seen ++ before).map Case.name) p ∧
        (checkCases name earlier cases s).result = .error (.invalidCase name c.name p) := by
  induction cases generalizing earlier seen s with
  | nil => exact Or.inl ⟨rfl, by rwa [List.append_nil]⟩
  | cons c cases ih =>
    rw [checkCases]
    rcases c.check_cases earlier s with ⟨p, hp, hfirst⟩ | ⟨hok, hnone⟩
    · rw [Action.bind_of_error (Action.mapError_of_error hp _)]
      rw [Case.FirstProblem, Case.breaks_congr hearlier] at hfirst
      refine Or.inr ⟨[], c, cases, p, rfl, ?_, ?_, rfl⟩
      · rwa [List.append_nil]
      · rwa [List.append_nil]
    · rw [Action.bind_of_ok (Action.mapError_ok_iff.2 hok)]
      rw [Case.breaks_congr hearlier] at hnone
      have hnames : ∀ n, n ∈ c.name :: earlier ↔ n ∈ (seen ++ [c]).map Case.name := by
        intro n
        simp [hearlier, or_comm]
      have hrest := ih hnames (wellFormed_concat.2 ⟨hseen, hnone⟩) (((c.check earlier).mapError
        (SuiteError.invalidCase name c.name) s).store)
      simp only [List.append_assoc, List.singleton_append] at hrest
      refine hrest.imp_right ?_
      rintro ⟨before, d, after, p, rfl, hbefore, hp, hresult⟩
      exact ⟨c :: before, d, after, p, rfl, hbefore, hp, hresult⟩

/-- A suite is accepted as it is, or refused. -/
lemma accept_cases [Allocator] (suite : Suite) (source : String) (s : Store) :
    ((suite.accept source s).result = .ok suite ∧ WellFormed suite.cases) ∨
      ∃ e, (suite.accept source s).result = .error e ∧ suite.Refused e := by
  have hnames : ∀ n, n ∈ ([] : List String) ↔ n ∈ ([] : List Case).map Case.name := by simp
  have hempty : WellFormed [] := ⟨List.nodup_nil, List.forall_mem_nil _⟩
  rw [accept]
  rcases checkCases_cases suite.name hnames hempty s with
    ⟨hok, hwell⟩ | ⟨before, c, after, p, hcases, hbefore, hp, herror⟩
  · rw [Action.bind_of_ok hok]
    exact Or.inl ⟨rfl, hwell⟩
  · rw [Action.bind_of_error herror]
    exact Or.inr ⟨_, rfl, before, c, after, p, hcases, hbefore, hp, rfl⟩

lemma accept_ok_iff [Allocator] {source : String} {s : Store} {other : Suite} :
    (suite.accept source s).result = .ok other ↔ WellFormed suite.cases ∧ other = suite := by
  rcases suite.accept_cases source s with ⟨hok, hwell⟩ | ⟨e, herror, hrefused⟩
  · rw [hok, Except.ok.injEq]
    exact ⟨fun h => ⟨hwell, h.symm⟩, fun h => h.2.symm⟩
  · rw [herror]
    exact ⟨nofun, fun h => absurd h.1 hrefused.not_wellFormed⟩

lemma accept_error_iff [Allocator] {source : String} {s : Store} :
    (suite.accept source s).result = .error e ↔ suite.Refused e := by
  rcases suite.accept_cases source s with ⟨hok, hwell⟩ | ⟨f, herror, hrefused⟩
  · rw [hok]
    exact ⟨nofun, fun h => absurd hwell h.not_wellFormed⟩
  · rw [herror, Except.error.injEq]
    exact ⟨fun h => h ▸ hrefused, fun h => hrefused.unique h⟩

/-- A text in which a suite can be read is accepted just when the names of the cases differ and
every case is valid; then the suite is answered as it is. Otherwise it is refused, for the first
rule that is broken by the first case that breaks one. -/
theorem parse_accepts_iff_wellFormed [Allocator] {read? : String → Option Suite} {text : String}
    {suite : Suite} (hread : read? text = some suite) (source : String) (s : Store) :
    ((∃ other, (parse read? text source s).result = .ok other) ↔ WellFormed suite.cases) ∧
    (∀ other, (parse read? text source s).result = .ok other → other = suite) ∧
    (∀ e, (parse read? text source s).result = .error e ↔ suite.Refused e) := by
  rw [parse, hread]
  refine ⟨?_, fun other h => (accept_ok_iff.1 h).2, fun e => accept_error_iff⟩
  simp only [accept_ok_iff, exists_and_left, exists_eq, and_true]

section

attribute [local instance] Platform.standard

set_option maxRecDepth 10000 in
/-- A name that stands twice is reported before all else that is wrong with its second case. -/
theorem parse_refuses_duplicate_first :
    let text := "name=\"s\"\n[[case]]\nname=\"a\"\nop=\"print\"\nexpect=\"\"\n" ++
      "[[case]]\nname=\"a\"\nop=\"ord\"\nraises=\"b\""
    let read? := fun text => (Toml.document? text).bind ofToml?
    let good : Case := ⟨"a", .print, [], some "", none, none⟩
    let bad : Case := ⟨"a", .ord, [], none, some "b", none⟩
    read? text = some ⟨"s", none, [good, bad]⟩ ∧ WellFormed [good] ∧ ¬ WellFormed [good, bad] ∧
      (parse read? text "t" .empty).result = .error (.invalidCase "s" "a" .duplicateName) := by
  intro text read? good bad
  have hread : read? text = some ⟨"s", none, [good, bad]⟩ := by
    subst text read? good bad
    cbv
  have hvalid : good.Valid := ⟨by decide, by simp [good],
    ⟨Nat.zero_le _, by simp [good, Operation.arity]⟩, List.forall_mem_nil _⟩
  have hgood : WellFormed [good] := ⟨List.nodup_singleton _, by simpa using hvalid⟩
  have hrefused : Refused ⟨"s", none, [good, bad]⟩ (.invalidCase "s" "a" .duplicateName) :=
    ⟨[good], bad, [], _, rfl, hgood, ⟨.name List.mem_cons_self, fun q _ => Nat.zero_le _⟩, rfl⟩
  exact ⟨hread, hgood, hrefused.not_wellFormed,
    ((parse_accepts_iff_wellFormed hread "t" .empty).2.2 _).2 hrefused⟩

end

end Suite

end Dynval
