import FuzzyLogic.Model.Report
import FuzzyLogic.Proofs.Model.Labels
import FuzzyLogic.Proofs.Model.Naming
import FuzzyLogic.Proofs.Value
import Mathlib.Data.List.Forall2

set_option autoImplicit false

/-! # What the reports tell

The strengths of the rules and the reports on them are computed apart: once by running the program of
a rule, once by listing what its operands contribute. Here they are shown to agree, with each other,
with the text of the rule and with the inputs of the variables. -/

namespace FuzzyLogic

open FuzzyLogic.Rule

variable {α : Type} [Scalar α]

theorem forall₂_of_listMapM {ε β γ : Type} {f : β → Except ε γ} {l : List β} {k : List γ}
    (h : l.mapM f = .ok k) : List.Forall₂ (fun b c => f b = .ok c) l k := by
  have heq : List.Forall₂ Eq (l.map f) (k.map .ok) := by
    rw [List.forall₂_eq_eq_eq]
    exact listMapM_eq_ok_iff.1 h
  exact List.forall₂_map_right_iff.1 (List.forall₂_map_left_iff.1 heq)

/-- Dropping what is missing from a list of results is filtering what they are results for. -/
theorem map_filterMap_of_forall₂ {β γ : Type} {keep : β → Bool} {back : γ → β} {l : List β}
    {k : List (Option γ)}
    (h : List.Forall₂ (fun b c? => if keep b then ∃ c, c? = some c ∧ back c = b else c? = none) l k) :
    (k.filterMap id).map back = l.filter keep := by
  induction h with
  | nil => rfl
  | @cons b c? l k hb hrest ih =>
      by_cases hkeep : keep b = true
      · rw [if_pos hkeep] at hb
        obtain ⟨c, rfl, rfl⟩ := hb
        rw [List.filterMap_cons, List.filter_cons_of_pos hkeep, ← ih]
        rfl
      · rw [if_neg hkeep] at hb
        subst hb
        rw [List.filterMap_cons, List.filter_cons_of_neg hkeep, ← ih]
        rfl

namespace Model

variable {m : Model α}

/-! ## Clauses -/

/-- What a report says about a clause is true in the model: the names of its variable and its label,
the input of the variable, and the degree to which this input belongs to the label. -/
structure Reported (m : Model α) (c : ModelClause α) (report : ClauseReport α) : Prop where
  subject_eq : report.subject = c.subject.name
  label_eq : report.label = c.label.name
  value_eq : ∃ v, m.deref? c.subject = some v ∧ v.input = report.value
  degree_eq : c.label.membership report.value = .ok report.degree

theorem exists_clauseReport {c : ModelClause α} {d : α} (h : m.degree c = .ok d) :
    ∃ report, m.clauseReport c = .ok report := by
  unfold clauseReport
  split
  · next hv =>
      rw [degree, hv] at h
      cases h
  · exact ⟨_, bind_eq_ok_iff.2 ⟨d, h, rfl⟩⟩

theorem reported_of_clauseReport {c : ModelClause α} {report : ClauseReport α}
    (h : m.clauseReport c = .ok report) : m.Reported c report ∧ m.degree c = .ok report.degree := by
  unfold clauseReport at h
  split at h
  · cases h
  · next v hv =>
      obtain ⟨d, hd, hreport⟩ := bind_eq_ok_iff.1 h
      obtain rfl := pure_eq_ok_iff.1 hreport
      have hdegree : c.label.membership v.input = .ok d := by
        rwa [degree, hv] at hd
      exact ⟨⟨rfl, rfl, ⟨v, hv, rfl⟩, hdegree⟩, hd⟩

/-! ## Rules -/

/-- The program of the rule is that of a tree, and all its operands have a degree. -/
structure Runs (m : Model α) (r : FuzzyLogic.Rule α) : Prop where
  program : ∃ t : Tree (ModelClause α), r.program = t.postorder
  degree : ∀ c ∈ r.program.operands, ∃ d, m.degree c = .ok d

variable {r : FuzzyLogic.Rule α} {threshold : α}

theorem Runs.exists_strength (h : m.Runs r) : ∃ x, m.strength r = .ok x := by
  obtain ⟨t, ht⟩ := h.program
  have hdegree := h.degree
  rw [ht, Tree.operands_postorder] at hdegree
  rw [strength, ht, Tree.evaluate_postorder]
  exact Tree.exists_value r.exists_apply hdegree

theorem ruleReport_eq_ok_iff {report? : Option (RuleReport α)} :
    m.ruleReport threshold r = .ok report? ↔
      ∃ x, m.strength r = .ok x ∧
        (x < threshold ∧ report? = none ∨
          ¬ x < threshold ∧ ∃ antecedent, r.program.operands.mapM m.clauseReport = .ok antecedent ∧
            report? = some { rule := r, antecedent, strength := x }) := by
  rw [ruleReport, bind_eq_ok_iff]
  refine exists_congr fun x => and_congr_right fun _ => ?_
  split
  · next hlt =>
      simp only [pure_eq_ok_iff, hlt, true_and, not_true, false_and, or_false]
      exact eq_comm
  · next hlt =>
      simp only [bind_eq_ok_iff, pure_eq_ok_iff, hlt, false_and, not_false_iff, true_and, false_or]
      exact exists_congr fun antecedent => and_congr_right fun _ => eq_comm

theorem Runs.exists_ruleReport (h : m.Runs r) (threshold : α) :
    ∃ report?, m.ruleReport threshold r = .ok report? := by
  obtain ⟨x, hx⟩ := h.exists_strength
  by_cases hlt : x < threshold
  · exact ⟨none, ruleReport_eq_ok_iff.2 ⟨x, hx, .inl ⟨hlt, rfl⟩⟩⟩
  · have hclauses : ∀ c ∈ r.program.operands, ∃ report, m.clauseReport c = .ok report := by
      intro c hc
      obtain ⟨d, hd⟩ := h.degree c hc
      exact exists_clauseReport hd
    obtain ⟨antecedent, hantecedent⟩ := exists_listMapM_eq_ok_iff.2 hclauses
    exact ⟨_, ruleReport_eq_ok_iff.2 ⟨x, hx, .inr ⟨hlt, antecedent, hantecedent, rfl⟩⟩⟩

/-- What a report says about a rule is true: every clause of its program is reported in its place,
and the operators of the rule, applied to the reported degrees instead of the clauses, give the
strength that is reported. -/
structure ReportedRule (m : Model α) (report : RuleReport α) : Prop where
  clauses : List.Forall₂ m.Reported report.rule.program.operands report.antecedent
  strength : ∃ program : Program α,
    report.rule.program.refill? (report.antecedent.map ClauseReport.degree) = some program ∧
      program.evaluate report.rule.connectives .ok = .ok report.strength

theorem reportedRule_of_ruleReport {report : RuleReport α}
    (h : m.ruleReport threshold r = .ok (some report)) :
    report.rule = r ∧ m.strength r = .ok report.strength ∧ ¬ report.strength < threshold ∧
      m.ReportedRule report := by
  obtain ⟨x, hx, ⟨-, hnone⟩ | ⟨hlt, antecedent, hantecedent, hreport⟩⟩ := ruleReport_eq_ok_iff.1 h
  · cases hnone
  · obtain rfl := Option.some.inj hreport
    refine ⟨rfl, hx, hlt, ?_, ?_⟩
    · exact (forall₂_of_listMapM hantecedent).imp fun c report h => (reported_of_clauseReport h).1
    · have hdegrees : r.program.operands.map m.degree
          = (antecedent.map ClauseReport.degree).map .ok := by
        rw [List.map_map]
        exact map_eq_map_of_ok (fun c report h => (reported_of_clauseReport h).2)
          (listMapM_eq_ok_iff.1 hantecedent)
      obtain ⟨program, hprogram, hevaluate⟩ :=
        Program.exists_refill?_evaluate (c := r.connectives) hdegrees
      exact ⟨program, hprogram, hevaluate.trans hx⟩

/-! ## Strengths -/

/-- The strength of the rule with the name, if there is such a rule and it has one. -/
def strengthOf? (m : Model α) (name : String) : Option α :=
  (m.rules.get? name).bind fun r => (m.strength r).toOption

theorem strengthOf?_eq {name : String} (hr : m.rules.get? name = some r) {x : α}
    (hx : m.strength r = .ok x) : m.strengthOf? name = some x :=
  Option.bind_eq_some_iff.2 ⟨r, hr, toOption_eq_some_iff.2 hx⟩

theorem strengthOf?_eq_none {name : String} (h : name ∉ m.rules.names) :
    m.strengthOf? name = none := by
  have hfree := Registry.contains_eq_false_iff.2 h
  rw [Registry.contains, Option.isSome_eq_false_iff, Option.isNone_iff_eq_none] at hfree
  rw [strengthOf?, hfree, Option.bind_none]

/-- The strength of a rule, to be entered under the name of the rule. -/
def namedStrength (m : Model α) (r : FuzzyLogic.Rule α) : Except (ModelError α) (String × α) := do
  let x ← ModelError.lift (m.strength r)
  return (r.name, x)

theorem namedStrength_eq_ok_iff {e : String × α} :
    m.namedStrength r = .ok e ↔ m.strength r = .ok e.2 ∧ r.name = e.1 := by
  rw [namedStrength, bind_eq_ok_iff]
  cases m.strength r with
  | error f => simp [ModelError.lift]
  | ok x => simp [ModelError.lift, Prod.ext_iff, and_comm]

/-- The strengths of named rules are found name by name. -/
theorem firingStrengths_some_eq_ok_iff {names : List String} {strengths : Registry α} :
    m.firingStrengths (some names) = .ok strengths ↔
      ∃ pairs, names.mapM (fun n => m.rule n >>= m.namedStrength) = .ok pairs ∧
        strengths = .ofList pairs := by
  have hassoc : m.firingStrengths (some names)
      = (names.mapM m.rule >>= fun rs => rs.mapM m.namedStrength) >>= fun pairs =>
          pure (.ofList pairs) :=
    (bind_assoc ..).symm
  rw [hassoc, bind_eq_ok_iff]
  simp only [listMapM_listMapM_eq_ok_iff, pure_eq_ok_iff]
  exact exists_congr fun pairs => and_congr_right fun _ => eq_comm

section

variable (hm : m.rules.Keyed FuzzyLogic.Rule.name)

include hm

theorem strengthOf?_eq_some_iff {name : String} {x : α} :
    m.strengthOf? name = some x ↔ (m.rule name >>= m.namedStrength) = .ok (name, x) := by
  simp only [strengthOf?, Option.bind_eq_some_iff, toOption_eq_some_iff, bind_eq_ok_iff,
    rule_eq_ok_iff, namedStrength_eq_ok_iff]
  exact exists_congr fun r => and_congr_right fun hr => (and_iff_left (hm.key_eq_of_get? hr)).symm

/-- Asking for no rules by name is asking for all by name, in order. -/
theorem firingStrengths_none : m.firingStrengths none = m.firingStrengths (some m.rules.names) := by
  have hselected : m.rules.names.mapM m.rule = .ok m.rules.objects := by
    rw [listMapM_eq_ok_iff, Registry.names, Registry.objects, List.map_map, List.map_map]
    refine List.map_congr_left fun e he => ?_
    have hget := hm.get?_of_mem_objects (List.mem_map_of_mem he)
    rw [hm.key_eq e he] at hget
    exact rule_eq_ok_iff.2 hget
  rw [firingStrengths, firingStrengths, hselected]
  rfl

/-- Every list of names of rules has its strengths, under each name once. -/
theorem firingStrengths_some {names : List String} {strengths : Registry α}
    (h : m.firingStrengths (some names) = .ok strengths) :
    strengths.names = names.eraseDups ∧
      ∀ n, strengths.get? n = if n ∈ names then m.strengthOf? n else none := by
  obtain ⟨pairs, hpairs, rfl⟩ := firingStrengths_some_eq_ok_iff.1 h
  have hname {n : String} {e : String × α} (he : (m.rule n >>= m.namedStrength) = .ok e) :
      n = e.1 := by
    obtain ⟨r, hr, hstrength⟩ := bind_eq_ok_iff.1 he
    exact (hm.key_eq_of_get? (rule_eq_ok_iff.1 hr)).symm.trans (namedStrength_eq_ok_iff.1 hstrength).2
  have hkeys : names = pairs.map Prod.fst := by
    simpa using map_eq_map_of_ok (g := id) (fun n e => hname) (listMapM_eq_ok_iff.1 hpairs)
  have hvalues : ∀ e ∈ pairs, m.strengthOf? e.1 = some e.2 := by
    intro e he
    obtain ⟨n, -, hn⟩ := exists_mem_of_listMapM hpairs he
    obtain rfl := hname hn
    exact (strengthOf?_eq_some_iff hm).2 hn
  refine ⟨by rw [Registry.names_ofList, hkeys], fun n => ?_⟩
  rw [Registry.get?_ofList hvalues, ← hkeys]

variable (hruns : ∀ r ∈ m.rules.objects, m.Runs r)

include hruns

omit hm in
theorem exists_strengthOf? {name : String} (hname : m.rules.contains name = true) :
    ∃ x, m.strengthOf? name = some x := by
  obtain ⟨r, hr⟩ := Option.isSome_iff_exists.1 hname
  obtain ⟨x, hx⟩ := (hruns r (Registry.mem_objects_of_get? hr)).exists_strength
  exact ⟨x, strengthOf?_eq hr hx⟩

theorem exists_firingStrengths {names : List String}
    (hnames : ∀ n ∈ names, m.rules.contains n = true) :
    ∃ strengths, m.firingStrengths (some names) = .ok strengths := by
  have hstep : ∀ n ∈ names, ∃ e, (m.rule n >>= m.namedStrength) = .ok e := by
    intro n hn
    obtain ⟨x, hx⟩ := exists_strengthOf? hruns (hnames n hn)
    exact ⟨(n, x), (strengthOf?_eq_some_iff hm).1 hx⟩
  obtain ⟨pairs, hpairs⟩ := exists_listMapM_eq_ok_iff.2 hstep
  exact ⟨_, firingStrengths_some_eq_ok_iff.2 ⟨pairs, hpairs, rfl⟩⟩

/-- The strengths are refused because of the first name that is not that of a rule, and only because
of one. -/
theorem firingStrengths_eq_error_iff {names : List String} {e : ModelError α} :
    m.firingStrengths (some names) = .error e ↔
      ∃ n, names.find? (fun n => !m.rules.contains n) = some n ∧ e = .unknownRule n := by
  cases hfind : names.find? fun n => !m.rules.contains n with
  | none =>
      rw [List.find?_eq_none] at hfind
      obtain ⟨strengths, hstrengths⟩ :=
        exists_firingStrengths hm hruns fun n hn => by simpa using hfind n hn
      rw [hstrengths]
      simp
  | some n =>
      obtain ⟨hn, before, after, rfl, hbefore⟩ := List.find?_eq_some_iff_append.1 hfind
      have hselected : (before ++ n :: after).mapM m.rule = .error (.unknownRule n) := by
        refine listMapM_eq_error_iff.2 ⟨before, n, after, rfl, fun k hk => ?_, ?_⟩
        · have hsome : m.rules.contains k = true := by simpa using hbefore k hk
          obtain ⟨r, hr⟩ := Option.isSome_iff_exists.1 hsome
          exact ⟨r, rule_eq_ok_iff.2 hr⟩
        · have hnone : m.rules.get? n = none := by simpa [Registry.contains] using hn
          rw [rule, hnone]
      have herror : m.firingStrengths (some (before ++ n :: after)) = .error (.unknownRule n) :=
        bind_eq_error_iff.2 (.inl hselected)
      rw [herror]
      simp [eq_comm]

end

/-! ## Explanations -/

theorem exists_explain (hruns : ∀ r ∈ m.rules.objects, m.Runs r) (threshold : α) :
    ∃ reports, m.explain threshold = .ok reports := by
  obtain ⟨reports, hreports⟩ :=
    exists_listMapM_eq_ok_iff.2 fun r hr => (hruns r hr).exists_ruleReport threshold
  exact ⟨_, bind_eq_ok_iff.2 ⟨reports, hreports, rfl⟩⟩

/-- The rules that are reported are those that are not too weak, in order, and every report is
true. -/
theorem explain_eq_ok (hm : m.rules.Keyed FuzzyLogic.Rule.name) {reports : List (RuleReport α)}
    (h : m.explain threshold = .ok reports) :
    reports.map RuleReport.rule
        = m.rules.objects.filter (fun r => (m.strengthOf? r.name).any fun x => ¬ x < threshold) ∧
      ∀ report ∈ reports, report.rule ∈ m.rules.objects ∧
        m.strengthOf? report.rule.name = some report.strength ∧ m.ReportedRule report := by
  obtain ⟨reports?, hreports, hfilter⟩ := bind_eq_ok_iff.1 h
  obtain rfl := pure_eq_ok_iff.1 hfilter
  refine ⟨?_, fun report hreport => ?_⟩
  · have hall := (List.forall₂_and_left _ _).2
      ⟨fun r hr => hm.get?_of_mem_objects hr, forall₂_of_listMapM hreports⟩
    refine map_filterMap_of_forall₂ (hall.imp fun r report? hr => ?_)
    obtain ⟨hget, hreport⟩ := hr
    obtain ⟨x, hx, ⟨hlt, rfl⟩ | ⟨hlt, antecedent, -, rfl⟩⟩ := ruleReport_eq_ok_iff.1 hreport
    · simp [strengthOf?_eq hget hx, hlt]
    · simp [strengthOf?_eq hget hx, hlt]
  · have hsome : some report ∈ reports? := by simpa using hreport
    obtain ⟨r, hr, hrule⟩ := exists_mem_of_listMapM hreports hsome
    obtain ⟨rfl, hx, -, hreported⟩ := reportedRule_of_ruleReport hrule
    exact ⟨hr, strengthOf?_eq (hm.get?_of_mem_objects hr) hx, hreported⟩

end Model

/-- The names in a report on a clause. -/
def ClauseReport.naming (report : ClauseReport α) : Naming :=
  ⟨report.subject, report.label⟩

theorem Model.ReportedRule.naming_eq {m : Model α} {report : RuleReport α}
    (h : m.ReportedRule report) :
    report.rule.program.operands.map ModelClause.naming
      = report.antecedent.map ClauseReport.naming := by
  have heq : List.Forall₂ Eq (report.rule.program.operands.map ModelClause.naming)
      (report.antecedent.map ClauseReport.naming) := by
    refine List.forall₂_map_left_iff.2 (List.forall₂_map_right_iff.2 ?_)
    exact h.clauses.imp fun c report hreport =>
      Naming.ext hreport.subject_eq.symm hreport.label_eq.symm
  rwa [List.forall₂_eq_eq_eq] at heq

/-! ## Sessions -/

namespace Session

open Model

variable {start m : Model Float} {past : List (Model Float)}

/-- Every rule of a session has a value in the model that the session has come to. -/
theorem runs (hstart : start.Fresh) (h : Session Operation.Shaped start past m) :
    ∀ r ∈ m.rules.objects, m.Runs r := by
  intro r hr
  have hsound := h.all_sound hstart
  have hm := hsound m List.mem_cons_self
  obtain ⟨u, hu, hcompiled⟩ := h.known_of_mem_rules hstart.start.compiles r hr
  have hkeeps : u.Keeps m :=
    h.related .refl .trans keeps_of_change (fun _ _ _ => trivial : ∀ o, _ → _ → True) u hu
  have hrule := soundRule_of_compiles (hsound u hu) hm hkeeps hcompiled
  refine ⟨hrule.program, fun c hc => ?_⟩
  -- The label was one of the variable when the rule was compiled.
  obtain ⟨subject, label, hnames⟩ := named_of_operands hcompiled c hc
  obtain ⟨v, hv, hlabel⟩ := Option.bind_eq_some_iff.1 hnames.labelOf_eq
  have hordered := h.all_ordered hstart u hu c.subject v hv c.label
    (Registry.mem_objects_of_get? hlabel)
  obtain ⟨w, hw, -, hsoundw⟩ := hrule.clauses c (.inr hc)
  obtain ⟨d, hd⟩ := Label.exists_membership hordered hsoundw.defined
  exact ⟨d, by rw [degree, hw]; exact hd⟩

/-- **The strengths and the explanations of a rulebase tell one story.** In every model that a session
has come to, all rules have a strength. For every threshold those that are not below it are
explained, in order, with this strength; the clauses that are listed are those of the rule's text from
left to right, with the inputs of their variables and the degrees at these inputs, and the operators
of the rule make the strength of these degrees. Asking for the strengths of some rules by name gives
those that all rules have, in the order in which the names come first, and it is refused exactly if a
name is not that of a rule, because of the first such name. -/
theorem reports_agree (hstart : start.Fresh) (h : Session Operation.Shaped start past m) :
    ∃ strengths, m.firingStrengths none = .ok strengths ∧ strengths.names = m.rules.names ∧
      (∀ threshold, ∃ reports, m.explain threshold = .ok reports ∧
        reports.map RuleReport.rule = m.rules.objects.filter
          (fun r => (strengths.get? r.name).any fun x => ¬ x < threshold) ∧
        ∀ report ∈ reports, strengths.get? report.rule.name = some report.strength ∧
          m.ReportedRule report ∧
          ∃ a : Antecedent Naming,
            RuleSpelled Naming.Written a report.rule.output.naming (tokenize report.rule.text) ∧
              a.clauses = report.antecedent.map ClauseReport.naming) ∧
      ∀ names,
        (∀ e, m.firingStrengths (some names) = .error e ↔
          ∃ n, names.find? (fun n => !m.rules.contains n) = some n ∧ e = .unknownRule n) ∧
        ∀ part, m.firingStrengths (some names) = .ok part →
          part.names = names.eraseDups ∧ ∀ n ∈ names, part.get? n = strengths.get? n := by
  have hruns := h.runs hstart
  have hm := h.all_sound hstart m List.mem_cons_self
  have hrules := hm.rules
  obtain ⟨strengths, hstrengths⟩ := exists_firingStrengths hrules hruns
    fun n hn => Registry.contains_iff_mem_names.2 hn
  obtain ⟨hnames, hget⟩ := firingStrengths_some hrules hstrengths
  have hall : strengths.get? = m.strengthOf? := by
    funext n
    rw [hget]
    split
    · rfl
    · next hn => rw [strengthOf?_eq_none hn]
  refine ⟨strengths, ?_, ?_, fun threshold => ?_, fun names => ⟨fun e => ?_, fun part hpart => ?_⟩⟩
  · rw [firingStrengths_none hrules, hstrengths]
  · rw [hnames, hrules.eraseDups_names]
  · obtain ⟨reports, hreports⟩ := exists_explain hruns threshold
    obtain ⟨hrulesReported, htrue⟩ := explain_eq_ok hrules hreports
    rw [hall]
    refine ⟨reports, hreports, hrulesReported, fun report hreport => ?_⟩
    obtain ⟨hrule, hstrength, hreported⟩ := htrue report hreport
    refine ⟨hstrength, hreported, ?_⟩
    -- The clauses of the text are those of the program, since the rule was compiled from it.
    obtain ⟨u, hu, hcompiled⟩ := h.known_of_mem_rules hstart.start.compiles report.rule hrule
    obtain ⟨a, hspelled, hclauses⟩ := (h.all_sound hstart u hu).exists_written hcompiled
    exact ⟨a, hspelled, hclauses.trans hreported.naming_eq⟩
  · exact firingStrengths_eq_error_iff hrules hruns
  · obtain ⟨hpartNames, hpartGet⟩ := firingStrengths_some hrules hpart
    refine ⟨hpartNames, fun n hn => ?_⟩
    rw [hpartGet, if_pos hn, hall]

end Session

/-- A kettle with two rules, of which the second holds to a lower degree. -/
def Model.kettle : Model Float :=
  Operation.performAll (.empty "hamacher" "bsum")
    [.addVariable "Heat" 0 100, .addLabel ⟨0, "Heat"⟩ "low" (.leftShoulder 20 60),
      .addLabel ⟨0, "Heat"⟩ "high" (.triangle 40 90 90), .addVariable "Steam" 0 10,
      .addLabel ⟨1, "Steam"⟩ "thick" (.rightShoulder 4 8), .setInput ⟨0, "Heat"⟩ 55,
      .setInput ⟨1, "Steam"⟩ 7,
      .newRule "R1" "IF Heat is high AND (Steam is thick OR Heat is low) THEN Steam is thick",
      .newRule "R2" "IF Heat is low THEN Steam is thick"]

theorem Session.reports_agree_kettle :
    ∃ strengths reports part, Model.kettle.firingStrengths none = .ok strengths ∧
      Model.kettle.explain 0.2 = .ok reports ∧
      reports.map (fun report => (report.rule.name, report.antecedent.map ClauseReport.naming))
        = [("R1", [⟨"Heat", "high"⟩, ⟨"Steam", "thick"⟩, ⟨"Heat", "low"⟩])] ∧
      (∀ report ∈ reports, strengths.get? report.rule.name = some report.strength ∧
        Model.kettle.ReportedRule report) ∧
      Model.kettle.firingStrengths (some ["R2", "R1", "R2"]) = .ok part ∧
      part.names = ["R2", "R1"] ∧ part.get? "R1" = strengths.get? "R1" ∧
      Model.kettle.firingStrengths (some ["R1", "R9", "R8"]) = .error (.unknownRule "R9") := by
  have hlow : (20 : Float) < 60 := by decide +kernel
  have hhigh : (40 : Float) ≤ 90 ∧ (90 : Float) ≤ 90 := by decide +kernel
  have hthick : (4 : Float) < 8 := by decide +kernel
  have hsession : Session Operation.Shaped (.empty "hamacher" "bsum") [_, _, _, _, _, _, _, _, _]
      Model.kettle :=
    .step (.step (.step (.step (.step (.step (.step (.step (.step .start
      (.addVariable "Heat" 0 100) trivial trivial)
      (.addLabel ⟨0, "Heat"⟩ "low" (.leftShoulder 20 60)) hlow trivial)
      (.addLabel ⟨0, "Heat"⟩ "high" (.triangle 40 90 90)) hhigh trivial)
      (.addVariable "Steam" 0 10) trivial trivial)
      (.addLabel ⟨1, "Steam"⟩ "thick" (.rightShoulder 4 8)) hthick trivial)
      (.setInput ⟨0, "Heat"⟩ 55) trivial trivial)
      (.setInput ⟨1, "Steam"⟩ 7) trivial trivial)
      (.newRule "R1" "IF Heat is high AND (Steam is thick OR Heat is low) THEN Steam is thick")
        trivial trivial)
      (.newRule "R2" "IF Heat is low THEN Steam is thick") trivial trivial
  obtain ⟨strengths, hstrengths, -, hexplain, hnamed⟩ :=
    hsession.reports_agree (.empty "hamacher" "bsum")
  obtain ⟨reports, hreports, -, htrue⟩ := hexplain 0.2
  have hwritten : (Model.kettle.explain 0.2).toOption.map
      (List.map fun report => (report.rule.name, report.antecedent.map ClauseReport.naming))
        = some [("R1", [⟨"Heat", "high"⟩, ⟨"Steam", "thick"⟩, ⟨"Heat", "low"⟩])] := by
    decide +kernel
  rw [hreports] at hwritten
  have hsome : (Model.kettle.firingStrengths (some ["R2", "R1", "R2"])).toOption.isSome = true := by
    decide +kernel
  obtain ⟨part, hpart⟩ := Option.isSome_iff_exists.1 hsome
  rw [toOption_eq_some_iff] at hpart
  obtain ⟨hnames, hget⟩ := (hnamed ["R2", "R1", "R2"]).2 part hpart
  have hunknown : ["R1", "R9", "R8"].find? (fun n => !Model.kettle.rules.contains n)
      = some "R9" := by
    decide +kernel
  exact ⟨strengths, reports, part, hstrengths, hreports, Option.some.inj hwritten,
    fun report hreport => ⟨(htrue report hreport).1, (htrue report hreport).2.1⟩, hpart,
    hnames.trans (by decide), hget "R1" (by decide),
    ((hnamed ["R1", "R9", "R8"]).1 _).2 ⟨"R9", hunknown, rfl⟩⟩

end FuzzyLogic
