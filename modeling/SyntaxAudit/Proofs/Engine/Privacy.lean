import SyntaxAudit.Proofs.Engine.Parts
import SyntaxAudit.Proofs.Registry.Effect

/-! The options of a rule are its own. Configurations that differ in the options of one name leave
the same rules behind but for the settings of the first rule of that name. No other rule reports
anything else, and whether the rules compile does not depend on options at all. -/
namespace SyntaxAudit
open Rules

inductive AlikeBut {α β : Type} (view : α → β) (kind : β → Prop) : List α → List α → Prop where
  | nil : AlikeBut view kind [] []
  | first {x x' rest} (own : kind (view x)) (same : view x' = view x) :
      AlikeBut view kind (x :: rest) (x' :: rest)
  | other {x rest rest'} (apart : ¬ kind (view x)) (tail : AlikeBut view kind rest rest') :
      AlikeBut view kind (x :: rest) (x :: rest')

section Alike
variable {α β γ δ : Type} {view : α → β} {kind : β → Prop} {xs ys : List α}

theorem alikeRefl (xs : List α) : AlikeBut view kind xs xs := by
  induction xs with
  | nil => exact .nil
  | cons x rest ih =>
    by_cases own : kind (view x)
    · exact .first own rfl
    · exact .other own ih

theorem alikeView (alike : AlikeBut view kind xs ys) : ys.map view = xs.map view := by
  induction alike with
  | nil => rfl
  | first own same => simp only [List.map_cons, same]
  | other apart tail ih => simp only [List.map_cons, ih]

theorem alikeFilter (alike : AlikeBut view kind xs ys) (keep : β → Bool) :
    AlikeBut view kind (xs.filter fun x => keep (view x)) (ys.filter fun x => keep (view x)) := by
  induction alike with
  | nil => exact .nil
  | @first x x' rest own same =>
    rw [List.filter_cons, List.filter_cons, same]
    split
    · exact .first own same
    · exact alikeRefl _
  | @other x rest rest' apart tail ih =>
    rw [List.filter_cons, List.filter_cons]
    split
    · exact .other apart ih
    · exact ih

theorem alikeMap {view' : γ → δ} {kind' : δ → Prop} (alike : AlikeBut view kind xs ys)
    (f : α → γ) (g : β → δ) (views : ∀ x, view' (f x) = g (view x))
    (kinds : ∀ b, kind' (g b) ↔ kind b) : AlikeBut view' kind' (xs.map f) (ys.map f) := by
  induction alike with
  | nil => exact .nil
  | first own same =>
    refine .first ?_ ?_
    · rw [views, kinds]
      exact own
    · rw [views, views, same]
  | other apart tail ih =>
    refine .other ?_ ih
    rw [views, kinds]
    exact apart

end Alike

def SameBut (name : String) : List Rule → List Rule → Prop :=
  AlikeBut Rule.bare fun r => r.name = name

def PartsBut {α : Type} (name : String) :
    List (String × Contribution α) → List (String × Contribution α) → Prop :=
  AlikeBut Prod.fst fun n => n = name

theorem sameButOfPositions {name : String} {xs ys : List Rule}
    (bare : ys.map Rule.bare = xs.map Rule.bare)
    (others : ∀ i, ¬ ((names xs)[i]? = some name ∧ Leads (names xs) i) → ys[i]? = xs[i]?) :
    SameBut name xs ys := by
  induction xs generalizing ys with
  | nil =>
    rw [List.map_eq_nil_iff.mp bare]
    exact .nil
  | cons x rest ih =>
    cases ys with
    | nil => cases bare
    | cons y rest' =>
      rw [List.map_cons, List.map_cons, List.cons.injEq] at bare
      by_cases own : x.name = name
      -- Behind a head of that name no position of the name leads, so the rest has to agree.
      · have tails : rest' = rest := by
          apply List.ext_getElem?
          intro i
          refine others (i + 1) fun first => ?_
          have apart := ((leadsSucc x.name (names rest) i).mp first.2).1
          exact apart (own ▸ first.1)
        rw [tails]
        exact .first own bare.1
      · have heads : y = x := by
          have head := others 0 fun first => own (Option.some.inj first.1)
          exact Option.some.inj head
        rw [heads]
        refine .other own (ih bare.2 fun i later => others (i + 1) fun first => later ⟨first.1, ?_⟩)
        exact ((leadsSucc x.name (names rest) i).mp first.2).2

theorem Rule.equalOfBare {r s : Rule} (bare : r.bare = s.bare) (settings : r.settings = s.settings) :
    r = s := by
  obtain ⟨⟨metadata, own⟩, hooks⟩ := r
  obtain ⟨⟨metadata', own'⟩, hooks'⟩ := s
  cases bare
  cases settings
  rfl

theorem writtenAlike {r : Rule} {ws ws' : List (String × String × OptionValue)}
    (same : ∀ key, lastWrite ws' r.name key = lastWrite ws r.name key) :
    r.written ws' = r.written ws := by
  apply Rule.equalOfBare
  · rw [Rule.writtenView Rule.steadyBare, Rule.writtenView Rule.steadyBare]
  · apply Settings.equalOfGet
    intro key
    rw [Rule.writtenGet, Rule.writtenGet, same]

structure RulesConfig.AgreesBut (name : String) (c c' : RulesConfig) : Prop where
  enabled : c'.enabled = c.enabled
  disabled : c'.disabled = c.disabled
  priority : c'.priority = c.priority
  custom : c'.custom = c.custom
  options : ∀ other, other ≠ name → ∀ key, c'.option? other key = c.option? other key

section Agreeing
variable {name : String} {c c' : RulesConfig}

theorem configureSameBut (agree : c.AgreesBut name c') (g : Registry) :
    SameBut name (g.configure c).rules (g.configure c').rules := by
  have start : (g.joined c').rules = (g.joined c).rules := by
    simp only [Registry.joined, Registry.brought, agree.custom]
  have kept : names (g.configure c).rules = names (g.joined c).rules :=
    g.configureView Rule.steadyName c
  apply sameButOfPositions
  · rw [g.configureView Rule.steadyBare c', g.configureView Rule.steadyBare c, start]
  · intro i later
    rw [kept] at later
    rw [Registry.configureEq, Registry.configureEq, Registry.writesAt, Registry.writesAt, start]
    cases found : (g.joined c).rules[i]? with
    | none => rfl
    | some r =>
      by_cases leads : Leads (names (g.joined c).rules) i
      · have apart : r.name ≠ name := by
          intro own
          exact later ⟨by simp [names, found, own], leads⟩
        simp only [Option.map_some, if_pos leads, writtenAlike (agree.options r.name apart)]
      · simp only [Option.map_some, if_neg leads]

theorem enabledSameBut (agree : c.AgreesBut name c') (g : Registry) :
    SameBut name (g.configure c).enabledRules (g.configure c').enabledRules := by
  have permits : c'.Permits = c.Permits := by
    funext n
    simp only [RulesConfig.Permits, agree.enabled, agree.disabled]
  have rules := alikeFilter (configureSameBut agree g) fun r => c.Permits r.name
  rw [Registry.enabledConfigure, Registry.enabledConfigure]
  simp only [permits]
  exact rules

end Agreeing

theorem buildCompiled (compilers : Compilers) (g : Registry) :
    (Engine.build compilers g).map Engine.compiled =
      (g.enabledRules.map Rule.bare).mapM (CompiledRule.compile compilers) := by
  rw [buildOutcome, List.mapM_map]
  rfl

/- Whether a rule runs is decided by its name, so the first of a name that runs is the first of
that name. -/
theorem optionsStayPrivate (compilers : Compilers) (g : Registry) {name : String}
    {c c' : RulesConfig} (agree : c.AgreesBut name c') :
    SameBut name (g.configure c).rules (g.configure c').rules ∧
    (Engine.build compilers (g.configure c')).map Engine.compiled =
      (Engine.build compilers (g.configure c)).map Engine.compiled ∧
    (∀ e e', Engine.build compilers (g.configure c) = .ok e →
      Engine.build compilers (g.configure c') = .ok e' → ∀ file,
      PartsBut name (e.scanParts file) (e'.scanParts file) ∧
      PartsBut name (e.measureParts file) (e'.measureParts file)) ∧
    ∀ (e : Engine) file, e.scan file = (Contribution.joined (e.scanParts file)).report file ∧
      e.measure file = ⟨file.name, (Contribution.joined (e.measureParts file)).results,
        (Contribution.joined (e.measureParts file)).faults⟩ := by
  have rules := enabledSameBut agree g
  refine ⟨configureSameBut agree g, ?_, fun e e' built built' file => ⟨?_, ?_⟩,
    fun e file => ⟨e.scanJoined file, e.measureJoined file⟩⟩
  · rw [buildCompiled, buildCompiled, alikeView rules]
  · have overrides : (g.configure c').overrides = (g.configure c).overrides := by
      rw [(g.configureLists c').2.2, (g.configureLists c).2.2, agree.priority]
    rw [scanPartsOwn built, scanPartsOwn built', scanRuleOverrides overrides]
    exact alikeMap rules _ Rule.name (fun r => rfl) fun r => Iff.rfl
  · rw [measurePartsOwn built, measurePartsOwn built']
    exact alikeMap rules _ Rule.name (fun r => rfl) fun r => Iff.rfl

theorem optionsStayPrivateNamesakes :
    let compilers : Compilers := ⟨fun _ _ => .error "", fun _ => .error ""⟩
    let tagged (name : String) : Rule :=
      { metadata := { name, context := .scanning }
        hooks :=
          { validateNode := fun p _ n =>
              .ok [(Finding.ofRule p.metadata n).withMessage (p.settings.get "tag")] } }
    let g : Registry := { rules := [tagged "a", tagged "a", tagged "b"] }
    let c : RulesConfig :=
      { options := [("a", [("tag", .string "1")]), ("b", [("tag", .string "2")])] }
    let c' : RulesConfig :=
      { options := [("b", [("tag", .string "2")]), ("a", [("tag", .string "3")])] }
    let row : Row := ⟨none, "module", true, false, false, false, 0, 1, none⟩
    let file : SourceFile := ⟨"a.py", .python, ⟨"x", #[row], [], by decide⟩⟩
    ∃ e e', Engine.build compilers (g.configure c) = .ok e ∧
      Engine.build compilers (g.configure c') = .ok e' ∧
      (e.scan file).results.map Finding.message = ["1", "", "2"] ∧
      (e'.scan file).results.map Finding.message = ["3", "", "2"] ∧
      PartsBut "a" (e.scanParts file) (e'.scanParts file) ∧
      e.scan file = (Contribution.joined (e.scanParts file)).report file ∧
      e'.scan file = (Contribution.joined (e'.scanParts file)).report file := by
  intro compilers tagged g c c' row file
  have agree : c.AgreesBut "a" c' := by
    refine ⟨rfl, rfl, rfl, rfl, fun other apart key => ?_⟩
    have left : c.writes = [("a", "tag", .string "1")] ++ [("b", "tag", .string "2")] := rfl
    have right : c'.writes = [("b", "tag", .string "2")] ++ [("a", "tag", .string "3")] := rfl
    simp only [RulesConfig.option?, left, right, lastWriteAppend, lastWriteSingle,
      Ne.symm apart, false_and, if_false, Option.none_or, Option.or_none]
  obtain ⟨e, built⟩ : ∃ e, Engine.build compilers (g.configure c) = .ok e := ⟨_, rfl⟩
  obtain ⟨e', built'⟩ : ∃ e', Engine.build compilers (g.configure c') = .ok e' := ⟨_, rfl⟩
  obtain ⟨_, _, parts, joined⟩ := optionsStayPrivate compilers g agree
  refine ⟨e, e', built, built', ?_, ?_, (parts e e' built built' file).1, (joined e file).1,
    (joined e' file).1⟩
  · cases built
    decide +kernel
  · cases built'
    decide +kernel

end SyntaxAudit
