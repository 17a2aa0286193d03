import BasicScript.Proofs.Calls.Resolution
import BasicScript.Proofs.Defaults.Order
import BasicScript.Proofs.Stores.Assignment
import BasicScript.Proofs.Types.Literal

/-! # The text of a composite

A composite has the text that the sub `stringify` gives to it, if an overload
of that name is visible, and only else the form in which it is displayed, if
that has an end. The test is one for the name: whether an overload takes the
composite is decided by the call, and where none does there is no text.
-/

namespace BasicScript

namespace Sub

variable {accepts : Sub → Prop} {subs before after : List Sub} {sub other : Sub}

/-- Only overloads that meet the condition count. -/
theorem preferred_filter [DecidablePred accepts] (subs : List Sub) :
    Preferred accepts (subs.filter fun sub => accepts sub) sub ↔ Preferred accepts subs sub := by
  constructor
  · intro h
    have hboth := h.of_filter
    simpa only [decide_eq_true_eq, and_self] using hboth
  · intro h
    obtain ⟨earlier, later, rfl, hearlier, hlater⟩ := h.split
    refine ⟨h.accepts_self, earlier.filter fun sub => accepts sub,
      later.filter fun sub => accepts sub, ?_, fun o ho => ?_, fun o ho => ?_⟩
    · rw [List.filter_append, List.filter_cons_of_pos (by simpa using h.accepts_self)]
    · exact hearlier o (List.mem_filter.mp ho).1
    · exact hlater o (List.mem_filter.mp ho).1

/-- An overload that does not meet the condition changes nothing, wherever it stands. -/
theorem preferred_insert (hother : ¬ accepts other) :
    Preferred accepts (before ++ other :: after) sub ↔ Preferred accepts (before ++ after) sub := by
  classical
  rw [← preferred_filter (before ++ other :: after), ← preferred_filter (before ++ after),
    List.filter_append, List.filter_append, List.filter_cons_of_neg (by simpa using hother)]

end Sub

/-- A composite type takes the composites of its name and no others. -/
theorem Ty.accepts_data {name : String} {σ : Store} {d : DataDecl} {cells : List CellId} :
    (Ty.data name).Accepts σ (.data d cells) ↔ d.name = name := by
  constructor
  · rintro ⟨w, σ', h⟩
    obtain ⟨hresult, hcheck⟩ := conform_ok.mp h
    cases hresult
    by_contra hne
    exact nomatch hcheck.symm.trans (if_neg hne)
  · intro h
    exact ⟨_, σ, conform_ok.mpr ⟨rfl, if_pos h⟩⟩

/-- An overload with one parameter of a composite type takes no composites but those of the type. -/
theorem Sub.accepts_data {sub : Sub} {p : Parameter} {name : String} {σ : Store} {d : DataDecl}
    {cells : List CellId} (hparams : sub.params = [p]) (hp : p.type = .data name)
    (h : sub.Accepts σ [.data d cells]) : d.name = name := by
  have hvararg : sub.vararg? = none := by
    simp [vararg?, hparams, Parameter.isVararg, hp]
  have hfixed : sub.fixed[0]? = some p := by
    simp [fixed, hvararg, hparams]
  have haccepts : p.type.Accepts σ (.data d cells) := h.fixed 0 p hfixed _ rfl rfl
  rw [hp] at haccepts
  exact Ty.accepts_data.mp haccepts

theorem Store.typeOf?_data {name : String} {σ : Store} {v : Value}
    (h : σ.typeOf? v = some (.data name)) : ∃ d cells, v = .data d cells ∧ d.name = name := by
  cases v with
  | data d cells => exact ⟨d, cells, rfl, Ty.data.inj (Option.some.inj h)⟩
  | _ => cases h

namespace Environment

variable {env : Environment} {name : String}

theorem hasSub_iff : env.hasSub name = true ↔ env.overloads name ≠ [] := by
  unfold hasSub overloads Scope.overloads
  simp only [List.any_eq_true, ne_eq, List.flatMap_eq_nil_iff, List.filter_eq_nil_iff]
  push Not
  rfl

/-- A new overload has its place among those that are visible, if it is visible itself. -/
theorem overloads_addSub (hpath : ScopePath.Outward env.current)
    (hcurrent : env.currentId.index < env.scopes.size) (sub : Sub) :
    (env.current = [] ∧ (env.addSub sub).overloads sub.name = env.overloads sub.name) ∨
      ∃ before after, env.overloads sub.name = before ++ after ∧
        (env.addSub sub).overloads sub.name = before ++ sub :: after := by
  cases hids : env.current with
  | nil =>
    refine .inl ⟨rfl, ?_⟩
    show env.current.flatMap _ = env.current.flatMap _
    rw [hids, List.flatMap_nil, List.flatMap_nil]
  | cons id rest =>
    right
    obtain rfl : env.currentId = id := by rw [currentId, hids, List.headD_cons]
    have hhere := scope_modifyCurrent hcurrent fun sc => { sc with subs := sc.subs ++ [sub] }
    have hrest : ∀ other ∈ rest, (env.addSub sub).scope other = env.scope other := by
      intro other hother
      rw [hids] at hpath
      exact scope_modifyCurrent_of_ne ((List.pairwise_cons.mp hpath).1 other hother).ne
    refine ⟨env.currentScope.overloads sub.name,
      rest.flatMap fun id => (env.scope id).overloads sub.name, ?_, ?_⟩
    · rw [overloads, hids, List.flatMap_cons]
      rfl
    · show env.current.flatMap (fun id => ((env.addSub sub).scope id).overloads sub.name) = _
      rw [hids, List.flatMap_cons,
        List.flatMap_congr fun other hother => by rw [hrest other hother], addSub, hhere,
        Scope.overloads, List.filter_append, List.append_assoc,
        List.filter_cons_of_pos (by simp)]
      rfl

end Environment

namespace Evaluator

variable {s t : State} {values : List Value}

/-- Where an overload is visible, the call of the name has an outcome. -/
theorem resolves {name : String} (hvisible : s.env.overloads name ≠ []) (hσ : s.store.Closed)
    (hvalues : ∀ v ∈ values, s.store.Within v) :
    ∃ outcome : Resolution, outcome.Decides s name values ∧ outcome ≠ .undeclared ∧
      ∀ r : Evaluator, r.resolveOverload name (values.map .ready) s = outcome.finish name r s := by
  have hrun := fittingOverloads_run name values.length s
  rw [if_neg hvisible] at hrun
  have hresolve : ∀ r : Evaluator, r.resolveOverload name (values.map .ready) s =
      (fittingOverloads name values.length >>= r.firstAccepting name (values.map .ready)) s := by
    intro r
    rw [resolveOverload, List.length_map]
  by_cases hfit : (s.env.overloads name).filter (·.fits values.length) = []
  · rw [if_pos hfit] at hrun
    refine ⟨.unresolvedPositions, Resolution.decides_positions hvisible fun sub hsub => ?_, by simp,
      fun r => (hresolve r).trans (Run.bind_error hrun _)⟩
    exact Bool.eq_false_of_not_eq_true (List.filter_eq_nil_iff.mp hfit sub hsub)
  rw [if_neg hfit] at hrun
  have hfirst := fun r : Evaluator =>
    (hresolve r).trans (Run.bind_ok hrun (r.firstAccepting name (values.map .ready)))
  rcases firstAccepting_values name _ hσ hvalues with
    ⟨before, sub, after, slots, σ, hsplit, hbefore, hsub, hadds, hbinds, hchosen⟩ |
    ⟨hnone, σ, hadds, htypes⟩
  · exact ⟨.chosen sub slots σ, Resolution.decides_chosen hadds hbinds
      (Sub.byArity_preferred hsplit hbefore hsub).of_filter, by simp,
      fun r => (hfirst r).trans (hchosen r)⟩
  · obtain ⟨sub, hsub⟩ := List.exists_mem_of_ne_nil _ hfit
    refine ⟨.unresolvedTypes σ, Resolution.decides_types hadds ⟨sub, List.mem_filter.mp hsub⟩
      fun sub hsub hfits => ?_, by simp, fun r => (hfirst r).trans (htypes r)⟩
    exact hnone sub (Sub.mem_byArity.mpr (List.mem_filter.mpr ⟨hsub, hfits⟩))

end Evaluator

namespace Resolution

/-- What `stringify` makes of a composite: its display form where the name is undeclared, and
elsewhere what the call makes of it. -/
def stringify (r : Evaluator) (v : Value) (span : Span) : Resolution → Run Value
  | undeclared => do return .string (← Run.text v)
  | outcome => Run.atSpan span do
    let (sub, bound) ← outcome.finish "stringify" r
    r.callSub sub bound .nowhere

variable {outcome outcome' : Resolution} {s t : State} {name : String} {values : List Value}

theorem stringify_declared (h : outcome ≠ .undeclared) (r : Evaluator) (v : Value) (span : Span) :
    outcome.stringify r v span = Run.atSpan span (outcome.finish "stringify" r >>= fun choice =>
      r.callSub choice.1 choice.2 .nowhere) := by
  cases outcome with
  | undeclared => exact absurd rfl h
  | _ => rfl

/-- An overload is chosen if and only if one accepts the values. -/
theorem Decides.chosen_iff (h : outcome.Decides s name values) :
    (∃ sub slots σ, outcome = .chosen sub slots σ) ↔
      ∃ sub ∈ s.env.overloads name, sub.fits values.length = true ∧ sub.Accepts s.store values := by
  constructor
  · rintro ⟨sub, hchosen⟩
    have hpreferred := (h.chosen sub).mp hchosen
    exact ⟨sub, hpreferred.mem, hpreferred.accepts_self⟩
  · rintro ⟨sub, hsub, hfits, haccepts⟩
    cases outcome with
    | undeclared =>
      exact absurd (overloads_nil.mpr (h.undeclared.mp rfl)) (List.ne_nil_of_mem hsub)
    | unresolvedPositions => cases ((h.positions.mp rfl).2 sub hsub).symm.trans hfits
    | unresolvedTypes σ => exact absurd haccepts ((h.types.mp ⟨σ, rfl⟩).2 sub hsub hfits)
    | chosen sub slots σ => exact ⟨sub, slots, σ, rfl⟩

/-- Where the name is undeclared, or the number of values is the fault, no overload takes so many
values. -/
theorem Decides.unfit (h : outcome.Decides s name values)
    (hfault : outcome = .undeclared ∨ outcome = .unresolvedPositions) :
    ∀ sub ∈ s.env.overloads name, sub.fits values.length = false := by
  rcases hfault with hfault | hfault
  · rw [overloads_nil.mpr (h.undeclared.mp hfault)]
    exact List.forall_mem_nil _
  · exact (h.positions.mp hfault).2

/-- A further overload that does not accept the values leaves the choice as it is, and the fault
about types too. Where no overload took so many values, it decides alone which fault there is. -/
theorem Decides.addSub (h : outcome.Decides s name values)
    (hpath : ScopePath.Outward s.env.current)
    (hcurrent : s.env.currentId.index < s.env.scopes.size) {other : Sub} (hname : other.name = name)
    (hother : ¬ (other.fits values.length = true ∧ other.Accepts s.store values))
    (h' : outcome'.Decides { s with env := s.env.addSub other } name values) :
    (∀ sub, (∃ slots σ, outcome' = .chosen sub slots σ) ↔
        ∃ slots σ, outcome = .chosen sub slots σ) ∧
      ((∃ σ, outcome = .unresolvedTypes σ) → ∃ σ, outcome' = .unresolvedTypes σ) ∧
      (outcome = .undeclared ∨ outcome = .unresolvedPositions → s.env.current ≠ [] →
        (other.fits values.length = false → outcome' = .unresolvedPositions) ∧
        (other.fits values.length = true → ∃ σ, outcome' = .unresolvedTypes σ)) := by
  subst hname
  have hnew : (∀ sub, Sub.Preferred
        (fun sub => sub.fits values.length = true ∧ sub.Accepts s.store values)
        ((s.env.addSub other).overloads other.name) sub ↔
      Sub.Preferred (fun sub => sub.fits values.length = true ∧ sub.Accepts s.store values)
        (s.env.overloads other.name) sub) ∧
      s.env.overloads other.name ⊆ (s.env.addSub other).overloads other.name ∧
      (∀ sub ∈ (s.env.addSub other).overloads other.name,
        sub = other ∨ sub ∈ s.env.overloads other.name) ∧
      (s.env.current ≠ [] → other ∈ (s.env.addSub other).overloads other.name) := by
    rcases Environment.overloads_addSub hpath hcurrent other with
      ⟨hnowhere, hsame⟩ | ⟨before, after, hold, hnew⟩
    · rw [hsame]
      exact ⟨fun _ => Iff.rfl, List.Subset.refl _, fun _ => .inr, fun h => absurd hnowhere h⟩
    · rw [hold, hnew]
      exact ⟨fun sub => Sub.preferred_insert hother, fun sub => by simp +contextual [or_imp],
        fun sub hsub => by simpa [or_left_comm] using hsub, fun _ => by simp⟩
  obtain ⟨hpreferred, hkept, hmem, hvisible⟩ := hnew
  have hnone : (∀ sub ∈ s.env.overloads other.name, sub.fits values.length = true →
      ¬ sub.Accepts s.store values) → ∀ sub ∈ (s.env.addSub other).overloads other.name,
        sub.fits values.length = true → ¬ sub.Accepts s.store values := by
    intro hold sub hsub hfits haccepts
    rcases hmem sub hsub with rfl | hsub
    · exact hother ⟨hfits, haccepts⟩
    · exact hold sub hsub hfits haccepts
  refine ⟨fun sub => (h'.chosen sub).trans ((hpreferred sub).trans (h.chosen sub).symm),
    fun htypes => h'.types.mpr ?_, fun hfault hpath => ⟨fun hfits => ?_, fun hfits => ?_⟩⟩
  · obtain ⟨⟨sub, hsub, hfits⟩, hold⟩ := h.types.mp htypes
    exact ⟨⟨sub, hkept hsub, hfits⟩, hnone hold⟩
  · refine h'.positions.mpr ⟨List.ne_nil_of_mem (hvisible hpath), fun sub hsub => ?_⟩
    rcases hmem sub hsub with rfl | hsub
    · exact hfits
    · exact h.unfit hfault sub hsub
  · refine h'.types.mpr ⟨⟨other, hvisible hpath, hfits⟩, hnone fun sub hsub hfits => ?_⟩
    exact nomatch (h.unfit hfault sub hsub).symm.trans hfits

end Resolution

namespace Evaluator

/-- A composite is given to `stringify` where the name is visible, and displayed elsewhere. -/
theorem expr_stringify {r : Evaluator} {s t : State} {e : Expr} {d : DataDecl}
    {cells : List CellId} (he : r.eval none e s = .ok (.data d cells) t) (hint : Option Ty)
    (span : Span) :
    r.expr hint (.mk (.unary .stringify e) span) s =
      Run.atSpan span (if t.env.hasSub "stringify" then r.invoke "stringify" [.data d cells]
        else do return .string (← Run.text (.data d cells))) t := by
  refine Run.mapReport_congr _ ((Run.bind_ok he _).trans ?_)
  show (do
    if ← Run.read fun s => s.env.hasSub "stringify" then r.invoke "stringify" [.data d cells]
    else do return .string (← Run.text (.data d cells)) : Run Value) t = _
  exact Run.bind_ok rfl _

/-- The form in which a value is displayed comes to an end just where the value has no cycle. -/
theorem display (v : Value) (span : Span) (t : State) :
    let displayed : Run Value := do return .string (← Run.text v)
    Run.atSpan span displayed t = displayed t ∧
      (t.store.Acyclic v → displayed t = .ok (.string (t.store.text v)) t) ∧
      (¬ t.store.Acyclic v → displayed t = .error .outOfFuel t) := by
  intro displayed
  rcases Run.text_cases v t with ⟨hends, htext⟩ | ⟨hends, htext⟩
  · have hrun : displayed t = .ok (.string (t.store.text v)) t := Run.bind_ok htext _
    refine ⟨(Run.atSpan_ok span hrun).trans hrun.symm, fun _ => hrun, fun hcycle => ?_⟩
    exact absurd (Store.textEnds_iff.mp hends) hcycle
  · have hrun : displayed t = .error .outOfFuel t := Run.bind_error htext _
    refine ⟨?_, fun hacyclic => ?_, fun _ => hrun⟩
    · simp only [Run.atSpan, Run.mapReport, hrun, Stop.mapReport]
    · rw [Store.textEnds_iff.mpr hacyclic] at hends
      cases hends

/-- In whatever state a run has come to, a composite is given to the overload of `stringify` that
its call chooses. It is displayed if and only if no overload of the name is visible, and the display
has an end just where the composite has no cycle. Where overloads are visible, and none accepts it,
there is a fault. A further overload that does not accept the composite changes nothing about the
overload that is chosen or a fault about types; where none took one argument, it leads to a fault,
about types if it takes one argument itself and about positions if it does not, as long as there is
a current scope to hold it. -/
theorem stringify_resolves {settings : Settings} {s t : State} (h : s.Amid settings) (fuel : Nat)
    {e : Expr} {d : DataDecl} {cells : List CellId}
    (he : (ofFuel .standard (fuel + 1)).eval none e s = .ok (.data d cells) t) (hint : Option Ty)
    (span : Span) :
    let v := Value.data d cells
    ∃ outcome : Resolution, outcome.Decides t "stringify" [v] ∧
      (ofFuel .standard (fuel + 1)).expr hint (.mk (.unary .stringify e) span) s =
        outcome.stringify (ofFuel .standard fuel) v span t ∧
      (outcome = .undeclared →
        (t.store.Acyclic v → (ofFuel .standard (fuel + 1)).expr hint
          (.mk (.unary .stringify e) span) s = .ok (.string (t.store.text v)) t) ∧
        (¬ t.store.Acyclic v → (ofFuel .standard (fuel + 1)).expr hint
          (.mk (.unary .stringify e) span) s = .error .outOfFuel t)) ∧
      ((∃ sub slots σ, outcome = .chosen sub slots σ) ↔ ∃ sub ∈ t.env.overloads "stringify",
        sub.fits 1 = true ∧ sub.Accepts t.store [v]) ∧
      ∀ other : Sub, other.name = "stringify" →
        ¬ (other.fits 1 = true ∧ other.Accepts t.store [v]) → ∀ outcome' : Resolution,
          outcome'.Decides { t with env := t.env.addSub other } "stringify" [v] →
            (∀ sub, (∃ slots σ, outcome' = .chosen sub slots σ) ↔
              ∃ slots σ, outcome = .chosen sub slots σ) ∧
            ((∃ σ, outcome = .unresolvedTypes σ) → ∃ σ, outcome' = .unresolvedTypes σ) ∧
            (outcome = .undeclared ∨ outcome = .unresolvedPositions → t.env.current ≠ [] →
              (other.fits 1 = false → outcome' = .unresolvedPositions) ∧
              (other.fits 1 = true → ∃ σ, outcome' = .unresolvedTypes σ)) := by
  intro v
  have hframe : Frame False s t := ((ofFuel_precedes_self (c := False) Library.standard_framed
    (fuel + 1)).eval none e).frame_ok he
  have hpath : ScopePath.Outward t.env.current := hframe.current ▸ h.nested.current.1
  have hcurrent := hframe.currentId_lt h.nested.currentId_lt
  obtain ⟨htyped, -, hclaim⟩ := (standard_sound (fuel + 1)).eval none e s h.typed
  rw [Run.state_ok he] at htyped
  have hvalues : ∀ w ∈ [v], t.store.Within w :=
    List.forall_mem_singleton.mpr (hclaim v t he).within
  suffices houtcome : ∃ outcome : Resolution, outcome.Decides t "stringify" [v] ∧
      (ofFuel .standard (fuel + 1)).expr hint (.mk (.unary .stringify e) span) s =
        outcome.stringify (ofFuel .standard fuel) v span t by
    obtain ⟨outcome, hdecides, hrun⟩ := houtcome
    refine ⟨outcome, hdecides, hrun, ?_, hdecides.chosen_iff,
      fun other hname hother outcome' => hdecides.addSub hpath hcurrent hname hother⟩
    rintro rfl
    obtain ⟨-, hacyclic, hcyclic⟩ := display v span t
    exact ⟨fun h => hrun.trans (hacyclic h), fun h => hrun.trans (hcyclic h)⟩
  by_cases hvisible : t.env.overloads "stringify" = []
  · refine ⟨.undeclared, Resolution.decides_undeclared hvisible, ?_⟩
    rw [expr_stringify he, if_neg fun h => Environment.hasSub_iff.mp h hvisible]
    exact (display v span t).1
  · obtain ⟨outcome, hdecides, hdeclared, hrun⟩ := resolves hvisible htyped.store.closed hvalues
    refine ⟨outcome, hdecides, ?_⟩
    rw [expr_stringify he, if_pos (Environment.hasSub_iff.mpr hvisible),
      Resolution.stringify_declared hdeclared]
    exact Run.mapReport_congr _ (Run.bind_congr (hrun (ofFuel .standard fuel)) _)

/-- The program `data P { a int }  data Q { a int }  var q as Q = Q { 1 }`. -/
def declaringQ : List Stmt :=
  [.generated (.data "P" [⟨"a", .prim .int, false, none⟩]),
    .generated (.data "Q" [⟨"a", .prim .int, false, none⟩]),
    .generated (.declare "q" (.named "Q") (.generated (.instantiate (some (.named "Q"))
      [.generated (.literal (.int 1))])) false)]

/-- The program `sub stringify(x type) string { yield text }`. -/
def declaringText (type text : String) : List Stmt :=
  [.generated (.sub (.mk "stringify" [⟨"x", .named type, none⟩] (.prim .string)
    [.generated (.yield (.generated (.literal (.string text))))] false))]

/-- The program `sub stringify(a int, b int) string { yield 'pair' }`. -/
def declaringTwoPlaces : List Stmt :=
  [.generated (.sub (.mk "stringify" [⟨"a", .prim .int, none⟩, ⟨"b", .prim .int, none⟩]
    (.prim .string) [.generated (.yield (.generated (.literal (.string "pair"))))] false))]

/-- The state after `declaringQ` and further programs. -/
def afterQ (programs : List (List Stmt)) : State :=
  (declaringQ :: programs).foldl
    (fun s program => ((interrupted .standard (fun _ => false) 6).run program).state s)
    (.initial ⟨false, none, true⟩)

theorem reaches_afterQ (programs : List (List Stmt)) :
    Reaches .standard (.initial ⟨false, none, true⟩) (afterQ programs) := by
  have hfold : ∀ (programs : List (List Stmt)) (s : State),
      Reaches .standard (.initial ⟨false, none, true⟩) s →
        Reaches .standard (.initial ⟨false, none, true⟩) (programs.foldl
          (fun s program => ((interrupted .standard (fun _ => false) 6).run program).state s)
          s) := by
    intro programs
    induction programs with
    | nil => exact fun s hs => hs
    | cons program rest ih => exact fun s hs => ih _ (.run program (fun _ => false) 6 hs)
  exact hfold _ _ .refl

/-- The text of `q`, or the fault where there is none. -/
def textOfQ (s : State) : Except (Option Fault) String :=
  match (ofFuel .standard 6).expr none
      (.generated (.unary .stringify (.generated (.name "q")))) s with
  | .ok v t => .ok (t.store.text v)
  | .error (.error e) _ => .error (some e.fault)
  | .error .outOfFuel _ => .error none

/-- With an overload for each of the two types, `q` goes to its own; one that takes two arguments
leaves it without a text. -/
theorem stringify_resolves_afterQ :
    let s := afterQ [declaringText "P" "p", declaringText "Q" "q"]
    let q := Expr.generated (.name "q")
    s.Amid ⟨false, none, true⟩ ∧ (textOfQ s).toOption = some "q" ∧
      (match textOfQ (afterQ [declaringTwoPlaces]) with
        | .error (some (.unresolvedPositions "stringify")) => true
        | _ => false) = true ∧
      ∃ d cells, (ofFuel .standard 6).eval none q s = .ok (.data d cells) s ∧
        ∃ outcome : Resolution, outcome.Decides s "stringify" [.data d cells] ∧
          (ofFuel .standard 6).expr none (.generated (.unary .stringify q)) s =
            outcome.stringify (ofFuel .standard 5) (.data d cells) .nowhere s := by
  intro s q
  have h : s.Amid ⟨false, none, true⟩ := Reaches.amid (reaches_afterQ _)
  have htext : (textOfQ s).toOption = some "q" := by decide +kernel
  have hpair : (match textOfQ (afterQ [declaringTwoPlaces]) with
      | .error (some (.unresolvedPositions "stringify")) => true
      | _ => false) = true := by decide +kernel
  have hcell : s.env.cell? "q" = some ⟨1⟩ := by decide +kernel
  have htype : s.store.typeOf? (s.store.read ⟨1⟩) = some (.data "Q") := by decide +kernel
  clear_value s
  obtain ⟨d, cells, hvalue, -⟩ := Store.typeOf?_data htype
  have hq : (ofFuel .standard 6).eval none q s = .ok (.data d cells) s :=
    hvalue ▸ Run.atSpan_ok _ (Run.bind_ok (Run.cellOf_ok hcell) _)
  obtain ⟨outcome, hdecides, hrun, -⟩ := stringify_resolves h 5 hq none .nowhere
  exact ⟨h, htext, hpair, d, cells, hq, outcome, hdecides, hrun⟩

/-- Once `stringify` is declared for `P`, the text of `q` is gone, although no overload takes it. -/
theorem stringify_refuses :
    let s := afterQ [declaringText "P" "p"]
    Reaches .standard (.initial ⟨false, none, true⟩) s ∧
      (textOfQ (afterQ [])).toOption = some "Q\x7b1\x7d" ∧
      (∃ d cells, (ofFuel .standard 6).eval none (.generated (.name "q")) s =
        .ok (.data d cells) s ∧
        ∀ sub ∈ s.env.overloads "stringify", ¬ sub.Accepts s.store [.data d cells]) ∧
      (match textOfQ s with
        | .error (some (.unresolvedTypes "stringify")) => true
        | _ => false) = true := by
  intro s
  have htext : (textOfQ (afterQ [])).toOption = some "Q\x7b1\x7d" := by decide +kernel
  have hrefused : (match textOfQ s with
      | .error (some (.unresolvedTypes "stringify")) => true
      | _ => false) = true := by decide +kernel
  have hcell : s.env.cell? "q" = some ⟨1⟩ := by decide +kernel
  have htype : s.store.typeOf? (s.store.read ⟨1⟩) = some (.data "Q") := by decide +kernel
  have htypes : (s.env.overloads "stringify").map (fun sub => sub.params.map (·.type)) =
      [[.data "P"]] := by decide +kernel
  have hreaches : Reaches .standard (.initial ⟨false, none, true⟩) s := reaches_afterQ _
  clear_value s
  obtain ⟨d, cells, hvalue, hname⟩ := Store.typeOf?_data htype
  have hq : (ofFuel .standard 6).eval none (.generated (.name "q")) s = .ok (.data d cells) s :=
    hvalue ▸ Run.atSpan_ok _ (Run.bind_ok (Run.cellOf_ok hcell) _)
  refine ⟨hreaches, htext, ⟨d, cells, hq, fun sub hsub haccepts => ?_⟩, hrefused⟩
  have hparams : sub.params.map (·.type) = [.data "P"] :=
    List.mem_singleton.mp (htypes ▸ List.mem_map_of_mem hsub)
  obtain ⟨p, hparam, hp⟩ := List.map_eq_singleton_iff.mp hparams
  exact absurd (hname.symm.trans (Sub.accepts_data hparam hp haccepts)) (by decide)

end Evaluator

end BasicScript
