import BasicScript.Proofs.Defaults.Order
import BasicScript.Proofs.Names.Duplicates

/-! # Loading the core declarations

The core declarations are executed in the global scope, one after another. Each
needs a function of the library and a place in the table of the scope. The
first that lacks one of them ends the loading, and those before it stay.
-/

namespace BasicScript

/-- The type that is written without names and sizes. -/
def TypeExpr.plain? : TypeExpr → Option Ty
  | .inferred => some .inferred
  | .prim p => some (.prim p)
  | .array element none => element.plain?.map (.array · none)
  | .array _ (some _) => none
  | .vararg element => element.plain?.map .vararg
  | .named _ => none

/-- The parameter of a plain type. -/
def Param.plain? (p : Param) : Option Parameter := p.type.plain?.map (⟨p.name, ·, p.default⟩)

/-- The overload that a builtin declaration of plain types makes in the global scope. -/
def Stmt.builtinSub? : Stmt → Option Sub
  | .mk (.sub (.mk name params (.prim q) body true)) _ =>
    (params.mapM Param.plain?).map fun known =>
      Evaluator.declared (.mk name params (.prim q) body true) known (.prim q) globalPath
  | _ => none

/-- The overloads that the core declarations make, in order. -/
def coreSubs : List Sub := coreDeclarations.filterMap Stmt.builtinSub?

theorem coreDeclarations_subs :
    List.Forall₂ (fun stmt sub => stmt.builtinSub? = some sub) coreDeclarations coreSubs := by
  repeat constructor

/-- Why a builtin overload is refused by the library, or by the current scope. -/
def Library.refusal? (l : Library) (env : Environment) (sub : Sub) : Option Fault :=
  match (l.lookup sub.signature).map (·.returns) with
  | none => some (.missingBuiltin sub.signature)
  | some t =>
    if t = sub.returns then
      if env.takesSub sub.name sub.signature then none
      else some (.alreadyDeclared .sub sub.signature)
    else some (.mismatchedBuiltin sub.signature sub.returns (some t))

namespace Environment

/-- Adds overloads to the current scope. -/
def addSubs (env : Environment) (subs : List Sub) : Environment := subs.foldl addSub env

theorem addSubs_subs {env : Environment} (hcurrent : env.current = globalPath)
    (hsize : 0 < env.scopes.size) (subs : List Sub) :
    ((env.addSubs subs).scope ⟨0⟩).subs = (env.scope ⟨0⟩).subs ++ subs := by
  induction subs generalizing env with
  | nil => exact (List.append_nil _).symm
  | cons sub subs ih =>
    have hid : env.currentId = ⟨0⟩ := by
      simp only [currentId, hcurrent, globalPath, List.headD_cons]
    have hadd : (env.addSub sub).scope env.currentId =
        { env.currentScope with subs := env.currentScope.subs ++ [sub] } :=
      scope_modifyCurrent (by rwa [hid]) _
    rw [currentScope, hid] at hadd
    have hsize' : 0 < (env.addSub sub).scopes.size := by simpa [addSub, modifyCurrent] using hsize
    have hrest : (((env.addSub sub).addSubs subs).scope ⟨0⟩).subs = _ := ih hcurrent hsize'
    rw [hadd, List.append_assoc] at hrest
    exact hrest

end Environment

namespace State

/-- The state after some of the core declarations, or all of them. -/
def loading (s : State) (subs : List Sub) : State :=
  { s with core := .loaded, env := s.env.addSubs subs }

/-- All overloads of the core declarations stand in the global scope. -/
def CoreDeclared (s : State) : Prop := ∀ sub ∈ coreSubs, sub ∈ (s.env.scope ⟨0⟩).subs

/-- The core declarations are executed up to one that is refused. -/
def LoadsPart (s : State) (library : Library) (e : Report) (t : State) : Prop :=
  ∃ before sub after, coreSubs = before ++ sub :: after ∧ t = s.loading before ∧
    library.refusal? t.env sub = some e.fault

end State

namespace Evaluator

variable {library : Library} {s : State}

theorem resolveType_plain (r : Evaluator) {written : TypeExpr} {t : Ty}
    (h : written.plain? = some t) (s : State) : r.resolveType written s = .ok t s := by
  fun_induction TypeExpr.plain? written generalizing t with
  | case1 | case2 =>
    cases h
    rfl
  | case3 element ih =>
    obtain ⟨u, hu, rfl⟩ := Option.map_eq_some_iff.mp h
    exact (Run.bind_ok (ih hu) _).trans rfl
  | case4 | case6 => cases h
  | case5 element ih =>
    obtain ⟨u, hu, rfl⟩ := Option.map_eq_some_iff.mp h
    exact (Run.bind_ok (ih hu) _).trans rfl

theorem parameters_plain (r : Evaluator) {params : List Param} {known : List Parameter}
    (h : params.mapM Param.plain? = some known) (s : State) :
    r.parameters params s = .ok known s := by
  induction params generalizing known with
  | nil =>
    cases h
    rfl
  | cons p params ih =>
    rw [List.mapM_cons] at h
    obtain ⟨q, hq, h⟩ := Option.bind_eq_some_iff.mp h
    obtain ⟨rest, hrest, ⟨⟩⟩ := Option.bind_eq_some_iff.mp h
    obtain ⟨t, ht, rfl⟩ := Option.map_eq_some_iff.mp hq
    have hfirst : (do return ⟨p.name, ← r.resolveType p.type, p.default⟩ : Run Parameter) s =
        .ok ⟨p.name, t, p.default⟩ s := (Run.bind_ok (r.resolveType_plain ht s) _).trans rfl
    unfold parameters at ih ⊢
    rw [List.mapM_cons]
    exact (Run.bind_ok hfirst _).trans ((Run.bind_ok (ih hrest) _).trans rfl)

/-- The library decides about a builtin declaration, and then the table of the current scope. -/
theorem declareSub_builtin (r : Evaluator) {name : String} {params : List Param} {q : Primitive}
    {body : List Stmt} {known : List Parameter} {sub : Sub}
    (h : params.mapM Param.plain? = some known)
    (hsub : declared (.mk name params (.prim q) body true) known (.prim q) s.env.current = sub) :
    (r.library.refusal? s.env sub = none ∧ r.declareSub (.mk name params (.prim q) body true) s =
      .ok () { s with env := s.env.addSub sub }) ∨
    ∃ f, r.library.refusal? s.env sub = some f ∧
      r.declareSub (.mk name params (.prim q) body true) s = .error (.error (.ofFault f)) s := by
  subst hsub
  let sub := declared (.mk name params (.prim q) body true) known (.prim q) s.env.current
  have hknown := r.parameters_plain h s
  have hrefused : ∀ f, r.requireNative sub.signature (.prim q) s = .error (.error (.ofFault f)) s →
      r.declareSub (.mk name params (.prim q) body true) s = .error (.error (.ofFault f)) s :=
    fun f hrun => (Run.bind_ok hknown _).trans ((Run.bind_ok rfl _).trans (Run.bind_error hrun _))
  cases hreturns : (r.library.lookup sub.signature).map (·.returns) with
  | none =>
    refine .inr ⟨.missingBuiltin sub.signature, ?_, hrefused _ ?_⟩
    · simp only [Library.refusal?, sub, hreturns]
    · rw [requireNative_eq, hreturns]
      rfl
  | some t =>
    by_cases ht : t = .prim q
    · have hrefusal : r.library.refusal? s.env sub =
          if s.env.takesSub sub.name sub.signature then none
          else some (.alreadyDeclared .sub sub.signature) := by
        simp only [Library.refusal?, hreturns]
        exact if_pos ht
      obtain ⟨native, hlookup, rfl⟩ := Option.map_eq_some_iff.mp hreturns
      rw [declareSub_known hknown rfl fun _ => ⟨native, hlookup, ht⟩]
      by_cases htakes : s.env.takesSub sub.name sub.signature = true
      · exact .inl ⟨hrefusal.trans (if_pos htakes), if_pos htakes⟩
      · exact .inr ⟨_, hrefusal.trans (if_neg htakes), if_neg htakes⟩
    · refine .inr ⟨.mismatchedBuiltin sub.signature (.prim q) (some t), ?_, hrefused _ ?_⟩
      · simp only [Library.refusal?, sub, hreturns]
        exact if_neg ht
      · rw [requireNative_eq, hreturns]
        exact congrFun (if_neg ht) s

/-- A builtin declaration of plain types succeeds, or it is refused and changes nothing. -/
theorem exec_builtinSub {stmt : Stmt} {sub : Sub} (h : stmt.builtinSub? = some sub)
    (hs : s.env.current = globalPath) (library : Library) (fuel : Nat) :
    (library.refusal? s.env sub = none ∧
      (ofFuel library (fuel + 1)).exec stmt s = .ok .normal { s with env := s.env.addSub sub }) ∨
    ∃ e, library.refusal? s.env sub = some e.fault ∧
      (ofFuel library (fuel + 1)).exec stmt s = .error (.error e) s := by
  unfold Stmt.builtinSub? at h
  split at h
  case h_2 => cases h
  case h_1 =>
    obtain ⟨known, hparams, hsub⟩ := Option.map_eq_some_iff.mp h
    have hdeclare := (ofFuel library fuel).declareSub_builtin hparams (hs ▸ hsub)
    rw [ofFuel_library] at hdeclare
    rcases hdeclare with ⟨hrefusal, hrun⟩ | ⟨f, hrefusal, hrun⟩
    · exact .inl ⟨hrefusal, Run.mapReport_ok.mpr ((Run.bind_ok hrun _).trans rfl)⟩
    · exact .inr ⟨(Report.ofFault f).traced _ _, hrefusal,
        Run.mapReport_error (Run.bind_error hrun _)⟩

/-- Builtin declarations are executed in order, up to the first that is refused. -/
theorem block_builtinSubs {stmts : List Stmt} {subs : List Sub}
    (h : List.Forall₂ (fun stmt sub => stmt.builtinSub? = some sub) stmts subs)
    (hs : s.env.current = globalPath) (library : Library) (fuel : Nat) :
    (ofFuel library (fuel + 1)).block stmts s =
        .ok .normal { s with env := s.env.addSubs subs } ∨
      ∃ before sub after e, subs = before ++ sub :: after ∧
        library.refusal? (s.env.addSubs before) sub = some e.fault ∧
        (ofFuel library (fuel + 1)).block stmts s =
          .error (.error e) { s with env := s.env.addSubs before } := by
  induction h generalizing s with
  | nil => exact .inl rfl
  | @cons stmt sub stmts subs hstmt _ ih =>
    rcases exec_builtinSub hstmt hs library fuel with ⟨-, hrun⟩ | ⟨e, hrefusal, hrun⟩
    · have hrest : (ofFuel library (fuel + 1)).block (stmt :: stmts) s =
          (ofFuel library (fuel + 1)).block stmts { s with env := s.env.addSub sub } :=
        Run.bind_ok hrun _
      rw [hrest]
      refine (ih (s := { s with env := s.env.addSub sub }) hs).imp id ?_
      rintro ⟨before, refused, after, e, rfl, hrefusal, hfails⟩
      exact ⟨sub :: before, refused, after, e, rfl, hrefusal, hfails⟩
    · exact .inr ⟨[], sub, subs, e, rfl, hrefusal, Run.bind_error hrun _⟩

/-- While they are pending, the core declarations are loaded all, or up to one that is refused. -/
theorem loadCore_cases (hcore : s.core = .pending) (hs : s.env.current = globalPath) (fuel : Nat) :
    (ofFuel library (fuel + 1)).loadCore s = .ok () (s.loading coreSubs) ∨
      ∃ e t, s.LoadsPart library e t ∧
        (ofFuel library (fuel + 1)).loadCore s = .error (.error e) t := by
  have hload : (ofFuel library (fuel + 1)).loadCore s = (do
      let _ ← (ofFuel library (fuel + 1)).block coreDeclarations : Run Unit)
        { s with core := .loaded } := by
    simp only [loadCore, hcore]
  rw [hload]
  have hblock := block_builtinSubs coreDeclarations_subs (s := { s with core := .loaded }) hs
    library fuel
  rcases hblock with hrun | ⟨before, sub, after, e, hsubs, hrefusal, hrun⟩
  · exact .inl (Run.bind_ok hrun _)
  · exact .inr ⟨e, s.loading before, ⟨before, sub, after, hsubs, rfl, hrefusal⟩,
      Run.bind_error hrun _⟩

end Evaluator

theorem State.CoreDeclared.of_loading {s : State} (hs : s.env.current = globalPath)
    (hsize : 0 < s.env.scopes.size) : (s.loading coreSubs).CoreDeclared := by
  intro sub hsub
  show sub ∈ ((s.env.addSubs coreSubs).scope ⟨0⟩).subs
  rw [Environment.addSubs_subs hs hsize]
  exact List.mem_append_right _ hsub

/-- What stands in the global scope stays there. -/
theorem State.CoreDeclared.grows {s t : State} (h : s.CoreDeclared) (hgrows : s.Grows t) :
    t.CoreDeclared := by
  intro sub hsub
  have hmem := h sub hsub
  unfold Environment.scope at hmem ⊢
  cases hscope : s.env.scopes[0]? with
  | none =>
    rw [hscope] at hmem
    exact nomatch hmem
  | some sc =>
    obtain ⟨sc', hscope', hextends⟩ := hgrows.scopes 0 sc hscope
    rw [hscope] at hmem
    rw [hscope']
    exact hextends.subs.subset hmem

end BasicScript
