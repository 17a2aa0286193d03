import BasicScript.Proofs.Frame.Visits
import BasicScript.Proofs.Names.Programs

/-! # Duplicate overloads

A scope refuses an overload by the text of its signature. Where names are
identifiers the text gives the types away, up to the case of the names in
them, so no overload is refused but for one of the same name whose types are
alike. Whatever a declaration fails of, no table is changed by it.
-/

namespace BasicScript

namespace Run

variable {α β : Type} {x : Run α} {f : α → Run β} {c : Prop}

/-- A run that changes no table when it fails. -/
def Atomic (x : Run α) : Prop := ∀ s e u, x s = .error e u → Frame False s u

theorem Atomic.bind (hx : Tracks none c False x x) (hf : ∀ a, (f a).Atomic) :
    (x >>= f).Atomic := by
  intro s e u hrun
  cases hfirst : x s with
  | ok a t =>
    rw [bind_ok hfirst] at hrun
    exact (hx.frame_ok hfirst).trans (hf a t e u hrun)
  | error e' t =>
    rw [bind_error hfirst] at hrun
    cases hrun
    exact hx.frame_error hfirst

theorem Atomic.ite {p : Prop} [Decidable p] {y : Run α} (hx : x.Atomic) (hy : y.Atomic) :
    (if p then x else y : Run α).Atomic := by
  split
  · exact hx
  · exact hy

theorem Atomic.declare (entity : Entity) (name : String) (takes : Environment → Bool)
    (add : Environment → Environment) : (Run.declare entity name takes add).Atomic := by
  intro s e u hrun
  rcases declare_cases entity name takes add s with ⟨-, hok⟩ | ⟨fault, hfault⟩
  · rw [hok] at hrun
    cases hrun
  · rw [hfault] at hrun
    cases hrun
    exact .refl False s

end Run

namespace Evaluator

variable {r : Evaluator} {d : SubDef} {s t u : State} {params : List Parameter} {returns : Ty}

/-- The overload that a definition declares in a scope, once its types are known. -/
def declared (d : SubDef) (params : List Parameter) (returns : Ty) (scope : ScopePath) : Sub :=
  ⟨d.name, params, returns, d.body, signatureText d.name (params.map (·.type)), scope, d.builtin⟩

theorem declareSub_atomic (h : r.Precedes none False r) (d : SubDef) : (r.declareSub d).Atomic := by
  refine .bind (h.parameters d.params) fun params => ?_
  refine .bind (h.returnType d.returns) fun returns => ?_
  have hdeclare : (do
      let scope ← Run.read fun s => s.env.current
      let sub := declared d params returns scope
      Run.declare .sub sub.signature (·.takesSub d.name sub.signature) (·.addSub sub) :
        Run Unit).Atomic :=
    .bind (c := False) (Run.Tracks.read _) fun scope => .declare _ _ _ _
  exact .ite (.bind (h.requireNative _ _) fun _ => hdeclare) hdeclare

/-- Once the types are known, and the native if there must be one, the table decides. -/
theorem declareSub_known (hparams : r.parameters d.params s = .ok params t)
    (hreturns : r.returnType d.returns t = .ok returns u)
    (hnative : d.builtin = true →
      r.library.Provides (signatureText d.name (params.map (·.type))) returns) :
    r.declareSub d s =
      if u.env.takesSub d.name (signatureText d.name (params.map (·.type))) then
        .ok () { u with env := u.env.addSub (declared d params returns u.env.current) }
      else .error (.error (.ofFault
        (.alreadyDeclared .sub (signatureText d.name (params.map (·.type)))))) u := by
  refine (Run.bind_ok hparams _).trans ((Run.bind_ok hreturns _).trans ?_)
  cases hbuiltin : d.builtin with
  | false =>
    simp only [declared, hbuiltin]
    rfl
  | true =>
    obtain ⟨native, hlookup, htype⟩ := hnative hbuiltin
    have hrequired : r.requireNative (signatureText d.name (params.map (·.type))) returns u =
        .ok () u := by
      rw [requireNative_eq, hlookup]
      exact congrFun (if_pos htype) u
    refine (Run.bind_ok hrequired _).trans ?_
    simp only [declared, hbuiltin]
    rfl

end Evaluator

/-- An overload of the name has types that are alike, one by one. -/
def Scope.HasAlike (sc : Scope) (name : String) (ts : List Ty) : Prop :=
  ∃ old ∈ sc.overloads name, List.Forall₂ Ty.Alike (old.params.map (·.type)) ts

theorem State.AmidBy.spelled {settings : Settings} {N : String → Prop} {s : State}
    (hs : s.AmidBy (Stmt.Naming N) settings) {name : String} {sub : Sub}
    (hsub : sub ∈ s.env.currentScope.overloads name) : sub.Spelled N := by
  have hmem : sub ∈ s.env.currentScope.subs := (List.mem_filter.mp hsub).1
  unfold Environment.currentScope Environment.scope at hmem
  cases hsc : s.env.scopes[s.env.currentId.index]? with
  | none =>
    rw [hsc] at hmem
    exact nomatch hmem
  | some sc =>
    rw [hsc] at hmem
    exact hs.obeys.spelled ⟨_, sc, hsc, hmem⟩

/-- A table takes an overload, by the texts of the signatures in it, unless it has one alike. -/
theorem State.AmidBy.takesSub_iff {settings : Settings} {s : State}
    (hs : s.AmidBy (Stmt.Naming IsIdentifier) settings) {name : String} {ts : List Ty}
    (hts : ∀ t ∈ ts, t.Spelled IsIdentifier) :
    s.env.takesSub name (signatureText name ts) = true ↔ ¬s.env.currentScope.HasAlike name ts := by
  rw [Environment.takesSub, Bool.not_eq_true', ← Bool.not_eq_true, List.any_eq_true]
  refine not_congr (exists_congr fun old => and_congr_right fun hold => ?_)
  have hspelled := hs.spelled hold
  have hname : old.name = name := eq_of_beq (List.mem_filter.mp hold).2
  rw [beq_iff_eq, hspelled.signature, hname,
    signatureText_eq_iff (List.forall_mem_map.mpr hspelled.types) hts]
  exact and_iff_right rfl

/-- Types that a state gives for parameters are spelled as those in its tables. -/
theorem Evaluator.parameters_spelled {settings : Settings} {N : String → Prop} {s t : State}
    (hs : s.AmidBy (Stmt.Naming N) settings) (fuel : Nat) {written : List Param}
    {params : List Parameter}
    (h : (ofFuel .standard fuel).parameters written s = .ok params t) :
    ∀ q ∈ params, q.type.Spelled N := by
  let L := (Grammar.naming N).law True
  have huniform : L.Uniform fun _ => ofFuel .standard fuel := ofFuel_uniform trivial trivial fuel
  have hlaw : L.Holds none s.site (fun _ => (ofFuel .standard fuel).parameters written)
      (List.Forall₂ (fun q p => p.default = q.default ∧ q.type.Gives L.named p.type) written) :=
    Law.parameters fun q _ e _ => huniform.evals e
  have hgood := (hlaw.outcome hs.obeys.inv).1
  rw [h] at hgood
  intro q hq
  obtain ⟨_, -, -, htype⟩ := exists_of_forall₂ hgood.2 hq
  exact htype.spelled

namespace Evaluator

/-- Where names are identifiers, a declaration whose types are known, and whose native is there if
it must be, is refused if and only if the scope has an overload of the name with types that are
alike; else the overload is added to the table, and nothing else is. Whatever a declaration fails
of, all tables stay. The text of a signature tells the types, up to the case of names. -/
theorem duplicates_refused {settings : Settings} {s : State}
    (hs : s.AmidBy (Stmt.Naming IsIdentifier) settings) (fuel : Nat) (d : SubDef) :
    let r := ofFuel .standard fuel
    (∀ params t returns u, r.parameters d.params s = .ok params t →
      r.returnType d.returns t = .ok returns u →
      let types := params.map (·.type)
      let signature := signatureText d.name types
      (d.builtin = true → Library.standard.Provides signature returns) →
        (r.declareSub d s = .error (.error (.ofFault (.alreadyDeclared .sub signature))) u ↔
          s.env.currentScope.HasAlike d.name types) ∧
        (¬s.env.currentScope.HasAlike d.name types →
          r.declareSub d s =
            .ok () { u with env := u.env.addSub (declared d params returns u.env.current) })) ∧
    (∀ e u, r.declareSub d s = .error e u → s.SameTables u) ∧
    ∀ ts us : List Ty, (∀ t ∈ ts, t.Spelled IsIdentifier) → (∀ t ∈ us, t.Spelled IsIdentifier) →
      (signatureText d.name ts = signatureText d.name us ↔ List.Forall₂ Ty.Alike ts us) := by
  intro r
  have hframed : r.Precedes none False r := ofFuel_precedes_self Library.standard_framed fuel
  refine ⟨?_, fun e u h => ?_, fun ts us hts hus => ?_⟩
  · intro params t returns u hparams hreturns types signature hnative
    have hframe : Frame False s u :=
      ((hframed.parameters d.params).frame_ok hparams).trans
        ((hframed.returnType d.returns).frame_ok hreturns)
    have htypes : ∀ t ∈ types, t.Spelled IsIdentifier :=
      List.forall_mem_map.mpr (parameters_spelled hs fuel hparams)
    -- what the types resolve to is found without a change to the table
    have htakes : u.env.takesSub d.name signature = true ↔
        ¬s.env.currentScope.HasAlike d.name types := by
      rw [← hs.takesSub_iff htypes, Environment.takesSub, Environment.takesSub,
        hframe.currentScope hs.nested]
    have hrun := declareSub_known hparams hreturns
      fun hbuiltin => (ofFuel_library .standard fuel).symm ▸ hnative hbuiltin
    by_cases halike : s.env.currentScope.HasAlike d.name types
    · have hrefused : ¬u.env.takesSub d.name signature = true := fun h => htakes.mp h halike
      exact ⟨iff_of_true (hrun.trans (if_neg hrefused)) halike, fun h => absurd halike h⟩
    · have hadded := hrun.trans (if_pos (htakes.mpr halike))
      refine ⟨iff_of_false (fun h => ?_) halike, fun _ => hadded⟩
      have hclash := hadded.symm.trans h
      cases hclash
  · have hnone : s.DeclaresOnly [] u := .ofFrame (declareSub_atomic hframed d s e u h)
    exact hnone.sameTables
  · rw [signatureText_eq_iff hts hus]
    exact and_iff_right rfl

/-- The program `data Box { a int }  sub f(p Box[]) { }`. -/
def boxedSub : List Stmt :=
  [.generated (.data "Box" [⟨"a", .prim .int, false, none⟩]),
    .generated (.sub (.mk "f" [⟨"p", .array (.named "Box") none, none⟩] .inferred [] false))]

/-- After the program the declaration `sub f(q Box[]) { }` is refused, and `sub f(q Box[3]) { }` is
not. -/
theorem duplicates_refused_boxedSub :
    let s := ((interrupted .standard (fun _ => false) 6).run boxedSub).state
      (.initial ⟨false, none, true⟩)
    let r := ofFuel .standard 6
    let sized := .generated (.literal (.int 3))
    s.AmidBy (Stmt.Naming IsIdentifier) ⟨false, none, true⟩ ∧
      r.declareSub (.mk "f" [⟨"q", .array (.named "Box") none, none⟩] .inferred [] false) s =
        .error (.error (.ofFault (.alreadyDeclared .sub "f(box[])"))) s ∧
      ∃ u, r.declareSub (.mk "f" [⟨"q", .array (.named "Box") (some sized), none⟩] .inferred []
        false) s = .ok () u := by
  intro s r sized
  have hprogram : ∀ stmt ∈ boxedSub, stmt.Naming IsIdentifier := by
    simp only [boxedSub, List.forall_mem_cons]
    refine ⟨.mk ?_ (fun _ h => nomatch h) (fun _ h => nomatch h), .mk (fun _ h => nomatch h)
      (fun _ h => nomatch h) ?_, fun _ h => nomatch h⟩
    · exact List.forall_mem_singleton.mpr (by decide)
    · rintro _ ⟨⟩ _ ⟨⟩
  have hs : s.AmidBy (Stmt.Naming IsIdentifier) ⟨false, none, true⟩ :=
    (ReachesBy.refl.run hprogram (fun _ => false) 6).amid
  have htable : s.env.currentScope.overloads "f" =
      [⟨"f", [⟨"p", .array (.data "Box") none, none⟩], .prim .none, [], "f(box[])", [⟨0⟩],
        false⟩] := rfl
  refine ⟨hs, ?_, ?_⟩
  · have hknown := (duplicates_refused hs 6 (.mk "f" [⟨"q", .array (.named "Box") none, none⟩]
      .inferred [] false)).1 [⟨"q", .array (.data "Box") none, none⟩] s (.prim .none) s
        rfl rfl nofun
    have hsignature : signatureText "f" [.array (.data "Box") none] = "f(box[])" := by
      decide +kernel
    refine hsignature ▸ hknown.1.mpr ⟨_, htable ▸ List.mem_cons_self, .cons ⟨rfl, "box", ?_⟩ .nil⟩
    exact ⟨rfl, rfl⟩
  · have hknown := (duplicates_refused hs 6 (.mk "f" [⟨"q", .array (.named "Box") (some sized),
      none⟩] .inferred [] false)).1 [⟨"q", .array (.data "Box") (some 3), none⟩] s (.prim .none) s
        rfl rfl nofun
    refine ⟨_, hknown.2 ?_⟩
    rintro ⟨old, hold, halike⟩
    have hmem : old ∈ s.env.currentScope.overloads "f" := hold
    rw [htable, List.mem_singleton] at hmem
    subst hmem
    obtain ⟨⟨hsize, -⟩, -⟩ := List.forall₂_cons.mp halike
    exact nomatch hsize

/-- The program `data Point { a int }  data point { b int }  sub f(p Point) { }`. -/
def pointsApart : List Stmt :=
  [.generated (.data "Point" [⟨"a", .prim .int, false, none⟩]),
    .generated (.data "point" [⟨"b", .prim .int, false, none⟩]),
    .generated (.sub (.mk "f" [⟨"p", .named "Point", none⟩] .inferred [] false))]

/-- After the program the declaration `sub f(p point) { }` is refused, although no value of either
type belongs to the other. -/
theorem duplicates_pointsApart :
    let s := ((interrupted .standard (fun _ => false) 6).run pointsApart).state
      (.initial ⟨false, none, true⟩)
    let r := ofFuel .standard 6
    let d : SubDef := .mk "f" [⟨"p", .named "point", none⟩] .inferred [] false
    r.parameters d.params s = .ok [⟨"p", .data "point", none⟩] s ∧
      (s.env.currentScope.overloads "f").map (fun old => old.params.map (·.type)) =
        [[.data "Point"]] ∧
      (∀ σ v, ¬((Ty.data "Point").admits σ v = true ∧ (Ty.data "point").admits σ v = true)) ∧
      r.declareSub d s = .error (.error (.ofFault (.alreadyDeclared .sub "f(point)"))) s := by
  intro s r d
  have hparams : r.parameters d.params s = .ok [⟨"p", .data "point", none⟩] s := rfl
  have hreturns : r.returnType d.returns s = .ok (.prim .none) s := rfl
  refine ⟨hparams, rfl, ?_, ?_⟩
  · rintro σ v ⟨hupper, hlower⟩
    have hupper := Ty.admits_check hupper
    have hlower := Ty.admits_check hlower
    cases v with
    | data decl cells =>
      simp only [Ty.check, ite_eq_left_iff, reduceCtorEq, imp_false, not_not] at hupper hlower
      exact absurd (hupper.symm.trans hlower) (by decide)
    | _ => cases hupper
  · have hsignature : signatureText d.name [.data "point"] = "f(point)" := by decide +kernel
    have hknown := declareSub_known hparams hreturns fun h => absurd h Bool.false_ne_true
    simp only [List.map_cons, List.map_nil, hsignature] at hknown
    exact hknown.trans (if_neg (by decide +kernel))

end Evaluator

end BasicScript
