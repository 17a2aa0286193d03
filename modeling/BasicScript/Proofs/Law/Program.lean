import BasicScript.Proofs.Frame.Moment
import BasicScript.Proofs.Law.Expression

/-! # Programs under a law

A law that does not count calls closes over the fuel: it holds of every
evaluator, interrupted or not, and so of every program of its grammar.
-/

namespace BasicScript

/-- The core declarations are of builtin subs with one parameter, of a primitive type or an array of
one. -/
theorem coreDeclarations_cases {P : Stmt → Prop}
    (hprim : ∀ name param q returns, P (builtinDeclaration name param (.prim q) returns))
    (harray : ∀ name param q returns,
      P (builtinDeclaration name param (.array (.prim q) none) returns)) :
    ∀ s ∈ coreDeclarations, P s := by
  intro s hs
  simp only [coreDeclarations, List.mem_cons, List.not_mem_nil, or_false] at hs
  rcases hs with rfl | rfl | rfl | rfl | rfl | rfl | rfl | rfl | rfl | rfl | rfl
  case inr.inr.inr.inr.inr.inr.inr.inr.inr.inr => exact harray _ _ _ _
  all_goals exact hprim _ _ _ _

namespace Law

variable {ι : Type} {L : Law ι} {r : ι → Evaluator} {room : Option Nat} {p : Site}

open Holds (pure of_local)

/-- Core declarations are executed at most once. -/
theorem loadCore (h : ∀ s ∈ coreDeclarations, L.Executes r room s) :
    L.Runs room p fun i => (r i).loadCore := by
  intro s hs
  have hdone : (∀ i (t : State), t.core = s.core → (r i).loadCore t = .ok () t) →
      ∃ outcome, L.Good room p (fun _ => True) outcome ∧ ∀ᶠ i in L.along,
        (r i).loadCore s = outcome ∧ (r i).loadCore (L.twin p s) = L.twinResult p outcome := by
    intro hcore
    refine ⟨.ok () s, ⟨hs, trivial⟩, .of_forall fun i => ?_⟩
    exact ⟨hcore i s rfl, hcore i (L.twin p s) rfl⟩
  cases hcore : s.core with
  | disabled => exact hdone fun i t ht => by simp only [Evaluator.loadCore, ht, hcore]
  | loaded => exact hdone fun i t ht => by simp only [Evaluator.loadCore, ht, hcore]
  | pending =>
    have hblock : L.Runs room p fun i => (do let _ ← (r i).block coreDeclarations : Run Unit) :=
      (block h).bind fun _ _ => pure trivial
    have hloaded : L.Inv room p { s with core := .loaded } :=
      ⟨hs.active, hs.bottom, hs.declared, hs.calls, hs.limit⟩
    obtain ⟨outcome, hgood, hruns⟩ := hblock _ hloaded
    have htwin : (L.twin p s).core = .pending := hcore
    refine ⟨outcome, hgood, ?_⟩
    filter_upwards [hruns] with i hi
    simp only [Evaluator.loadCore, hcore, htwin]
    exact hi

theorem run {program : List Stmt} (hcore : ∀ s ∈ coreDeclarations, L.Executes r room s)
    (h : L.Holds room p (fun i => (r i).block program)
      fun flow => L.strays ∨ flow.settled = true) :
    L.Runs room p fun i => (r i).run program := by
  refine (loadCore hcore).bind fun _ _ => h.bind fun flow hflow => ?_
  cases flow with
  | normal => exact pure trivial
  | signal signal =>
    cases signal with
    | leave | yield => exact pure trivial
    | breakTo label => exact .strayed (hflow.imp_right fun hf => nomatch hf) nofun
    | nextTo label => exact .strayed (hflow.imp_right fun hf => nomatch hf) nofun

/-- A law that does not count calls holds of evaluators. -/
structure Uniform (L : Law ι) (r : ι → Evaluator) : Prop where
  evals : ∀ e, L.Evals r none e
  executes : ∀ s, L.stmt s → L.Executes r none s
  defaults : ∀ t, L.Defaults r none t
  invoke : ∀ name vs p, L.Runs none p fun i => (r i).invoke name vs

/-- Where signals must not stray, the bodies of subs end in a way that a call can take. -/
def Settles (L : Law ι) (r : ι → Evaluator) (body : List Stmt) : Prop :=
  ∀ i s flow t, (r i).block body s = .ok flow t → L.strays ∨ flow.settled = true

theorem Uniform.block (h : L.Uniform r) [L.along.NeBot] {body : List Stmt}
    (hbody : ∀ s ∈ body, L.stmt s) (hsettles : L.Settles r body) :
    L.Holds none p (fun i => (r i).block body) fun flow => L.strays ∨ flow.settled = true :=
  Holds.claim (Law.block fun s hs => h.executes s (hbody s hs)) hsettles

theorem Uniform.bodies (h : L.Uniform r) [L.along.NeBot] (hlibrary : L.Stocked r)
    (hsettles : ∀ sub, L.sub sub → L.Settles r sub.body) : L.Bodies r none where
  library := hlibrary
  blocks _ sub hsub _ := h.block (L.body hsub) (hsettles sub hsub)
  results _ := h.defaults

theorem Uniform.fills (h : L.Uniform r) (name : String) : L.Fills r none name :=
  fun _ _ _ q _ => ⟨fun e _ => h.evals e, fun _ => h.defaults q.type⟩

theorem Uniform.makes (h : L.Uniform r) (t : Ty) : L.Makes r none t where
  default := h.defaults t
  element element _ := h.defaults element
  builds _ _ _ f _ := ⟨fun e _ => h.evals e, fun _ => h.defaults f.type⟩

theorem Holds.unlessHalted {α : Type} {x : ι → Run α} {P : α → Prop} {halt : State → Bool}
    (hexhausts : L.exhausts) (hhalt : ∀ s, L.Inv room p s → halt (L.twin p s) = halt s)
    (h : L.Holds room p x P) :
    L.Holds room p (fun i => Run.unlessHalted halt (x i)) P := by
  intro s hs
  have htwin := hhalt s hs
  cases hs' : halt s with
  | true =>
    rw [hs'] at htwin
    refine ⟨.error .outOfFuel s, ⟨hs, .inl hexhausts⟩, .of_forall fun i => ?_⟩
    exact ⟨if_pos hs', if_pos htwin⟩
  | false =>
    rw [hs'] at htwin
    obtain ⟨outcome, hgood, hruns⟩ := h s hs
    refine ⟨outcome, hgood, ?_⟩
    filter_upwards [hruns] with i hi
    simpa only [Run.unlessHalted, hs', htwin, Bool.false_eq_true, if_false] using hi

/-- The rules of evaluators, each of them a run under a law that does not count calls. -/
structure Ruled (L : Law ι) (r : ι → Evaluator) : Prop where
  expr : ∀ hint e p, L.Runs none p fun i => (r i).expr hint e
  stmt : ∀ s, L.stmt s → ∀ p, L.Runs none p fun i => (r i).stmt s
  defaultValue : ∀ t p, L.Runs none p fun i => (r i).defaultValue t
  callValues : ∀ name vs p, L.Runs none p fun i => (r i).callValues name vs

/-- Of evaluators under a law all rules obey it, whatever natives they call. -/
theorem Uniform.ruled (h : L.Uniform r) [L.along.NeBot] (hexhausts : L.exhausts)
    (hlibrary : L.Stocked r) (hsettles : ∀ sub, L.sub sub → L.Settles r sub.body) {rounds : Nat}
    (hrounds : ∀ i, (r i).rounds = rounds) : L.Ruled r := by
  have hbodies := h.bodies hlibrary hsettles
  constructor
  · intro hint e p
    exact Law.expr hbodies (fun name _ => ⟨h.fills name, h.invoke name⟩) (fun t _ => h.makes t)
      fun e' _ => h.evals e'
  · intro s hs p
    exact statement ⟨hlibrary, h.makes⟩ hs (fun e _ => h.evals e)
      (fun t _ ht => h.executes t ht) fun _ => ⟨h.evals, hexhausts, _, .of_forall hrounds⟩
  · exact fun t _ => Law.defaultValue t (h.makes t).element (h.makes t).builds
  · exact fun name vs _ => Law.callValues hbodies (h.fills name) vs

/-- Interrupted runs obey a law that does not count calls, if they are interrupted alike on either
stack, and whatever library they take their natives from. -/
theorem interrupted_uniform [L.along.NeBot] {libraries : ι → Library} {halt : State → Bool}
    (hexhausts : L.exhausts) (hhalt : ∀ p s, L.Inv none p s → halt (L.twin p s) = halt s)
    (hlibraries : ∀ fuel, L.Stocked fun i => .interrupted (libraries i) halt fuel)
    (hsettles : ∀ fuel sub, L.sub sub →
      L.Settles (fun i => .interrupted (libraries i) halt fuel) sub.body) (fuel : Nat) :
    L.Uniform fun i => .interrupted (libraries i) halt fuel := by
  induction fuel with
  | zero =>
    exact ⟨fun _ _ _ => .exhausted hexhausts, fun _ _ _ => .exhausted hexhausts,
      fun _ _ => .exhausted hexhausts, fun _ _ _ => .exhausted hexhausts⟩
  | succ fuel ih =>
    have hhalted : ∀ {α : Type} {x : ι → Run α} {p : Site}, L.Runs none p x →
        L.Runs none p fun i => Run.unlessHalted halt (x i) :=
      fun h => h.unlessHalted hexhausts (hhalt _)
    have hrounds : ∀ i, (Evaluator.interrupted (libraries i) halt fuel).rounds = fuel - 1 := by
      intro i
      cases fuel <;> rfl
    have hruled := ih.ruled hexhausts (hlibraries fuel) (hsettles fuel) hrounds
    constructor
    · exact fun e p hint => hhalted (hruled.expr hint e p)
    · exact fun s hs p => hhalted (hruled.stmt s hs p)
    · exact fun t p => hhalted (hruled.defaultValue t p)
    · exact fun name vs p => hhalted (hruled.callValues name vs p)

end Law

/-- All programs obey a law of single runs that lets signals stray. -/
theorem Evaluator.ofFuel_uniform {L : Law Unit} [L.along.NeBot] (hexhausts : L.exhausts)
    (hstrays : L.strays) (fuel : Nat) : L.Uniform fun _ => ofFuel .standard fuel := by
  rw [← interrupted_never]
  refine Law.interrupted_uniform hexhausts (fun _ _ _ => rfl) (fun fuel => ?_)
    (fun _ _ _ _ _ _ _ _ => .inl hstrays) fuel
  exact .of_standard fun _ => interrupted_library .standard _ fuel

end BasicScript
