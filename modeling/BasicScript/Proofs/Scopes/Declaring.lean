import BasicScript.Proofs.Defaults.Scopes
import BasicScript.Proofs.Law.Hooks
import BasicScript.Proofs.Scopes.Chains

/-! # Declaring scopes

Bodies and defaults run below the scope of their declaration, which has to be
there still. What is found is declared on the current chain, and evaluation
leaves that chain alone. So the scope is in reach whenever a body or a default
runs, and nothing ends for want of it.
-/

namespace BasicScript

/-- A path from a scope of the current chain outwards, below which runs can be entered. -/
structure Environment.InReach (env : Environment) (path : ScopePath) : Prop where
  nonempty : path ≠ []
  suffix : path <:+ env.current
  live : env.isLive path = true

namespace Environment.InReach

variable {env : Environment} {path : ScopePath}

theorem of_suffix {id : ScopeId} {rest : ScopePath} (h : id :: rest <:+ env.current) :
    env.InReach (id :: rest) := by
  have hmem : id ∈ env.current := h.subset List.mem_cons_self
  refine ⟨List.cons_ne_nil id rest, h, ?_⟩
  simp only [isLive, List.head?_cons, Option.all_some, List.contains_iff_mem.mpr hmem,
    Bool.true_or]

theorem stays {o : Prop} {s t : State} (hframe : Frame o s t) (h : s.env.InReach path) :
    t.env.InReach path := by
  cases path with
  | nil => exact absurd rfl h.nonempty
  | cons id rest => exact of_suffix (hframe.current ▸ h.suffix)

end Environment.InReach

/-- Whatever is found is declared in a scope in reach. -/
structure State.FindsInReach (s : State) : Prop where
  overloads : ∀ name, ∀ sub ∈ s.env.overloads name, s.env.InReach sub.scope
  data : ∀ name d, s.env.data? name = some d → s.env.InReach d.scope

theorem State.InOrder.findsInReach {s : State} (h : s.InOrder) : s.FindsInReach where
  overloads name sub hsub := by
    obtain ⟨id, rest, hsuffix, hscope⟩ := h.exists_of_overloads hsub
    exact hscope ▸ .of_suffix hsuffix
  data name d hd := by
    obtain ⟨id, rest, hsuffix, hscope⟩ := h.exists_of_data hd
    exact hscope ▸ .of_suffix hsuffix

namespace Evaluator

variable {r : Evaluator} {s : State}

/-- Whenever the body of a sub that was found runs, or the default of a parameter or a field, its
scope is in reach after all that has been evaluated before: arguments for overloads that were
dropped again, other defaults, other fields, and the element that proves to be missing. -/
structure EntersInReach (r : Evaluator) (s : State) : Prop where
  body : ∀ {name args sub bound t}, r.resolveOverload name args s = .ok (sub, bound) t →
    t.env.InReach sub.scope
  parameter : ∀ {name args sub slots t}, r.choose name args s = .ok (sub, slots) t →
    ∀ {params given values u}, r.fillDefaults sub params given t = .ok values u →
      u.env.InReach sub.scope
  field : ∀ {name d}, s.env.data? name = some d →
    ∀ {fields elements cells t}, r.fieldCells d.scope fields elements s = .ok cells t →
      ∀ {type element v u}, r.suppliedValue type element t = .ok v u → u.env.InReach d.scope

namespace Precedes

open Run (Tracks)

theorem firstChoice (h : r.Precedes none False r) (name : String) (args : List Pending)
    (subs : List Sub) :
    Tracks none False False (r.firstChoice name args subs) (r.firstChoice name args subs) := by
  induction subs with
  | nil => exact .fail _
  | cons sub rest ih =>
    exact (h.bindArguments sub args).either (fun _ => .pure _) fun e => ih.ite (.stop e)

theorem choose (h : r.Precedes none False r) (name : String) (args : List Pending) :
    Tracks none False False (r.choose name args) (r.choose name args) :=
  (Precedes.fittingOverloads name _).bind fun _ => h.firstChoice name args _

/-- Evaluation keeps in reach what has been found. -/
theorem entersInReach (h : r.Precedes none False r) (hs : s.FindsInReach) :
    r.EntersInReach s where
  body {name args sub bound t} hrun := by
    have hframe := (h.resolveOverload name args).frame_ok hrun
    rw [resolveOverload_eq] at hrun
    obtain ⟨⟨sub', slots⟩, u, hchosen, hfill⟩ := Run.exists_of_bind_ok hrun
    obtain ⟨values, w, -, hdone⟩ := Run.exists_of_bind_ok hfill
    cases hdone
    exact (hs.overloads name _ (choose_mem hchosen)).stays hframe
  parameter {name args sub slots t} hchosen {params given values u} hfill := by
    have hfound := (hs.overloads name sub (choose_mem hchosen)).stays
      ((h.choose name args).frame_ok hchosen)
    exact hfound.stays ((h.fillDefaults sub params given).frame_ok hfill)
  field {name d} hd {fields elements cells t} hcells {type element v u} hsupplied := by
    have hfound := (hs.data name d hd).stays
      ((h.fieldCells (o := False) d.scope fields elements).frame_ok hcells)
    exact hfound.stays ((h.suppliedValue (o := False) type element).frame_ok hsupplied)

end Precedes

end Evaluator

/-- Whether an outcome is that the scope of a declaration has gone. -/
def Run.Stranded {α : Type} (outcome : EStateM.Result Stop State α) : Prop :=
  ∃ e t, outcome = .error (.error e) t ∧ e.fault = .noActiveScope

/-- Nothing that can be asked for in a state ends for the reason that a scope has gone. -/
structure Evaluator.NeverStrands (r : Evaluator) (s : State) : Prop where
  run : ∀ program, ¬Run.Stranded (r.run program s)
  evaluate : ∀ e, ¬Run.Stranded (r.evaluate e s)
  block : ∀ body, ¬Run.Stranded (r.block body s)
  exec : ∀ stmt, ¬Run.Stranded (r.exec stmt s)
  eval : ∀ hint e, ¬Run.Stranded (r.eval hint e s)
  default : ∀ type, ¬Run.Stranded (r.default type s)
  invoke : ∀ name values, ¬Run.Stranded (r.invoke name values s)

/-- The fault is none that a law tolerates. -/
theorem Law.Good.not_stranded {ι α : Type} {L : Law ι} {room : Option Nat} {p : Site}
    {Q : α → Prop} {outcome : EStateM.Result Stop State α} (h : L.Good room p Q outcome) :
    ¬Run.Stranded outcome := by
  rintro ⟨e, t, rfl, hfault⟩
  rcases h.2 with ⟨-, hother⟩ | hplain
  · exact hother hfault
  · rw [hfault] at hplain
    exact nomatch hplain

/-- Where all declarations are in their scopes, nothing is stranded. -/
theorem State.Obeys.neverStrands {s : State} (h : s.Obeys .all) (fuel : Nat) :
    (Evaluator.ofFuel .standard fuel).NeverStrands s := by
  let L := Grammar.all.law True
  have huniform : L.Uniform fun _ => Evaluator.ofFuel .standard fuel :=
    Evaluator.ofFuel_uniform trivial trivial fuel
  have hcore : ∀ stmt ∈ coreDeclarations,
      L.Executes (fun _ => Evaluator.ofFuel .standard fuel) none stmt :=
    fun stmt _ => huniform.executes stmt trivial
  have hblock : ∀ body, L.Holds none s.site
      (fun _ => (Evaluator.ofFuel .standard fuel).block body)
      fun flow => L.strays ∨ flow.settled = true :=
    fun body => huniform.block (fun _ _ => trivial) fun _ _ _ _ _ => .inl trivial
  have hgood : ∀ {α : Type} {x : Run α} {P : α → Prop},
      L.Holds none s.site (fun _ => x) P → ¬Run.Stranded (x s) :=
    fun hx => (hx.outcome h.inv).1.not_stranded
  constructor
  · exact fun program => hgood (Law.run hcore (hblock program))
  · exact fun e => hgood ((Law.loadCore hcore).bind fun _ _ => huniform.evals e s.site none)
  · exact fun body => hgood (hblock body)
  · exact fun stmt => hgood (huniform.executes stmt trivial s.site)
  · exact fun hint e => hgood (huniform.evals e s.site hint)
  · exact fun type => hgood (huniform.defaults type s.site)
  · exact fun name values => hgood (huniform.invoke name values s.site)

/-- In all states that programs reach or come by, the scopes that are there, those of callers that
wait included, declare for themselves, and no scope that has been left ever held a declaration of
another one. Until something else is declared, what is found along the current chain is declared in
a scope of that chain, also at the moment at which the body or a default runs; and no program, no
statement and no expression ends for the reason that a scope has gone. -/
theorem Reaches.scopes_live {settings : Settings} {s t : State}
    (h : Reaches .standard (.initial settings) s) (ht : t = s ∨ Visits .standard s t)
    (fuel : Nat) :
    let r := Evaluator.ofFuel .standard fuel
    (∀ chain ∈ t.env.chains, ∀ id rest, id :: rest <:+ chain →
      (∀ sub ∈ (t.env.scope id).subs, sub.scope = id :: rest) ∧
        ∀ d ∈ (t.env.scope id).datas, d.scope = id :: rest) ∧
    (∀ id, (∀ sub ∈ (t.env.scope id).subs, ∀ head ∈ sub.scope.head?, head = id) ∧
      ∀ d ∈ (t.env.scope id).datas, ∀ head ∈ d.scope.head?, head = id) ∧
    (∀ u, Frame False t u → u.FindsInReach ∧ r.EntersInReach u) ∧
    r.NeverStrands t := by
  intro r
  have hstanding : t.env.Standing t.env.current := h.standing ht
  have hobeys : t.Obeys .all := by
    rcases ht with rfl | hvisits
    · exact h.obeys
    · exact hvisits.obeys h.obeys
  have hself : r.Precedes none False r :=
    Evaluator.ofFuel_precedes_self Library.standard_framed fuel
  refine ⟨fun chain hchain id rest hsuffix => ?_, fun id => ?_, fun u hframe => ?_,
    hobeys.neverStrands fuel⟩
  · obtain ⟨-, -, hordered, -⟩ := (hstanding.chains chain hchain).suffix hsuffix
    exact ⟨hordered.subs, hordered.datas⟩
  · have hinv : (Grammar.all.law True).Inv none t.site t := hobeys.inv
    have hdeclared := hinv.scope_declared id
    exact ⟨fun sub hsub => (hdeclared.subs sub hsub).2, fun d hd => (hdeclared.datas d hd).2⟩
  · have hfinds : u.FindsInReach := State.InOrder.findsInReach (hstanding.stays hframe).current
    exact ⟨hfinds, hself.entersInReach hfinds⟩

/-- The statements `sub f(n as int = 2) as int { yield n }` and `data P { a int = 1 }`. -/
def declaringLocals : List Stmt :=
  [.generated (.sub (.mk "f" [⟨"n", .prim .int, some (.generated (.literal (.int 2)))⟩] (.prim .int)
      [.generated (.yield (.generated (.name "n")))] false)),
    .generated (.data "P"
      [⟨"a", .prim .int, false, some (.generated (.literal (.int 1)))⟩])]

/-- Inside of a block that declares a sub and a data type, the sub is called. -/
theorem scopes_live_declaringLocals :
    let s := State.initial ⟨false, none, true⟩
    let t := ((Evaluator.ofFuel .standard 1).block declaringLocals).state
      { s with env := s.env.push }
    let r := Evaluator.ofFuel .standard 6
    Reaches .standard (.initial ⟨false, none, true⟩) s ∧ Visits .standard s t ∧
      t.env.chains = [[⟨1⟩, ⟨0⟩], [⟨0⟩]] ∧
      ∃ sub bound w, r.resolveOverload "f" [] t = .ok (sub, bound) w ∧
        sub.scope = [⟨1⟩, ⟨0⟩] ∧ w.env.InReach sub.scope ∧
        (∀ d ∈ (t.env.scope ⟨1⟩).datas, d.scope = [⟨1⟩, ⟨0⟩]) ∧
        ¬Run.Stranded (r.invoke "f" [] t) := by
  intro s t r
  have h : Reaches .standard (.initial ⟨false, none, true⟩) s := .refl
  have hvisits : Visits .standard s t := by
    let p : State := { s with env := s.env.push }
    let u : State := ((Evaluator.exhausted .standard).stmt declaringLocals[0]).state p
    have hcounts : (p.env.scope ⟨1⟩).datas.length = 0 ∧ (u.env.scope ⟨1⟩).datas.length = 0 ∧
        (t.env.scope ⟨1⟩).datas.length = 1 := by decide +kernel
    have hne : ∀ v : State, (v.env.scope ⟨1⟩).datas.length = 0 → v ≠ t := by
      rintro v hv rfl
      omega
    refine .inside .standard (by decide) (hne s rfl) declaringLocals fun hook hhook => ?_
    have hfirst : hook.flow ((Evaluator.exhausted .standard).stmt declaringLocals[0]) p =
      .ok .normal u := (hhook _ p (hne p hcounts.1)).trans rfl
    have hsecond : hook.flow ((Evaluator.exhausted .standard).stmt declaringLocals[1]) u =
      .ok .normal t := (hhook _ u (hne u hcounts.2.1)).trans rfl
    exact (Run.bind_ok hfirst _).trans ((Run.bind_ok hsecond _).trans rfl)
  have hchains : t.env.chains = [[⟨1⟩, ⟨0⟩], [⟨0⟩]] := rfl
  obtain ⟨hstored, -, hreach, hstrands⟩ := Reaches.scopes_live h (.inr hvisits) 6
  obtain ⟨⟨sub, bound⟩, w, hresolved, hscope⟩ := Run.exists_of_endsWith
    (x := r.resolveOverload "f" []) (s := t) (p := fun choice =>
      decide (choice.1.scope = [⟨1⟩, ⟨0⟩])) (by decide +kernel)
  have hhere : [⟨1⟩, ⟨0⟩] ∈ t.env.chains := hchains ▸ List.mem_cons_self
  exact ⟨h, hvisits, hchains, sub, bound, w, hresolved, of_decide_eq_true hscope,
    (hreach t (.refl False t)).2.body hresolved,
    (hstored _ hhere ⟨1⟩ [⟨0⟩] List.suffix_rfl).2, hstrands.invoke "f" []⟩

end BasicScript
