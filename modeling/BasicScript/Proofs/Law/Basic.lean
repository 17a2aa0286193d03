import Mathlib.Data.List.Forall2
import Mathlib.Order.Filter.Basic
import BasicScript.Interpreter
import BasicScript.Proofs.Control.Exits
import BasicScript.Proofs.Law.Local

/-! # Laws of runs

A grammar says which statements programs are made of, and what is then known
of all that they declare. A law follows the runs of such programs, on a family
of evaluators and on two stacks of scopes that differ at the bottom: the runs
settle on one outcome along the family, and it does not depend on the bottom
of the stack.
-/

namespace BasicScript

/-- Whether a written type can stand for a type, where names can stand for some types only. -/
def TypeExpr.Gives (named : String → Ty → Prop) : TypeExpr → Ty → Prop
  | .inferred, t => t = .inferred
  | .prim p, t => t = .prim p
  | .array written _, t => ∃ element size, t = .array element size ∧ written.Gives named element
  | .vararg written, t => ∃ element, t = .vararg element ∧ written.Gives named element
  | .named name, t => named name t

/-- What is related to some element has its counterpart. -/
theorem exists_of_forall₂ {α β : Type} {R : α → β → Prop} {as : List α} {bs : List β}
    (h : List.Forall₂ R as bs) {b : β} (hb : b ∈ bs) : ∃ a ∈ as, R a b := by
  induction h with
  | nil => exact nomatch hb
  | @cons a b' as bs hab _ ih =>
    rcases List.mem_cons.mp hb with rfl | hb
    · exact ⟨a, List.mem_cons_self, hab⟩
    · obtain ⟨a', ha', hr⟩ := ih hb
      exact ⟨a', List.mem_cons_of_mem _ ha', hr⟩

/-- What is known of statements, and of the subs, data types and names that they declare. -/
structure Grammar where
  stmt : Stmt → Prop
  sub : Sub → Prop
  data : DataDecl → Prop
  named : String → Ty → Prop
  parts : ∀ {kind span}, stmt (.mk kind span) → ∀ s ∈ kind.parts, stmt s
  body : ∀ {d}, sub d → ∀ s ∈ d.body, stmt s
  ofSub : ∀ {d span params returns scope}, stmt (.mk (.sub d) span) →
    List.Forall₂ (fun (q : Param) (p : Parameter) =>
      p.default = q.default ∧ q.type.Gives named p.type) d.params params →
    (d.builtin = true →
      Library.standard.Provides (signatureText d.name (params.map (·.type))) returns) →
        sub ⟨d.name, params, returns, d.body, signatureText d.name (params.map (·.type)), scope,
          d.builtin⟩
  ofData : ∀ {name written span fields scope}, stmt (.mk (.data name written) span) →
    List.Forall₂ (fun (f : FieldDef) (g : Field) =>
      g.default = f.default ∧ f.type.Gives named g.type) written fields →
        data ⟨name, fields, scope⟩
  ofAlias : ∀ {name written span t}, stmt (.mk (.alias name written) span) →
    written.Gives named t → named name t
  ofDataName : ∀ {d}, data d → named d.name (.data d.name)
  ofEnumName : ∀ {name kind entries span}, stmt (.mk (.enum name kind entries) span) →
    named name (.enum name)

/-- The declarations in a scope are as a grammar says, and they bear the path of the scope. -/
structure Grammar.Declared (G : Grammar) (id : ScopeId) (sc : Scope) : Prop where
  subs : ∀ sub ∈ sc.subs, G.sub sub ∧ ∀ head ∈ sub.scope.head?, head = id
  datas : ∀ d ∈ sc.datas, G.data d ∧ ∀ head ∈ d.scope.head?, head = id
  names : ∀ a ∈ sc.aliases ++ sc.enums.map fun d => (d.name, .enum d.name), G.named a.1 a.2

theorem Grammar.declared_blank (G : Grammar) (id : ScopeId) : G.Declared id .blank :=
  ⟨fun _ h => (nomatch h), fun _ h => (nomatch h), fun _ h => nomatch h⟩

/-- All declarations are as a grammar says. -/
def State.Obeys (s : State) (G : Grammar) : Prop :=
  ∀ (i : Nat) (sc : Scope), s.env.scopes[i]? = some sc → G.Declared ⟨i⟩ sc

/-- A grammar of certain statements, with runs that are looked at together. -/
structure Law (ι : Type) extends Grammar where
  along : Filter ι
  /-- Whether runs may want fuel. -/
  exhausts : Prop
  /-- Whether a signal may leave the body of a sub. -/
  strays : Prop
  /-- Bottom of the stack of scopes. -/
  below : List ScopePath
  /-- Bottom of the other stack. -/
  instead : List ScopePath

/-- Where a run is: the scopes above the bottom of the stack, and the calls. -/
structure Site where
  stack : List ScopePath
  calls : CallStack

namespace Law

variable {ι : Type} (L : Law ι)

/-- Path of the current scope. -/
def path (p : Site) : ScopePath := (p.stack ++ L.below).headD globalPath

/-- Whether the scope at the head of a path is in reach. -/
def Sees (p : Site) (path : ScopePath) : Prop := ∀ id ∈ path.head?, id ∈ L.path p

/-- States of a run at a site, with room for so many further calls where that is known. -/
structure Inv (room : Option Nat) (p : Site) (s : State) : Prop where
  active : s.env.active = p.stack ++ L.below
  bottom : p.stack = [] → L.below = L.instead
  declared : s.Obeys L.toGrammar
  calls : s.calls = p.calls
  limit : ∀ k ∈ room, p.calls.limit = some (p.calls.frames.length + k)

/-- The state with the other stack. -/
def twin (p : Site) (s : State) : State :=
  { s with env := { s.env with active := p.stack ++ L.instead } }

/-- Errors that are allowed. -/
def Allows (e : Report) : Prop := L.strays ∧ e.fault ≠ .noActiveScope ∨ e.fault.isControl = false

/-- Ways of stopping short that are allowed. Views of values may go round where one of them lies in
itself. -/
def Tolerates (σ : Store) : Stop → Prop
  | .outOfFuel => L.exhausts ∨ σ.Cyclic
  | .error e => L.Allows e

variable {α β γ : Type}

/-- The outcome with the other stack. -/
def twinResult (p : Site) : EStateM.Result Stop State α → EStateM.Result Stop State α
  | .ok a s => .ok a (L.twin p s)
  | .error e s => .error e (L.twin p s)

/-- An outcome that is allowed, with a result as claimed. -/
def Good (room : Option Nat) (p : Site) (Q : α → Prop) : EStateM.Result Stop State α → Prop
  | .ok a s => L.Inv room p s ∧ Q a
  | .error e s => L.Inv room p s ∧ L.Tolerates s.store e

/-- The runs settle on an allowed outcome, which does not depend on the bottom of the stack. -/
def Holds (room : Option Nat) (p : Site) (x : ι → Run α) (Q : α → Prop) : Prop :=
  ∀ s, L.Inv room p s → ∃ outcome, L.Good room p Q outcome ∧
    ∀ᶠ i in L.along, x i s = outcome ∧ x i (L.twin p s) = L.twinResult p outcome

/-- The runs settle, whatever their result is. -/
abbrev Runs (room : Option Nat) (p : Site) (x : ι → Run α) : Prop :=
  L.Holds room p x fun _ => True

variable {L} {room : Option Nat} {p : Site} {s : State}

namespace Inv

theorem current (h : L.Inv room p s) : s.env.current = L.path p := by
  simp only [Environment.current, h.active, path]

theorem twin_current (h : L.Inv room p s) : (L.twin p s).env.current = L.path p := by
  cases hp : p.stack with
  | nil => simp only [twin, Environment.current, path, hp, h.bottom hp]
  | cons first rest => simp only [twin, Environment.current, path, hp, List.cons_append,
      List.headD_cons]

theorem showing (h : L.Inv room p s) (σ : Store) (κ : Console) : L.Inv room p (s.showing σ κ) :=
  ⟨h.active, h.bottom, h.declared, h.calls, h.limit⟩

/-- A scope that is in reach is live on either stack. -/
theorem live (h : L.Inv room p s) {path : ScopePath} (hpath : L.Sees p path) :
    s.env.isLive path = true ∧ (L.twin p s).env.isLive path = true := by
  cases path with
  | nil => exact ⟨rfl, rfl⟩
  | cons id rest =>
    have hmem : id ∈ L.path p := hpath id rfl
    simp only [Environment.isLive, List.head?_cons, Option.all_some, h.current, h.twin_current,
      List.contains_iff_mem.mpr hmem, Bool.true_or, and_self]

theorem scope_declared (h : L.Inv room p s) (id : ScopeId) : L.Declared id (s.env.scope id) := by
  unfold Environment.scope
  cases hsc : s.env.scopes[id.index]? with
  | none => exact L.declared_blank id
  | some sc => exact h.declared id.index sc hsc

theorem twin_search (h : L.Inv room p s) {δ : Type} (find : Scope → Option δ) :
    (L.twin p s).env.search find = s.env.search find := by
  unfold Environment.search
  rw [h.twin_current, h.current]
  rfl

theorem search_some (h : L.Inv room p s) {δ : Type} {find : Scope → Option δ} {a : δ}
    (hfind : s.env.search find = some a) :
    ∃ id ∈ L.path p, ∃ sc, L.Declared id sc ∧ find sc = some a := by
  obtain ⟨id, hid, hfound⟩ := List.exists_of_findSome?_eq_some hfind
  rw [h.current] at hid
  exact ⟨id, hid, s.env.scope id, h.scope_declared id, hfound⟩

end Inv

/-- The state in which an allowed outcome leaves a run. -/
theorem Good.state {x : Run α} {Q : α → Prop} (h : L.Good room p Q (x s)) :
    L.Inv room p (x.state s) := by
  unfold Run.state
  cases hx : x s with
  | ok a t =>
    rw [hx] at h
    exact h.1
  | error e t =>
    rw [hx] at h
    exact h.1

theorem Tolerates.mapReport {σ : Store} {e : Stop} (h : L.Tolerates σ e) {g : Report → Report}
    (hg : ∀ e, (g e).fault = e.fault) : L.Tolerates σ (e.mapReport g) := by
  cases e with
  | error e => simpa only [Stop.mapReport, Tolerates, Allows, hg] using h
  | outOfFuel => exact h

namespace Holds

variable {x y : ι → Run α} {f : ι → α → Run β} {P P' : α → Prop} {Q : β → Prop}

theorem weaken (h : L.Holds room p x P) (hP : ∀ a, P a → P' a) : L.Holds room p x P' := by
  intro s hs
  obtain ⟨outcome, hgood, hruns⟩ := h s hs
  refine ⟨outcome, ?_, hruns⟩
  cases outcome with
  | ok a t => exact ⟨hgood.1, hP a hgood.2⟩
  | error e t => exact hgood

theorem runs (h : L.Holds room p x P) : L.Runs room p x := h.weaken fun _ _ => trivial

/-- A run that is the same along the family has an outcome that is allowed, and the same one on
the other stack. -/
theorem outcome [L.along.NeBot] {x : Run α} (h : L.Holds room p (fun _ => x) P)
    (hs : L.Inv room p s) : L.Good room p P (x s) ∧ x (L.twin p s) = L.twinResult p (x s) := by
  obtain ⟨outcome, hgood, hruns⟩ := h s hs
  obtain ⟨_, hrun, htwin⟩ := hruns.exists
  have hx : x s = outcome := hrun
  rw [hx]
  exact ⟨hgood, htwin⟩

/-- A claim about every result in its own right. -/
theorem claim (h : L.Runs room p x) (hP : ∀ i s a t, x i s = .ok a t → P a) [L.along.NeBot] :
    L.Holds room p x P := by
  intro s hs
  obtain ⟨outcome, hgood, hruns⟩ := h s hs
  obtain ⟨i, hi, -⟩ := hruns.exists
  refine ⟨outcome, ?_, hruns⟩
  cases outcome with
  | ok a t => exact ⟨hgood.1, hP i s a t hi⟩
  | error e t => exact hgood

/-- A run that comes out the same along the family. -/
theorem of_result {r : Run α} (outcome : EStateM.Result Stop State α)
    (hgood : L.Good room p P outcome) (hrun : r s = outcome)
    (htwin : r (L.twin p s) = L.twinResult p outcome) :
    ∃ outcome, L.Good room p P outcome ∧
      ∀ᶠ _ in L.along, r s = outcome ∧ r (L.twin p s) = L.twinResult p outcome :=
  ⟨outcome, hgood, .of_forall fun _ => ⟨hrun, htwin⟩⟩

theorem pure {a : α} (h : P a) : L.Holds room p (fun _ => Pure.pure a) P :=
  fun _ hs => of_result (.ok a _) ⟨hs, h⟩ rfl rfl

/-- A claim about the results of a local run. -/
theorem of_local_claim {r : Run α} (h : r.Local True) (hP : ∀ s a t, r s = .ok a t → P a) :
    L.Holds room p (fun _ => r) P := by
  intro s hs
  obtain ⟨σ, κ, ⟨a, ha⟩ | ⟨g, hg, hstop⟩ | ⟨⟨-, hcyclic⟩, hstop⟩⟩ := h s.store s.console
  · exact of_result (.ok a (s.showing σ κ)) ⟨hs.showing σ κ, hP s a _ (ha s)⟩ (ha s)
      (ha (L.twin p s))
  · exact of_result (.error (.error (.ofFault g)) (s.showing σ κ)) ⟨hs.showing σ κ, .inr hg⟩
      (hstop s) (hstop (L.twin p s))
  · exact of_result (.error .outOfFuel (s.showing σ κ)) ⟨hs.showing σ κ, .inr hcyclic⟩ (hstop s)
      (hstop (L.twin p s))

theorem of_local {r : Run α} (h : r.Local True) : L.Runs room p fun _ => r :=
  of_local_claim h fun _ _ _ _ => trivial

theorem fail {g : Fault} (hg : g.isControl = false) : L.Holds room p (fun _ => Run.fail g) P :=
  fun _ hs => of_result (.error (.error (.ofFault g)) _) ⟨hs, .inr hg⟩ rfl rfl

/-- What is read in the same way on either stack. -/
theorem read {g : State → α} (h : ∀ s, L.Inv room p s → g (L.twin p s) = g s ∧ P (g s)) :
    L.Holds room p (fun _ => Run.read g) P := by
  intro s hs
  obtain ⟨htwin, hP⟩ := h s hs
  exact of_result (.ok (g s) s) ⟨hs, hP⟩ rfl (congrArg (EStateM.Result.ok · _) htwin)

theorem bind (hx : L.Holds room p x P) (hf : ∀ a, P a → L.Holds room p (fun i => f i a) Q) :
    L.Holds room p (fun i => x i >>= f i) Q := by
  intro s hs
  obtain ⟨outcome, hgood, hruns⟩ := hx s hs
  cases outcome with
  | ok a t =>
    obtain ⟨outcome', hgood', hruns'⟩ := hf a hgood.2 t hgood.1
    refine ⟨outcome', hgood', ?_⟩
    filter_upwards [hruns, hruns'] with i hi hi'
    exact ⟨(Run.bind_ok hi.1 _).trans hi'.1, (Run.bind_ok hi.2 _).trans hi'.2⟩
  | error e t =>
    refine ⟨.error e t, hgood, ?_⟩
    filter_upwards [hruns] with i hi
    exact ⟨Run.bind_error hi.1 _, Run.bind_error hi.2 _⟩

theorem ite {c : Prop} [Decidable c] (hx : c → L.Holds room p x P) (hy : ¬c → L.Holds room p y P) :
    L.Holds room p (fun i => if c then x i else y i) P := by
  by_cases hc : c
  · simp only [hc, if_true]
    exact hx hc
  · simp only [hc, if_false]
    exact hy hc

/-- A test that has to fail for the run to go on. -/
theorem guarded {c : Prop} [Decidable c] {g : Fault} {z : ι → Unit → Run α}
    (hg : g.isControl = false) (hx : L.Holds room p x P) :
    L.Holds room p (fun i => if c then Run.fail g >>= z i else x i) P :=
  ite (fun _ => bind (P := fun _ => False) (fail hg) fun _ h => h.elim) fun _ => hx

theorem require {g : Fault} (hg : g.isControl = false) {found : Option α}
    (h : ∀ a ∈ found, P a) : L.Holds room p (fun _ => Run.require g found) P := by
  cases found with
  | some a => exact pure (h a rfl)
  | none => exact fail hg

theorem mapReport {g : Report → Report} (hg : ∀ e, (g e).fault = e.fault)
    (h : L.Holds room p x P) : L.Holds room p (fun i => Run.mapReport g (x i)) P := by
  intro s hs
  obtain ⟨outcome, hgood, hruns⟩ := h s hs
  cases outcome with
  | ok a t =>
    refine ⟨.ok a t, hgood, ?_⟩
    filter_upwards [hruns] with i hi
    exact ⟨by simp only [Run.mapReport, hi.1], by simp only [Run.mapReport, hi.2, twinResult]⟩
  | error e t =>
    refine ⟨.error (e.mapReport g) t, ⟨hgood.1, hgood.2.mapReport hg⟩, ?_⟩
    filter_upwards [hruns] with i hi
    exact ⟨by simp only [Run.mapReport, hi.1], by simp only [Run.mapReport, hi.2, twinResult]⟩

theorem atSpan (span : Span) (h : L.Holds room p x P) :
    L.Holds room p (fun i => Run.atSpan span (x i)) P := h.mapReport fun _ => rfl

theorem traced (what : String) (span : Span) (h : L.Holds room p x P) :
    L.Holds room p (fun i => Run.traced what span (x i)) P := h.mapReport fun _ => rfl

theorem either {z : ι → Report → Run β} (hx : L.Holds room p x P)
    (hf : ∀ a, P a → L.Holds room p (fun i => f i a) Q)
    (hz : ∀ e, L.Allows e → L.Holds room p (fun i => z i e) Q) :
    L.Holds room p (fun i => Run.either (x i) (f i) (z i)) Q := by
  intro s hs
  obtain ⟨outcome, hgood, hruns⟩ := hx s hs
  match outcome, hgood, hruns with
  | .ok a t, hgood, hruns =>
    obtain ⟨outcome', hgood', hruns'⟩ := hf a hgood.2 t hgood.1
    refine ⟨outcome', hgood', ?_⟩
    filter_upwards [hruns, hruns'] with i hi hi'
    exact ⟨by simp only [Run.either, hi.1, hi'.1],
      by simp only [Run.either, hi.2, twinResult, hi'.2]⟩
  | .error (.error e) t, hgood, hruns =>
    obtain ⟨outcome', hgood', hruns'⟩ := hz e hgood.2 t hgood.1
    refine ⟨outcome', hgood', ?_⟩
    filter_upwards [hruns, hruns'] with i hi hi'
    exact ⟨by simp only [Run.either, hi.1, hi'.1],
      by simp only [Run.either, hi.2, twinResult, hi'.2]⟩
  | .error .outOfFuel t, hgood, hruns =>
    refine ⟨.error .outOfFuel t, hgood, ?_⟩
    filter_upwards [hruns] with i hi
    exact ⟨by simp only [Run.either, hi.1], by simp only [Run.either, hi.2, twinResult]⟩

theorem stop {e : Report} (h : L.Allows e) :
    L.Holds room p (fun _ => Run.stop e) P :=
  fun _ hs => of_result (.error (.error e) _) ⟨hs, h⟩ rfl rfl

theorem mapM {g : ι → γ → Run β} {R : γ → β → Prop} (as : List γ)
    (h : ∀ a ∈ as, L.Holds room p (fun i => g i a) (R a)) :
    L.Holds room p (fun i => as.mapM (g i)) fun bs => List.Forall₂ R as bs := by
  induction as with
  | nil => exact pure .nil
  | cons a as ih =>
    rw [List.forall_mem_cons] at h
    simp only [List.mapM_cons]
    exact h.1.bind fun b hb => (ih h.2).bind fun bs hbs => pure (.cons hb hbs)

theorem mapM_runs {g : ι → γ → Run β} (as : List γ) (h : ∀ a ∈ as, L.Runs room p fun i => g i a) :
    L.Runs room p fun i => as.mapM (g i) :=
  (mapM (R := fun _ _ => True) as h).runs

end Holds

end Law

end BasicScript
