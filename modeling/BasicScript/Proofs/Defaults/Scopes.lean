import BasicScript.Proofs.Calls.Choice
import BasicScript.Proofs.Defaults.Parts
import BasicScript.Proofs.Calls.Lexical

/-! # Defaults and the scopes of the caller

The default expression of a parameter is evaluated below the scope of the sub,
that of a field below the scope of the data type, and neither shows where the
call was made. A parameter without an expression takes the default of its
type, and for that the names of data types and enums are looked up where the
call is made: two call sites get the same default if these names mean the same
to both, and not otherwise.
-/

namespace BasicScript

/-- The names that go into the default of a type mean the same in two environments. -/
structure Environment.AgreesOn (env env' : Environment) (t : Ty) : Prop where
  data : ∀ name, env.Parts t (.data name) → env'.data? name = env.data? name
  enum : ∀ name, env.Parts t (.enum name) → env'.enum? name = env.enum? name

namespace Environment

variable {env env' : Environment} {t u : Ty}

theorem AgreesOn.part (h : env.AgreesOn env' t) (hpart : env.Part t u) : env.AgreesOn env' u where
  data name hparts := h.data name (.head hpart hparts)
  enum name hparts := h.enum name (.head hpart hparts)

theorem AgreesOn.of_closed (types : Ty → Prop) (ht : types t)
    (hpart : ∀ u w, types u → env.Part u w → types w)
    (hdata : ∀ name, types (.data name) → env'.data? name = env.data? name)
    (henum : ∀ name, ¬types (.enum name)) : env.AgreesOn env' t where
  data name hu := hdata name (hu.closed types ht hpart)
  enum name hu := absurd (hu.closed types ht hpart) (henum name)

/-- What a default is made of depends on the meaning of the names of data types alone. -/
theorem Part.congr (hdata : ∀ name, env'.data? name = env.data? name) (h : env'.Part t u) :
    env.Part t u := by
  cases h with
  | element hsize => exact .element hsize
  | field hdecl hfield hnone => exact .field (hdata _ ▸ hdecl) hfield hnone

end Environment

namespace State

/-- With what has been run, scopes have come and gone, and no declaration has changed. -/
structure Follows (s t : State) : Prop where
  size : s.env.scopes.size ≤ t.env.scopes.size
  tables : ∀ i < s.env.scopes.size, t.env.scopes[i]? = s.env.scopes[i]?
  obeys : t.Obeys .all

/-- The scopes in reach on a stack exist. -/
def Exists (stack : List ScopePath) (s : State) : Prop :=
  ∀ id ∈ (s.onStack stack).env.current, id.index < s.env.scopes.size

variable {a b stack : List ScopePath} {s t u : State} {ty : Ty}

theorem onStack_self (h : t.env.active = stack) : t.onStack stack = t := by
  subst h
  rfl

namespace Follows

theorem refl (h : s.Obeys .all) : s.Follows s := ⟨Nat.le_refl _, fun _ _ => rfl, h⟩

theorem trans (h : s.Follows t) (h' : t.Follows u) : s.Follows u where
  size := Nat.le_trans h.size h'.size
  tables i hi :=
    (h'.tables i (Nat.lt_of_lt_of_le hi h.size)).trans (h.tables i hi)
  obeys := h'.obeys

theorem of_frame (h : Frame False (s.onStack stack) t) (ht : t.Obeys .all) : s.Follows t :=
  ⟨h.grows.scopes.size_le, fun i hi => h.tables i hi False.elim, ht⟩

theorem exist (h : s.Follows t) (hexists : s.Exists stack) : t.Exists stack :=
  fun id hid => Nat.lt_of_lt_of_le (hexists id hid) h.size

/-- A search on a stack of scopes that were there finds what it found. -/
theorem search (h : s.Follows t) (hexists : s.Exists stack) {δ : Type}
    (find : Scope → Option δ) :
    (t.onStack stack).env.search find = (s.onStack stack).env.search find := by
  have hcurrent : (t.onStack stack).env.current = (s.onStack stack).env.current := rfl
  unfold Environment.search
  rw [hcurrent, ← List.head?_filterMap, ← List.head?_filterMap]
  refine congrArg List.head? (List.filterMap_congr fun id hid => congrArg find ?_)
  have hscope : t.env.scopes[id.index]? = s.env.scopes[id.index]? :=
    h.tables id.index (hexists id hid)
  show t.env.scope id = s.env.scope id
  unfold Environment.scope
  rw [hscope]

end Follows

/-- Two stacks on which the names in the default of a type mean the same. -/
structure Alike (a b : List ScopePath) (ty : Ty) (s : State) : Prop where
  obeys : s.Obeys .all
  left : s.Exists a
  right : s.Exists b
  agrees : (s.onStack a).env.AgreesOn (s.onStack b).env ty

namespace Alike

theorem part (h : s.Alike a b ty) {ty' : Ty} (hpart : (s.onStack a).env.Part ty ty') :
    s.Alike a b ty' :=
  { h with agrees := h.agrees.part hpart }

theorem follows (h : s.Alike a b ty) (ht : s.Follows t) : t.Alike a b ty where
  obeys := ht.obeys
  left := ht.exist h.left
  right := ht.exist h.right
  agrees := by
    have hdata : ∀ name, (t.onStack a).env.data? name = (s.onStack a).env.data? name :=
      fun name => ht.search h.left (·.data? name)
    have hparts : ∀ {ty'}, (t.onStack a).env.Parts ty ty' → (s.onStack a).env.Parts ty ty' :=
      fun h => Relation.ReflTransGen.mono (fun _ _ => Environment.Part.congr hdata) _ _ h
    constructor
    · intro name hname
      have hright := ht.search h.right (·.data? name)
      exact (hright.trans (h.agrees.data name (hparts hname))).trans (hdata name).symm
    · intro name hname
      have hleft := ht.search h.left (·.enum? name)
      have hright := ht.search h.right (·.enum? name)
      exact (hright.trans (h.agrees.enum name (hparts hname))).trans hleft.symm

end Alike

namespace Obeys

/-- The scope of a data declaration that is found can be reached. -/
theorem data_live (h : s.Obeys .all) {name : String} {decl : DataDecl}
    (hdecl : s.env.data? name = some decl) : s.env.isLive decl.scope = true := by
  have hinv : (Grammar.all.law True).Inv none s.site s := h.inv
  obtain ⟨⟨-, hfound⟩, -⟩ := (Law.Holds.data name).outcome hinv
  exact (hinv.live (hfound decl hdecl).2.2).1

end Obeys

end State

namespace Run

variable {α β : Type} {a b : List ScopePath} {x y : Run α} {s t : State}

/-- A run that has the same outcome on either of two stacks, and changes no declaration. -/
structure Parallel (a b : List ScopePath) (x : Run α) (s : State) : Prop where
  blind : x.BlindTo a b s
  active : (x.state (s.onStack a)).env.active = a
  follows : s.Follows (x.state (s.onStack a))

namespace Parallel

/-- A run on the first stack, with the same outcome on the second. -/
theorem of_result {outcome : EStateM.Result Stop State α} (hleft : x (s.onStack a) = outcome)
    (hright : x (s.onStack b) = resultOn b outcome) (h : s.Follows (x.state (s.onStack a)))
    (hactive : (x.state (s.onStack a)).env.active = a) : x.Parallel a b s :=
  ⟨by rw [BlindTo, hleft, hright], hactive, h⟩

theorem of_local (h : x.Local True) (hs : s.Obeys .all) : x.Parallel a b s := by
  have hstate : ∃ σ κ, x.state (s.onStack a) = (s.onStack a).showing σ κ := by
    obtain ⟨σ, κ, ⟨v, hv⟩ | ⟨f, -, hf⟩ | ⟨-, hf⟩⟩ := h s.store s.console
    · exact ⟨σ, κ, Run.state_ok (hv (s.onStack a))⟩
    · exact ⟨σ, κ, Run.state_error (hf (s.onStack a))⟩
    · exact ⟨σ, κ, Run.state_error (hf (s.onStack a))⟩
  obtain ⟨σ, κ, hstate⟩ := hstate
  refine ⟨.of_local h, ?_, ?_⟩
  · rw [hstate]
    rfl
  · rw [hstate]
    exact ⟨Nat.le_refl _, fun _ _ => rfl, hs⟩

theorem pure (v : α) (hs : s.Obeys .all) : (Pure.pure v : Run α).Parallel a b s :=
  of_local (.pure v) hs

theorem bind {f : α → Run β} (hx : x.Parallel a b s)
    (hf : ∀ v t, s.Follows t → x (s.onStack a) = .ok v t → (f v).Parallel a b t) :
    (x >>= f).Parallel a b s := by
  obtain ⟨hblind, hactive, hfollows⟩ := hx
  unfold BlindTo at hblind
  cases hrun : x (s.onStack a) with
  | ok v t =>
    rw [Run.state_ok hrun] at hfollows hactive
    rw [hrun] at hblind
    have hnext := hf v t hfollows hrun
    have hleft : (x >>= f) (s.onStack a) = f v (t.onStack a) :=
      (Run.bind_ok hrun f).trans (congrArg (f v) (State.onStack_self hactive).symm)
    have hstate : (x >>= f).state (s.onStack a) = (f v).state (t.onStack a) := by
      simp only [Run.state, hleft]
    refine of_result hleft ((Run.bind_ok hblind f).trans hnext.blind) ?_ ?_
    · rw [hstate]
      exact hfollows.trans hnext.follows
    · rw [hstate]
      exact hnext.active
  | error e t =>
    rw [Run.state_error hrun] at hfollows hactive
    rw [hrun] at hblind
    have hleft := Run.bind_error hrun f
    refine of_result hleft (Run.bind_error hblind f) ?_ ?_
    · rwa [Run.state_error hleft]
    · rwa [Run.state_error hleft]

/-- A run that stops short at once. -/
theorem stopped {e : Stop} (hx : ∀ t, x t = .error e t) (hs : s.Obeys .all) :
    x.Parallel a b s := by
  have hstate : x.state (s.onStack a) = s.onStack a := Run.state_error (hx _)
  refine of_result (hx _) (hx _) ?_ ?_
  · rw [hstate]
    exact ⟨Nat.le_refl _, fun _ _ => rfl, hs⟩
  · rw [hstate]
    rfl

/-- What is read in the same way on either stack. -/
theorem readBind {g : State → α} {f : α → Run β} (hg : g (s.onStack b) = g (s.onStack a))
    (hf : (f (g (s.onStack a))).Parallel a b s) : (Run.read g >>= f).Parallel a b s := by
  refine ⟨?_, hf.active, hf.follows⟩
  show f (g (s.onStack b)) (s.onStack b) = _
  rw [hg]
  exact hf.blind

theorem requireBind {fault : Fault} {v : Option α} {f : α → Run β} (hs : s.Obeys .all)
    (hf : ∀ w, v = some w → (f w).Parallel a b s) :
    (Run.require fault v >>= f).Parallel a b s := by
  cases v with
  | none => exact stopped (fun _ => rfl) hs
  | some w => exact hf w rfl

theorem mapM {γ : Type} {g : γ → Run β} {cs : List γ} (hs : s.Obeys .all)
    (h : ∀ c ∈ cs, ∀ t, s.Follows t → (g c).Parallel a b t) : (cs.mapM g).Parallel a b s := by
  induction cs generalizing s with
  | nil => exact pure [] hs
  | cons c cs ih =>
    rw [List.forall_mem_cons] at h
    rw [List.mapM_cons]
    refine (h.1 s (.refl hs)).bind fun v t ht _ => ?_
    refine (ih ht.obeys fun c hc u hu => h.2 c hc u (ht.trans hu)).bind fun vs u hu _ => ?_
    exact pure _ hu.obeys

end Parallel

end Run

namespace Evaluator

variable {a b : List ScopePath} {r : Evaluator} {s : State}

open Run.Parallel (of_local)

/-- Evaluators whose defaults are the same on either of two stacks, if they are made of the same
types. -/
structure Levels (r : Evaluator) (a b : List ScopePath) : Prop where
  default : ∀ (ty : Ty) (s : State), s.Alike a b ty → (r.default ty).Parallel a b s
  /-- Below a scope that can be reached from both. -/
  below : ∀ (path : ScopePath) (hint : Option Ty) (e : Expr) (s : State), s.Obeys .all →
    (s.onStack a).env.isLive path = true → (s.onStack b).env.isLive path = true →
      (Run.inLiveScope path (r.eval hint e)).Parallel a b s

namespace Levels

theorem fieldValue (h : r.Levels a b) {scope : ScopePath} {field : Field} (hs : s.Obeys .all)
    (hleft : (s.onStack a).env.isLive scope = true)
    (hright : (s.onStack b).env.isLive scope = true)
    (hfield : field.default = none → s.Alike a b field.type) :
    (r.fieldValue scope field none).Parallel a b s := by
  cases hdefault : field.default with
  | none =>
    have hvalue : r.fieldValue scope field none = r.default field.type := by
      simp only [Evaluator.fieldValue, Evaluator.suppliedValue, hdefault]
      rfl
    exact hvalue ▸ h.default field.type s (hfield hdefault)
  | some e =>
    have hvalue : r.fieldValue scope field none =
        Run.inLiveScope scope (r.eval field.type.hint? e) := by
      simp only [Evaluator.fieldValue, Evaluator.suppliedValue, hdefault]
      rfl
    exact hvalue ▸ h.below scope _ e s hs hleft hright

/-- The scopes of the declaration stay in reach while the fields are filled one after another. -/
theorem fieldCells (h : r.Levels a b) {scope : ScopePath} {fields : List Field}
    (hs : s.Obeys .all) (hleft : (s.onStack a).env.isLive scope = true)
    (hright : (s.onStack b).env.isLive scope = true)
    (hfields : ∀ field ∈ fields, field.default = none → s.Alike a b field.type) :
    (r.fieldCells scope fields []).Parallel a b s := by
  induction fields generalizing s with
  | nil => exact .pure [] hs
  | cons field fields ih =>
    rw [List.forall_mem_cons] at hfields
    refine (h.fieldValue hs hleft hright hfields.1).bind fun v t ht _ => ?_
    refine (of_local (.conform field.type v) ht.obeys).bind fun w t' ht' _ => ?_
    refine (of_local (.newCell _) ht'.obeys).bind fun cell u hu _ => ?_
    have hsince := (ht.trans ht').trans hu
    refine (ih hu.obeys hleft hright fun f hf hnone =>
      (hfields.2 f hf hnone).follows hsince).bind fun cells w hw _ => ?_
    exact .pure _ hw.obeys

theorem instantiateData (h : r.Levels a b) {name : String} (hs : s.Alike a b (.data name)) :
    (r.instantiateData name []).Parallel a b s := by
  have hsame : (s.onStack b).env.data? name = (s.onStack a).env.data? name :=
    hs.agrees.data name .refl
  refine .readBind hsame (.requireBind hs.obeys fun decl hdecl => ?_)
  have hleft : (s.onStack a).env.isLive decl.scope = true :=
    State.Obeys.data_live (s := s.onStack a) hs.obeys hdecl
  have hright : (s.onStack b).env.isLive decl.scope = true :=
    State.Obeys.data_live (s := s.onStack b) hs.obeys (hsame.trans hdecl)
  have hfields : (r.fieldCells decl.scope decl.fields []).Parallel a b s :=
    h.fieldCells hs.obeys hleft hright fun field hmem hnone => hs.part (.field hdecl hmem hnone)
  have hcount : ¬decl.fields.length < ([] : List Expr).length := Nat.not_lt_zero _
  rw [if_neg hcount]
  exact hfields.bind fun cells t ht _ => .pure _ ht.obeys

/-- One case for each form of type. -/
theorem defaultValue (h : r.Levels a b) {ty : Ty} (hs : s.Alike a b ty) :
    (r.defaultValue ty).Parallel a b s := by
  unfold Evaluator.defaultValue
  split
  · exact .pure _ hs.obeys
  · exact .pure _ hs.obeys
  · exact .pure _ hs.obeys
  · exact .pure _ hs.obeys
  · exact .pure _ hs.obeys
  · split
    · exact .pure _ hs.obeys
    · exact of_local (.fail rfl) hs.obeys
  · exact of_local (.fail rfl) hs.obeys
  · next element size =>
    have helements : ((List.replicate (size.getD 0) element).mapM r.default).Parallel a b s := by
      refine .mapM hs.obeys fun ty' hmem t ht => ?_
      obtain ⟨hsize, rfl⟩ := List.mem_replicate.mp hmem
      exact h.default _ t ((hs.part (.element (Nat.pos_of_ne_zero hsize))).follows ht)
    exact helements.bind fun vs t ht _ => of_local (.newArray _ vs) ht.obeys
  · exact of_local (.newArray _ []) hs.obeys
  · next name => exact h.instantiateData hs
  · next name =>
    refine .readBind (hs.agrees.enum name .refl) (.requireBind hs.obeys fun decl _ => ?_)
    exact of_local (.require rfl _) hs.obeys

end Levels

/-- Below a scope that can be reached from both stacks, expressions are level. -/
theorem inLiveScope_parallel (fuel : Nat) {path : ScopePath} (hint : Option Ty) (e : Expr)
    (hs : s.Obeys .all) (hleft : (s.onStack a).env.isLive path = true)
    (hright : (s.onStack b).env.isLive path = true) :
    (Run.inLiveScope path ((ofFuel .standard fuel).eval hint e)).Parallel a b s := by
  let x := (ofFuel .standard fuel).eval hint e
  have hframe : Frame False (s.onStack a) ((Run.inLiveScope path x).state (s.onStack a)) :=
    (((ofFuel_precedes_self (c := False) Library.standard_framed fuel).eval hint
      e).inLiveScope path).frame (s.onStack a)
  have hobeys : ((Run.inLiveScope path x).state (s.onStack a)).Obeys .all := by
    have hrun : Run.inLiveScope path x (s.onStack a) = Run.inScopeBelow path x (s.onStack a) :=
      if_pos hleft
    have hbelow : (Grammar.all.law True).Runs none (s.onStack a).site
        fun _ => Run.inScopeBelow path x :=
      .inScopeBelow path fun q => (ofFuel_uniform trivial trivial fuel).evals e q hint
    have hinv : (Grammar.all.law True).Inv none (s.onStack a).site (s.onStack a) :=
      State.Obeys.inv (s := s.onStack a) hs
    have hgood := (hbelow.outcome hinv).1.state.declared
    unfold Run.state at hgood ⊢
    rwa [hrun]
  refine ⟨.inLiveScope (hleft.trans hright.symm) (.inScopeBelow path hs fun p => ?_),
    hframe.active, .of_frame hframe hobeys⟩
  exact (ofFuel_uniform trivial trivial fuel).evals e p hint

/-- Whatever the fuel, defaults are level. -/
theorem ofFuel_levels (fuel : Nat) (a b : List ScopePath) : (ofFuel .standard fuel).Levels a b := by
  induction fuel with
  | zero =>
    constructor
    · exact fun _ _ hs => .stopped (fun _ => rfl) hs.obeys
    · exact fun _ hint e _ hs => inLiveScope_parallel 0 hint e hs
  | succ fuel ih =>
    constructor
    · exact fun _ _ hs => ih.defaultValue hs
    · exact fun _ hint e _ hs => inLiveScope_parallel (fuel + 1) hint e hs

namespace Levels

variable {sub : Sub}

/-- A parameter takes its expression below the scope of the sub, or else the default of its type. -/
theorem filled (h : r.Levels a b) {p : Parameter} {slot : Option Value} (hs : s.Obeys .all)
    (hleft : (s.onStack a).env.isLive sub.scope = true)
    (hright : (s.onStack b).env.isLive sub.scope = true)
    (hopen : slot = none → p.default = none → s.Alike a b p.type) :
    (r.filled sub p slot).Parallel a b s := by
  cases slot with
  | some v => exact .pure v hs
  | none =>
    have hdefault : (r.parameterDefault sub p).Parallel a b s := by
      unfold Evaluator.parameterDefault
      cases hnone : p.default with
      | none => exact h.default p.type s (hopen rfl hnone)
      | some e => exact h.below sub.scope _ e s hs hleft hright
    exact hdefault.bind fun v t ht _ => of_local (.conform p.type v) ht.obeys

theorem fillDefaults (h : r.Levels a b) {ps : List Parameter} {slots : List (Option Value)}
    (hs : s.Obeys .all) (hleft : (s.onStack a).env.isLive sub.scope = true)
    (hright : (s.onStack b).env.isLive sub.scope = true)
    (hopen : ∀ p, (p, none) ∈ ps.zip slots → p.default = none → s.Alike a b p.type) :
    (r.fillDefaults sub ps slots).Parallel a b s := by
  rw [fillDefaults_eq]
  refine .mapM hs fun place hmem t ht => h.filled ht.obeys hleft hright fun hslot hnone => ?_
  refine (hopen place.1 ?_ hnone).follows ht
  rwa [← hslot]

end Levels

/-- Call sites that see the same overloads make the same choice for values. -/
theorem choose_parallel {name : String} (hs : s.Obeys .all)
    (hsame : (s.onStack b).env.overloads name = (s.onStack a).env.overloads name)
    (values : List Value) : (r.choose name (values.map .ready)).Parallel a b s := by
  have hfitting : (fittingOverloads name (values.map Pending.ready).length).Parallel a b s :=
    .readBind hsame (of_local (.guarded rfl (.guarded rfl (.pure _))) hs)
  exact hfitting.bind fun subs t ht _ => of_local (firstChoice_local name values subs) ht.obeys

/-- Defaults come out the same at any two call sites that choose the same overload, if the data
types and enums that go into the default of a type are the same to both. Parameters with default
expressions may ask for whatever is there in the scope of the sub, and the same goes for fields;
only where there is no expression are the names looked up where the call is made. Two sites that see
the same overloads choose the same one, with the same values for its places. -/
theorem defaults_blind {settings : Settings} {s : State} {a b : List ScopePath}
    (ha : (s.onStack a).Amid settings) (hb : (s.onStack b).Amid settings) (fuel : Nat)
    (name : String) (values : List Value) :
    let r := ofFuel .standard fuel
    ((s.onStack b).env.overloads name = (s.onStack a).env.overloads name →
      r.choose name (values.map .ready) (s.onStack b) =
        Run.resultOn b (r.choose name (values.map .ready) (s.onStack a))) ∧
    ∀ sub slots t, r.choose name (values.map .ready) (s.onStack a) = .ok (sub, slots) t →
      r.choose name (values.map .ready) (s.onStack b) = .ok (sub, slots) (t.onStack b) →
      (∀ p, (p, none) ∈ sub.params.zip slots → p.default = none →
        (s.onStack a).env.AgreesOn (s.onStack b).env p.type) →
      r.resolveOverload name (values.map .ready) (s.onStack b) =
        Run.resultOn b (r.resolveOverload name (values.map .ready) (s.onStack a)) := by
  intro r
  have hobeys : s.Obeys .all := ha.obeys
  refine ⟨fun hsame => (choose_parallel hobeys hsame values).blind,
    fun sub slots t hleft hright hopen => ?_⟩
  have hchosen : (r.choose name (values.map .ready)).Parallel a a s :=
    choose_parallel hobeys rfl values
  have hactive := hchosen.active
  have ht := hchosen.follows
  rw [Run.state_ok hleft] at hactive ht
  have hfill : (r.fillDefaults sub sub.params slots).Parallel a b t := by
    refine (ofFuel_levels fuel a b).fillDefaults ht.obeys ?_ ?_ fun p hmem hnone => ?_
    · exact State.Obeys.sub_live (s := s.onStack a) hobeys (choose_mem hleft)
    · exact State.Obeys.sub_live (s := s.onStack b) hobeys (choose_mem hright)
    · have halike : s.Alike a b p.type :=
        ⟨hobeys, ha.nested.current.2, hb.nested.current.2, hopen p hmem hnone⟩
      exact halike.follows ht
  have hfilled : (r.fill (sub, slots)).BlindTo a b t :=
    (hfill.bind fun bound w hw _ => .pure _ hw.obeys).blind
  rw [resolveOverload_eq, Run.bind_ok hleft, Run.bind_ok hright]
  have hstay := State.onStack_self hactive
  unfold Run.BlindTo at hfilled
  rwa [hstay] at hfilled

end Evaluator

/-- The program `data P { a int = 1 }  sub f(p P) int { yield p.a }  { data P { a int = 2 } }
{ data Q { p P } }`. -/
def shadowedDefault : List Stmt :=
  [.generated (.data "P" [⟨"a", .prim .int, false, some (.generated (.literal (.int 1)))⟩]),
    .generated (.sub (.mk "f" [⟨"p", .named "P", none⟩] (.prim .int)
      [.generated (.yield (.generated (.getMember (.generated (.name "p")) "a")))] false)),
    .generated (.block
      [.generated (.data "P" [⟨"a", .prim .int, false, some (.generated (.literal (.int 2)))⟩])]),
    .generated (.block [.generated (.data "Q" [⟨"p", .named "P", false, none⟩])])]

/-- The field `a` of the first value that is bound for the call `f(empty)`. -/
def Evaluator.boundField (r : Evaluator) : Run Value := do
  let bound ← r.resolveOverload "f" [.ready .empty]
  getMember (bound.2.headD .none) "a"

/-- A block without overloads shows those of the global scope. -/
theorem State.overloads_block {s : State} {id : ScopeId} (hid : (s.env.scope id).subs = [])
    (name : String) : (s.onStack [[id, ⟨0⟩]]).env.overloads name =
      (s.onStack []).env.overloads name := by
  have hnone : (s.env.scope id).overloads name = [] := by
    simp only [Scope.overloads, hid, List.filter_nil]
  show (s.env.scope id).overloads name ++ ((s.env.scope ⟨0⟩).overloads name ++ []) =
    (s.env.scope ⟨0⟩).overloads name ++ []
  rw [hnone, List.nil_append]

/-- A block without data types shows those of the global scope. -/
theorem State.data?_block {s : State} {id : ScopeId} {name : String}
    (hid : (s.env.scope id).data? name = none) :
    (s.onStack [[id, ⟨0⟩]]).env.data? name = (s.onStack []).env.data? name := by
  show [id, ⟨0⟩].findSome? (fun id => (s.env.scope id).data? name) =
    [⟨0⟩].findSome? fun id => (s.env.scope id).data? name
  rw [List.findSome?_cons, hid]

/-- Whether a run ends with a result that passes a test. -/
def Run.endsWith {α : Type} (x : Run α) (p : α → Bool) (s : State) : Bool :=
  match x s with
  | .ok v _ => p v
  | .error _ _ => false

theorem Run.exists_of_endsWith {α : Type} {x : Run α} {p : α → Bool} {s : State}
    (h : x.endsWith p s = true) : ∃ v t, x s = .ok v t ∧ p v = true := by
  unfold Run.endsWith at h
  cases hx : x s with
  | ok v t =>
    rw [hx] at h
    exact ⟨v, t, rfl, h⟩
  | error e t =>
    rw [hx] at h
    exact nomatch h

/-- In the block that declares another data type `Q`, the default of the parameter is the one that
it is outside. -/
theorem defaults_blind_shadowedDefault :
    let s := ((Evaluator.interrupted .standard (fun _ => false) 6).run shadowedDefault).state
      (.initial ⟨false, none, true⟩)
    let r := Evaluator.ofFuel .standard 6
    let inner : List ScopePath := [[⟨2⟩, ⟨0⟩]]
    Reaches .standard (.initial ⟨false, none, true⟩) s ∧
      r.boundField.endsWithWhole 1 (s.onStack []) = true ∧
        r.resolveOverload "f" ([Value.empty].map .ready) (s.onStack inner) =
          Run.resultOn inner
            (r.resolveOverload "f" ([Value.empty].map .ready) (s.onStack [])) := by
  intro s r inner
  have h : Reaches .standard (.initial ⟨false, none, true⟩) s :=
    .run shadowedDefault (fun _ => false) 6 .refl
  have hstack : ∀ path ∈ inner,
      ScopePath.Outward path ∧ ∀ id ∈ path, id.index < s.env.scopes.size := by
    have hsize : s.env.scopes.size = 3 := by decide +kernel
    rw [hsize]
    unfold ScopePath.Outward
    decide
  have hglobal : (s.env.scope ⟨0⟩).data? "P" =
      some ⟨"P", [⟨"a", .prim .int, false, some (.generated (.literal (.int 1)))⟩], [⟨0⟩]⟩ := rfl
  have hblock : (s.env.scope ⟨2⟩).data? "P" = none := rfl
  have hdata : (s.onStack inner).env.data? "P" = (s.onStack []).env.data? "P" :=
    State.data?_block hblock
  have hfound : (s.onStack []).env.data? "P" = (s.env.scope ⟨0⟩).data? "P" := by
    show [⟨0⟩].findSome? (fun id => (s.env.scope id).data? "P") = _
    rw [List.findSome?_cons, hglobal]
  rw [hglobal] at hfound
  have hagrees : (s.onStack []).env.AgreesOn (s.onStack inner).env (.data "P") := by
    refine .of_closed (· = .data "P") rfl ?_ (fun name hname => ?_) (fun _ => nofun)
    · rintro u w rfl (⟨-⟩ | ⟨hdecl, hfield, hnone⟩)
      rw [hfound] at hdecl
      cases hdecl
      cases List.mem_singleton.mp hfield
      exact absurd hnone (Option.some_ne_none _)
    · cases hname
      exact hdata
  have houter : (s.onStack []).Amid ⟨false, none, true⟩ := h.amid.onStack (by simp)
  have hblind := Evaluator.defaults_blind houter (h.amid.onStack hstack) 6 "f" [.empty]
  have hsame := hblind.1 (State.overloads_block rfl "f")
  obtain ⟨⟨sub, slots⟩, t, hchosen, hopen⟩ := Run.exists_of_endsWith
    (x := r.choose "f" ([Value.empty].map .ready)) (s := s.onStack []) (p := fun choice =>
      (choice.1.params.zip choice.2).all fun place => decide (place.1.type = .data "P"))
    (by decide +kernel)
  have hfield : r.boundField.endsWithWhole 1 (s.onStack []) = true := by decide +kernel
  refine ⟨h, hfield, hblind.2 sub slots t hchosen ?_ fun p hp _ => ?_⟩
  · exact hsame.trans (congrArg (Run.resultOn inner) hchosen)
  · rw [of_decide_eq_true (List.all_eq_true.mp hopen _ hp)]
    exact hagrees

/-- In the block that declares another data type of the name, the overload that is chosen is the
same, with the same place left open, and its default another one. -/
theorem default_shadowedDefault :
    let s := ((Evaluator.interrupted .standard (fun _ => false) 6).run shadowedDefault).state
      (.initial ⟨false, none, true⟩)
    let r := Evaluator.ofFuel .standard 6
    let inner : List ScopePath := [[⟨1⟩, ⟨0⟩]]
    Reaches .standard (.initial ⟨false, none, true⟩) s ∧
      (s.onStack inner).Amid ⟨false, none, true⟩ ∧
      r.choose "f" [.ready .empty] (s.onStack inner) =
        Run.resultOn inner (r.choose "f" [.ready .empty] (s.onStack [])) ∧
      r.boundField.endsWithWhole 1 (s.onStack []) = true ∧
      r.boundField.endsWithWhole 2 (s.onStack inner) = true := by
  intro s r inner
  have h : Reaches .standard (.initial ⟨false, none, true⟩) s :=
    .run shadowedDefault (fun _ => false) 6 .refl
  have hstack : ∀ path ∈ inner,
      ScopePath.Outward path ∧ ∀ id ∈ path, id.index < s.env.scopes.size := by
    have hsize : s.env.scopes.size = 3 := by decide +kernel
    rw [hsize]
    unfold ScopePath.Outward
    decide
  have hsame : (s.onStack inner).env.overloads "f" = (s.onStack []).env.overloads "f" :=
    State.overloads_block rfl "f"
  refine ⟨h, h.amid.onStack hstack, ?_, ?_, ?_⟩
  · exact (Evaluator.choose_parallel h.obeys hsame [.empty]).blind
  · decide +kernel
  · decide +kernel

end BasicScript
