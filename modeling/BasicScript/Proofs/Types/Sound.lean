import BasicScript.Proofs.Frame.Run
import BasicScript.Proofs.Types.Invariant

/-! # Runs that keep the types

From a typed state, a sound run ends in a typed state that has grown, whatever
its outcome, and its result has the property that is claimed of it. There is
one rule for each way of composing runs, and one for each primitive run.
-/

namespace BasicScript

/-- What holds of the result of a run and the state in which it ends. -/
abbrev Claim (α : Type) := α → State → Prop

/-- The run keeps the types, and its result is as claimed. -/
def Run.Sound {α : Type} (x : Run α) (s : State) (Q : Claim α) : Prop :=
  s.Typed → (x.state s).Typed ∧ s.Grows (x.state s) ∧ ∀ a t, x s = .ok a t → Q a t

/-- What stays true as the state grows. -/
def Claim.Stable {α : Type} (Q : Claim α) : Prop :=
  ∀ (a : α) (t u : State), t.Grows u → Q a t → Q a u

namespace Claim

/-- Nothing is claimed. -/
def nothing {α : Type} : Claim α := fun _ _ => True

/-- The result is a value that the state accounts for. -/
def value : Claim Value := fun v t => t.Holds v

/-- The result is a value for a place of a type. -/
def valueOf (type : Ty) : Claim Value := fun v t => t.Has type v

/-- The results are values that the state accounts for. -/
def values : Claim (List Value) := fun vs t => ∀ v ∈ vs, t.Holds v

theorem value_stable : Stable value := fun _ _ _ hg h => h.grows hg

theorem valueOf_stable (type : Ty) : Stable (valueOf type) := fun _ _ _ hg h => h.grows hg

theorem nothing_stable {α : Type} : Stable (nothing (α := α)) := fun _ _ _ _ _ => trivial

end Claim

namespace Run.Sound

variable {α β : Type} {x : Run α} {f : α → Run β} {s : State} {P P' : Claim α} {Q : Claim β}

theorem typed (h : s.Typed → x.Sound s P) : x.Sound s P := fun hs => h hs hs

theorem weaken (h : x.Sound s P) (hp : ∀ a t, s.Grows t → P a t → P' a t) : x.Sound s P' := by
  intro hs
  obtain ⟨ht, hg, hr⟩ := h hs
  refine ⟨ht, hg, fun a t hx => hp a t ?_ (hr a t hx)⟩
  rw [state_ok hx] at hg
  exact hg

theorem bind (hx : x.Sound s P) (hf : ∀ a t, s.Grows t → P a t → (f a).Sound t Q) :
    (x >>= f).Sound s Q := by
  intro hs
  obtain ⟨ht, hg, hr⟩ := hx hs
  cases h : x s with
  | ok a t =>
    rw [state_ok h] at ht hg
    obtain ⟨hu, hg', hr'⟩ := hf a t hg (hr a t h) ht
    rw [state_bind_ok h]
    refine ⟨hu, hg.trans hg', fun b u hb => hr' b u ?_⟩
    rw [← bind_ok h f]
    exact hb
  | error e t =>
    rw [state_error h] at ht hg
    rw [state_error (bind_error h f)]
    refine ⟨ht, hg, fun b u hb => ?_⟩
    rw [bind_error h f] at hb
    exact nomatch hb

/-- A run that goes on from the same state with a known result. -/
theorem step {a : α} (h : x s = .ok a s) (hf : (f a).Sound s Q) : (x >>= f).Sound s Q := by
  intro hs
  rw [state_bind_ok h, bind_ok h]
  exact hf hs

/-- What a run leaves alone may be claimed besides. -/
theorem framed {o : Prop} (h : x.Sound s P) (hframe : Frame o s (x.state s)) :
    x.Sound s fun a t => P a t ∧ Frame o s t := by
  intro hs
  obtain ⟨ht, hg, hr⟩ := h hs
  refine ⟨ht, hg, fun a t hx => ⟨hr a t hx, ?_⟩⟩
  rw [state_ok hx] at hframe
  exact hframe

/-- A run that does not change the state. -/
theorem still (h : x.state s = s) (hp : s.Typed → ∀ a, x s = .ok a s → P a s) : x.Sound s P := by
  intro hs
  rw [h]
  refine ⟨hs, .refl s, fun a t hx => ?_⟩
  obtain rfl : t = s := (state_ok hx).symm.trans h
  exact hp hs a hx

theorem pure {a : α} (h : P a s) : (Pure.pure a : Run α).Sound s P :=
  still rfl fun _ _ hx => by cases hx; exact h

theorem fail (g : Fault) : (Run.fail g : Run α).Sound s P := still rfl fun _ _ hx => nomatch hx

theorem stop (e : Report) : (Run.stop e : Run α).Sound s P := still rfl fun _ _ hx => nomatch hx

theorem exhausted : (Run.exhausted : Run α).Sound s P := still rfl fun _ _ hx => nomatch hx

theorem read {g : State → α} (h : P (g s) s) : (Run.read g).Sound s P :=
  still rfl fun _ _ hx => by cases hx; exact h

theorem readBind {g : State → α} (h : (f (g s)).Sound s Q) : (Run.read g >>= f).Sound s Q :=
  step rfl h

/-- A run that fails at once. -/
theorem failed {e : Stop} (h : x s = .error e s) : x.Sound s P :=
  still (state_error h) fun _ _ hx => by rw [h] at hx; exact nomatch hx

theorem failBind (g : Fault) : ((Run.fail g : Run α) >>= f).Sound s Q :=
  bind (P := fun _ _ => False) (fail g) fun _ _ _ h => h.elim

theorem requireBind {g : Fault} {found : Option α}
    (h : ∀ a, found = some a → (f a).Sound s Q) : (Run.require g found >>= f).Sound s Q := by
  cases found with
  | some a => exact step rfl (h a rfl)
  | none => exact failBind g

theorem require {g : Fault} {found : Option α} (h : ∀ a, found = some a → P a s) :
    (Run.require g found).Sound s P := by
  cases found with
  | some a => exact pure (h a rfl)
  | none => exact fail g

theorem ite {p : Prop} [Decidable p] {y : Run α} (hx : p → x.Sound s P)
    (hy : ¬p → y.Sound s P) : (if p then x else y : Run α).Sound s P := by
  split
  · next h => exact hx h
  · next h => exact hy h

theorem mapReport (g : Report → Report) (h : x.Sound s P) : (Run.mapReport g x).Sound s P := by
  intro hs
  obtain ⟨ht, hg, hr⟩ := h hs
  cases hx : x s with
  | ok a t =>
    have hrun : Run.mapReport g x s = .ok a t := by simp only [Run.mapReport, hx]
    rw [state_ok hx] at ht hg
    rw [state_ok hrun, hrun]
    refine ⟨ht, hg, fun b u hb => ?_⟩
    cases hb
    exact hr a t hx
  | error e t =>
    have hrun : Run.mapReport g x s = .error (e.mapReport g) t := by simp only [Run.mapReport, hx]
    rw [state_error hx] at ht hg
    rw [state_error hrun, hrun]
    refine ⟨ht, hg, fun b u hb => ?_⟩
    cases hb

theorem atSpan (span : Span) (h : x.Sound s P) : (Run.atSpan span x).Sound s P := h.mapReport _

theorem traced (what : String) (span : Span) (h : x.Sound s P) :
    (Run.traced what span x).Sound s P := h.mapReport _

theorem either {z : Report → Run β} (hx : x.Sound s P)
    (hf : ∀ a t, s.Grows t → P a t → (f a).Sound t Q)
    (hz : ∀ e t, s.Grows t → (z e).Sound t Q) : (Run.either x f z).Sound s Q := by
  intro hs
  obtain ⟨ht, hg, hr⟩ := hx hs
  -- whichever way the run goes on, it does so from the state in which the first part ended
  have hnext : ∀ (t : State) (y : Run β), x.state s = t → Run.either x f z s = y t →
      y.Sound t Q → ((Run.either x f z).state s).Typed ∧ s.Grows ((Run.either x f z).state s) ∧
        ∀ b u, Run.either x f z s = .ok b u → Q b u := by
    rintro t y rfl hrun hy
    have hstate : (Run.either x f z).state s = y.state (x.state s) := by simp only [state, hrun]
    obtain ⟨hu, hg', hr'⟩ := hy ht
    rw [hstate, hrun]
    exact ⟨hu, hg.trans hg', hr'⟩
  cases h : x s with
  | ok a t =>
    rw [state_ok h] at hg
    exact hnext t (f a) (state_ok h) (by simp only [Run.either, h]) (hf a t hg (hr a t h))
  | error e t =>
    rw [state_error h] at hg
    cases e with
    | error e => exact hnext t (z e) (state_error h) (by simp only [Run.either, h]) (hz e t hg)
    | outOfFuel =>
      exact hnext t Run.exhausted (state_error h) (by simp only [Run.either, h]; rfl) exhausted

theorem mapM {γ : Type} {g : γ → Run β} (hQ : Q.Stable) (as : List γ)
    (h : ∀ a ∈ as, ∀ t, s.Grows t → (g a).Sound t Q) :
    (as.mapM g).Sound s fun bs t => bs.length = as.length ∧ ∀ b ∈ bs, Q b t := by
  induction as generalizing s with
  | nil => exact pure ⟨rfl, fun _ hb => nomatch hb⟩
  | cons a as ih =>
    rw [List.forall_mem_cons] at h
    rw [List.mapM_cons]
    refine (h.1 s (.refl s)).bind fun b t hg hb => ?_
    refine (ih fun a ha u hu => h.2 a ha u (hg.trans hu)).bind fun bs u hu hbs => ?_
    exact pure ⟨congrArg (· + 1) hbs.1, List.forall_mem_cons.mpr ⟨hQ b t u hu hb, hbs.2⟩⟩

/-- A run between two changes of the state that touch neither storage nor tables, apart from
a fresh scope. -/
theorem between (enter leave : State → State) (hP : P.Stable) (hx : x.Sound (enter s) P)
    (henter : s.Typed → (enter s).Typed) (hgrows : s.Grows (enter s))
    (hstore : ∀ t, (leave t).store = t.store)
    (hscopes : ∀ t, (leave t).env.scopes = t.env.scopes) :
    Run.Sound (fun s => leaving leave x (enter s)) s P := by
  intro hs
  obtain ⟨ht, hg, hr⟩ := hx (henter hs)
  have hleave : ∀ t : State, t.Grows (leave t) := by
    intro t
    refine ⟨?_, ?_⟩
    · rw [hstore]
      exact .refl _
    · rw [hscopes]
      exact .refl Scope.Extends.refl _
  have hstate : Run.state (fun s => leaving leave x (enter s)) s = leave (x.state (enter s)) := by
    simp only [state, leaving]
    cases x (enter s) <;> rfl
  rw [hstate]
  refine ⟨ht.congr (hstore _) (hscopes _), hgrows.trans (hg.trans (hleave _)), fun a u hu => ?_⟩
  simp only [leaving] at hu
  cases hx' : x (enter s) with
  | ok b t =>
    simp only [hx', EStateM.Result.ok.injEq] at hu
    obtain ⟨rfl, rfl⟩ := hu
    exact hP b t _ (hleave t) (hr b t hx')
  | error e t =>
    simp only [hx'] at hu
    cases hu

theorem inScopeBelow (hP : P.Stable) {path : ScopePath}
    (h : x.Sound { s with env := s.env.pushBelow path } P) :
    (Run.inScopeBelow path x).Sound s P :=
  between (fun s => { s with env := s.env.pushBelow path }) popScope hP h
    (fun hs => hs.pushBelow path) ⟨.refl _, .push Scope.Extends.refl _ _⟩
    (fun _ => rfl) fun _ => rfl

theorem inScope (hP : P.Stable) (h : x.Sound { s with env := s.env.push } P) :
    (Run.inScope x).Sound s P := by
  have hbelow : (Run.inScopeBelow s.env.current x).Sound s P := inScopeBelow hP h
  exact hbelow

theorem inLiveScope (hP : P.Stable) {path : ScopePath}
    (h : x.Sound { s with env := s.env.pushBelow path } P) :
    (Run.inLiveScope path x).Sound s P := by
  intro hs
  by_cases hlive : s.env.isLive path
  · have heq : Run.inLiveScope path x s = Run.inScopeBelow path x s := if_pos hlive
    unfold state
    rw [heq]
    exact inScopeBelow hP h hs
  · have heq : Run.inLiveScope path x s = Run.fail .noActiveScope s := if_neg hlive
    unfold state
    rw [heq]
    exact fail (α := α) .noActiveScope hs

theorem returning (hP : P.Stable) {t : Ty} (h : x.Sound { s with returns := t :: s.returns } P) :
    (Run.returning t x).Sound s P :=
  between (fun s => { s with returns := t :: s.returns }) popReturns hP h
    (fun hs => hs.congr rfl rfl) ⟨.refl _, .refl Scope.Extends.refl _⟩ (fun _ => rfl) fun _ => rfl

theorem asCall (hP : P.Stable) {frame : CallFrame}
    (h : ∀ calls, x.Sound { s with calls := calls } P) : (Run.asCall frame x).Sound s P := by
  intro hs
  cases hpush : s.calls.push frame with
  | error f =>
    have heq : Run.asCall frame x s =
        .error (.error ((Report.ofFault f).orSpan frame.span)) s := by
      simp only [Run.asCall, hpush]
    unfold state
    rw [heq]
    refine ⟨hs, .refl s, fun _ _ ha => ?_⟩
    cases ha
  | ok calls =>
    obtain ⟨ht, hg, hr⟩ := h calls (hs.congr rfl rfl)
    have hstate : (Run.asCall frame x).state s =
        Run.popCall (x.state { s with calls := calls }) := by
      simp only [state, Run.asCall, hpush]
      cases x { s with calls := calls } <;> rfl
    rw [hstate]
    refine ⟨ht.congr rfl rfl, ⟨hg.store, hg.scopes⟩, fun a u hu => ?_⟩
    simp only [Run.asCall, hpush] at hu
    cases hx : x { s with calls := calls } with
    | ok b t =>
      simp only [hx, EStateM.Result.ok.injEq] at hu
      obtain ⟨rfl, rfl⟩ := hu
      exact hP b t _ ⟨.refl _, .refl Scope.Extends.refl _⟩ (hr b t hx)
    | error e t =>
      simp only [hx] at hu
      cases hu

theorem failOn (g : Option Ty → Fault) (v : Value) : (Run.failOn g v : Run α).Sound s P :=
  readBind (fail _)

theorem typeOfBind {v : Value} {g : Option Ty → Run β} (h : ∀ t, (g t).Sound s Q) :
    (Run.typeOf v >>= g).Sound s Q := readBind (h _)

theorem endingBind {ends : Store → Bool} {g : Unit → Run β} (h : (g ()).Sound s Q) :
    (Run.ending ends >>= g).Sound s Q := by
  rcases ending_cases ends s with ⟨-, hgo⟩ | ⟨-, hstop⟩
  · exact step hgo h
  · exact failed (bind_error hstop _)

theorem textBind {v : Value} {g : String → Run β} (h : ∀ t, (g t).Sound s Q) :
    (Run.text v >>= g).Sound s Q := by
  rcases text_cases v s with ⟨-, htext⟩ | ⟨-, hstop⟩
  · exact step htext (h _)
  · exact failed (bind_error hstop _)

theorem cellOfBind {name : String} {g : CellId → Run β}
    (h : ∀ id, id.index < s.store.cells.size → (g id).Sound s Q) :
    (Run.cellOf name >>= g).Sound s Q := by
  refine typed fun hs => ?_
  cases hfound : s.env.cell? name with
  | none =>
    refine bind (P := fun _ _ => False) (readBind ?_) fun _ _ _ h => h.elim
    rw [hfound]
    exact fail _
  | some id =>
    obtain ⟨i, sc, hsc, hmem⟩ := Environment.cell?_some hfound
    refine step ?_ (h id (hs.bound i sc hsc _ hmem))
    show Run.require _ (s.env.cell? name) s = _
    rw [hfound]
    rfl

theorem elementsOf {v : Value} : (Run.elementsOf v).Sound s .values := by
  refine typed fun hs => readBind ?_
  cases hvs : s.store.elements? v with
  | some vs => exact pure (Ty.elements_hold hs.store hvs)
  | none => exact failOn _ _

theorem positionBind {index : Value} {g : Nat → Run β} (h : ∀ n, (g n).Sound s Q) :
    (Run.position index >>= g).Sound s Q := by
  refine bind (P := fun _ t => t = s) ?_ fun n t _ ht => ht ▸ h n
  unfold Run.position
  split
  · exact ite (fun _ => pure rfl) fun _ => textBind fun _ => fail _
  · exact textBind fun _ => fail _

theorem atIndex {index : Value} {found : Option α} (h : ∀ a, found = some a → P a s) :
    (Run.atIndex index found).Sound s P := by
  cases found with
  | some a => exact pure (h a rfl)
  | none => exact textBind fun _ => fail _

theorem atIndexBind {index : Value} {found : Option α}
    (h : ∀ a, found = some a → (f a).Sound s Q) : (Run.atIndex index found >>= f).Sound s Q := by
  refine bind (P := fun a t => t = s ∧ found = some a) (atIndex fun a ha => ⟨rfl, ha⟩) ?_
  rintro a t - ⟨rfl, ha⟩
  exact h a ha

/-- A run that succeeds at once. -/
theorem done {a : α} {t : State} (h : x s = .ok a t)
    (ht : s.Typed → t.Typed ∧ s.Grows t ∧ P a t) : x.Sound s P := by
  intro hs
  obtain ⟨htyped, hg, hp⟩ := ht hs
  rw [state_ok h, h]
  exact ⟨htyped, hg, fun b u hb => by cases hb; exact hp⟩

theorem newArray {element : Ty} {vs : List Value} (hvs : ∀ v ∈ vs, s.Has element v) :
    (Run.newArray element vs).Sound s fun v t =>
      ∃ id, v = .array id ∧ t.Holds v ∧ t.store.block id = ⟨element, vs.toArray⟩ := by
  refine done rfl fun hs => ?_
  have hadds := Store.Adds.newArray s.store element vs
  refine ⟨hs.withAdded (hs.store.newArray hvs) hadds,
    ⟨hadds.grows, .refl Scope.Extends.refl _⟩, _, rfl, ?_, ?_⟩
  · exact Store.newArray_bound s.store element vs
  · exact Store.block_newArray s.store element vs

theorem newCell {c : Cell} (hc : s.Has c.type c.value) :
    (Run.newCell c).Sound s fun id t => id.index < t.store.cells.size ∧ t.store.cell id = c := by
  refine done rfl fun hs => ?_
  have hg := Store.Grows.newCell s.store c
  refine ⟨hs.withStore (hs.store.newCell (.inr hc)) hg fun i c' hc' hv => ?_,
    ⟨hg, .refl Scope.Extends.refl _⟩, ?_, ?_⟩
  · rcases State.newCell_getElem? hc' with h | ⟨-, rfl⟩
    · exact ⟨c', h, hv⟩
    · rw [hc.fits.present] at hv
      exact nomatch hv
  · show s.store.cells.size < (s.store.cells.push c).size
    rw [Array.size_push]
    exact Nat.lt_succ_self _
  · show ((s.store.cells.push c)[s.store.cells.size]?).getD _ = c
    rw [Array.getElem?_push_size, Option.getD_some]

theorem fit {t : Ty} {v : Value} {rejected : Mismatch → Option Ty → Fault} (hv : s.Holds v) :
    (Run.fit t v rejected).Sound s (.valueOf t) := by
  rcases fit_cases t v rejected s with ⟨w, σ, hconform, hrun⟩ | ⟨m, -, hrun⟩
  · refine done hrun fun hs => ?_
    have hadds := Ty.conform_adds hconform
    obtain ⟨hσ, hw⟩ := Ty.conform_has hconform hs.store hv
    exact ⟨hs.withAdded hσ hadds, ⟨hadds.grows, .refl Scope.Extends.refl _⟩, hw⟩
  · exact failed hrun

theorem conform {t : Ty} {v : Value} (hv : s.Holds v) :
    (Run.conform t v).Sound s (.valueOf t) := fit hv

theorem assign {id : CellId} {name : String} {v : Value} (hv : s.Holds v) :
    (Run.assign id name v).Sound s .value := by
  rcases assign_cases id name v s with ⟨w, σ, hc, -, hconform, hrun⟩ | ⟨f, hrun⟩
  · exact done hrun fun hs => hs.stored hv hc hconform
  · exact failed hrun

theorem putBack (hs : s.Typed) (id : CellId) {v : Value} (hv : s.Holds v) :
    (Run.putBack id v s).Typed ∧ s.Grows (Run.putBack id v s) := by
  unfold Run.putBack Store.put
  by_cases hc : (s.store.cell id).constant = true
  · simp only [hc, if_true]
    exact ⟨hs, .refl s⟩
  · rw [Bool.not_eq_true] at hc
    simp only [hc, Bool.false_eq_true, if_false]
    cases hconform : (s.store.cell id).type.conform s.store v with
    | error m => exact ⟨hs, .refl s⟩
    | ok p =>
      obtain ⟨ht, hg, -⟩ := hs.stored hv hc hconform
      exact ⟨ht, hg⟩

theorem exchange (a b : CellId) (nameA nameB : String) :
    (Run.exchange a b nameA nameB).Sound s .value := by
  refine typed fun hs => readBind (readBind ?_)
  have hva : s.Holds (s.store.read a) := hs.store.cell_holds a
  refine (assign (hs.store.cell_holds b)).bind fun stored t hg hstored ht => ?_
  have hsound : (Run.assign b nameB (s.store.read a)).Sound t .value := assign (hva.grows hg)
  have hassign := hsound ht
  cases hrun : Run.assign b nameB (s.store.read a) t with
  | ok v u =>
    rw [state_ok hrun] at hassign
    refine ⟨?_, ?_, fun w u' hw => ?_⟩
    · simpa only [state, hrun] using hassign.1
    · simpa only [state, hrun] using hassign.2.1
    · cases hw
      exact hstored.grows hassign.2.1
  | error e u =>
    rw [state_error hrun] at hassign
    obtain ⟨hput, hgput⟩ := putBack hassign.1 a ((hva.grows hg).grows hassign.2.1)
    refine ⟨?_, ?_, fun v u hv => ?_⟩
    · simpa only [state, hrun] using hput
    · simpa only [state, hrun] using hassign.2.1.trans hgput
    · cases hv

theorem declareVariable {name : String} {c : Cell}
    (hc : s.Typed → c.value.isMissing = true ∧
      (s.withVariable name c).ResemblesResultSlot (s.store.newCell c).1 ∨ s.Has c.type c.value) :
    (Run.declareVariable name c).Sound s fun id t =>
      id = (s.store.newCell c).1 ∧ t = s.withVariable name c := by
  rcases declareVariable_cases name c s with ⟨-, hrun⟩ | ⟨f, hrun⟩
  · exact done hrun fun hs => ⟨hs.withVariable (hc hs), s.withVariable_grows name c, rfl, rfl⟩
  · exact failed hrun

/-- Any other declaration; the entries of an enum must be accounted for. -/
theorem declare {entity : Entity} {name : String} {takes : Environment → Bool}
    {f : Scope → Scope} (hf : ∀ sc : Scope, sc.Extends (f sc))
    (hcells : ∀ sc : Scope, (f sc).cells = sc.cells)
    (henums : ∀ sc : Scope, ∀ d ∈ (f sc).enums, d ∈ sc.enums ∨ ∀ e ∈ d.entries, s.Holds e.2) :
    (Run.declare entity name takes (·.modifyCurrent f)).Sound s .nothing := by
  rcases declare_cases entity name takes (·.modifyCurrent f) s with ⟨-, hrun⟩ | ⟨g, hrun⟩
  · exact done hrun fun hs => ⟨hs.withCurrent hf hcells henums,
      ⟨.refl _, .modify Scope.Extends.refl fun sc _ => hf sc⟩, trivial⟩
  · exact failed hrun

end Run.Sound

/-- The value that a signal carries is accounted for. -/
def Signal.Held (t : State) : Signal → Prop
  | .yield v => t.Holds v
  | _ => True

namespace Claim

/-- A value that is yielded is accounted for. -/
def flow : Claim Flow := fun flow t => ∀ signal, flow = .signal signal → signal.Held t

/-- A value that a loop passes on is accounted for. -/
def loopStep : Claim LoopStep := fun step t => ∀ signal, step = .pass signal → signal.Held t

theorem flow_stable : Stable flow := by
  intro flow t u hg h signal hsignal
  cases signal with
  | yield v => exact (h _ hsignal).grows hg
  | _ => trivial

theorem flow_normal {t : State} : flow .normal t := fun _ h => nomatch h

theorem flow_signal {signal : Signal} {t : State} (h : signal.Held t) : flow (.signal signal) t :=
  fun _ hsignal => by cases hsignal; exact h

theorem flow_held {signal : Signal} {t : State} (h : flow (.signal signal) t) : signal.Held t :=
  h signal rfl

/-- A loop passes on no signal but the one that ended its body. -/
theorem flow_loopStep {result : Flow} {t : State} (h : flow result t) (label : Option String) :
    loopStep (result.loopStep label) t := by
  intro signal hsignal
  cases signal with
  | yield v =>
    refine h _ ?_
    unfold Flow.loopStep at hsignal
    split at hsignal
    · exact nomatch hsignal
    · split at hsignal <;> exact nomatch hsignal
    · split at hsignal <;> exact nomatch hsignal
    · cases hsignal
      rfl
  | _ => trivial

end Claim

namespace Run.Sound

variable {s : State}

theorem loop {step : Run LoopStep} (n : Nat)
    (h : ∀ t, s.Grows t → step.Sound t .loopStep) : (Run.loop step n).Sound s .flow := by
  induction n generalizing s with
  | zero => exact exhausted
  | succ n ih =>
    refine (h s (.refl s)).bind fun result t hg hresult => ?_
    cases result with
    | again => exact ih fun u hu => h u (hg.trans hu)
    | stop => exact pure Claim.flow_normal
    | pass signal => exact pure (Claim.flow_signal (hresult signal rfl))

theorem forValues {step : Value → Run LoopStep} {vs : List Value} (hvs : ∀ v ∈ vs, s.Holds v)
    (h : ∀ v t, s.Grows t → t.Holds v → (step v).Sound t .loopStep) :
    (Run.forValues step vs).Sound s .flow := by
  induction vs generalizing s with
  | nil => exact pure Claim.flow_normal
  | cons v vs ih =>
    rw [List.forall_mem_cons] at hvs
    refine (h v s (.refl s) hvs.1).bind fun result t hg hresult => ?_
    cases result with
    | again => exact ih (fun w hw => (hvs.2 w hw).grows hg) fun w u hu hw => h w u (hg.trans hu) hw
    | stop => exact pure Claim.flow_normal
    | pass signal => exact pure (Claim.flow_signal (hresult signal rfl))

end Run.Sound

end BasicScript
