import BasicScript.Eval.Evaluator
import BasicScript.Proofs.Frame.Growth

/-! # The frame of a run

An expression leaves the stacks of scopes, calls and return types as they
were, and the tables of all scopes unchanged; a statement may add to the
tables of the current scope. Runs are compared in pairs. The two do the same,
or the first is cut short where the second goes on, so that one law covers the
frame of a run, the effect of more fuel and the order of its moments.
-/

namespace BasicScript

/-- What a run leaves alone; an open one may add to the tables of the current scope. -/
structure Frame (isOpen : Prop) (s t : State) : Prop where
  grows : s.Grows t
  active : t.env.active = s.env.active
  calls : t.calls = s.calls
  returns : t.returns = s.returns
  tables : ∀ i < s.env.scopes.size, (isOpen → i ≠ s.env.currentId.index) →
    t.env.scopes[i]? = s.env.scopes[i]?

namespace Frame

variable {o : Prop} {s t u : State}

theorem refl (o : Prop) (s : State) : Frame o s s := ⟨.refl s, rfl, rfl, rfl, fun _ _ _ => rfl⟩

theorem current (h : Frame o s t) : t.env.current = s.env.current := by
  simp only [Environment.current, h.active]

theorem currentId (h : Frame o s t) : t.env.currentId = s.env.currentId := by
  simp only [Environment.currentId, h.current]

/-- The current scope stays in being. -/
theorem currentId_lt (h : Frame o s t) (hs : s.env.currentId.index < s.env.scopes.size) :
    t.env.currentId.index < t.env.scopes.size :=
  h.currentId ▸ Nat.lt_of_lt_of_le hs h.grows.scopes.size_le

theorem trans (h : Frame o s t) (h' : Frame o t u) : Frame o s u where
  grows := h.grows.trans h'.grows
  active := h'.active.trans h.active
  calls := h'.calls.trans h.calls
  returns := h'.returns.trans h.returns
  tables i hi ho := by
    have hi' : i < t.env.scopes.size := Nat.lt_of_lt_of_le hi h.grows.scopes.size_le
    rw [h'.tables i hi' (h.currentId ▸ ho), h.tables i hi ho]

theorem weaken {p : Prop} (hop : o → p) (h : Frame o s t) : Frame p s t :=
  { h with tables := fun i hi hp => h.tables i hi fun ho => hp (hop ho) }

theorem ofStore (o : Prop) {σ : Store} (h : s.store.Grows σ) :
    Frame o s { s with store := σ } :=
  ⟨⟨h, .refl Scope.Extends.refl _⟩, rfl, rfl, rfl, fun _ _ _ => rfl⟩

theorem ofCurrent {f : Scope → Scope} (hf : ∀ sc : Scope, sc.Extends (f sc)) (s : State) :
    Frame True s { s with env := s.env.modifyCurrent f } where
  grows := ⟨.refl _, .modify Scope.Extends.refl fun sc _ => hf sc⟩
  active := rfl
  calls := rfl
  returns := rfl
  tables i _ ho := by
    show (s.env.scopes.modify s.env.currentId.index f)[i]? = _
    rw [Array.getElem?_modify, if_neg fun h => ho trivial h.symm]

/-- What is left in the tables of a scope that has been left again is closed. -/
theorem leaveScope {path : ScopePath}
    (h : Frame o { s with env := s.env.pushBelow path } t) :
    Frame False s { t with env := t.env.pop } where
  grows := ⟨h.grows.store, (Onward.push Scope.Extends.refl _ _).trans
    (fun _ _ _ => .trans) h.grows.scopes⟩
  active := by
    show t.env.active.tail = _
    rw [h.active]
    rfl
  calls := h.calls
  returns := h.returns
  tables i hi _ := by
    have hlt : i < (s.env.scopes.push Scope.blank).size := by rw [Array.size_push]; omega
    have hne : i ≠ (s.env.pushBelow path).currentId.index := Nat.ne_of_lt hi
    exact (h.tables i hlt fun _ => hne).trans (Array.getElem?_push_lt hi ▸
      (Array.getElem?_eq_getElem hi).symm)

end Frame

namespace Run

variable {α β : Type}

/-- The state in which a run ends, in whatever way. -/
def state (x : Run α) (s : State) : State :=
  match x s with
  | .ok _ s' | .error _ s' => s'

theorem state_ok {x : Run α} {s s' : State} {a : α} (h : x s = .ok a s') : x.state s = s' := by
  simp only [state, h]

theorem state_error {x : Run α} {s s' : State} {e : Stop} (h : x s = .error e s') :
    x.state s = s' := by
  simp only [state, h]

theorem state_congr {x y : Run α} {s t : State} (h : x s = y t) : x.state s = y.state t := by
  simp only [state, h]

theorem bind_ok {x : Run α} {s s' : State} {a : α} (h : x s = .ok a s') (f : α → Run β) :
    (x >>= f) s = f a s' := by
  simp only [bind, EStateM.bind, h]

theorem exists_of_bind_ok {x : Run α} {f : α → Run β} {s u : State} {b : β}
    (h : (x >>= f) s = .ok b u) : ∃ a t, x s = .ok a t ∧ f a t = .ok b u := by
  cases hx : x s with
  | ok a t => exact ⟨a, t, rfl, by rw [← h, bind_ok hx]⟩
  | error e t =>
    simp only [bind, EStateM.bind, hx] at h
    exact nomatch h

theorem bind_error {x : Run α} {s s' : State} {e : Stop} (h : x s = .error e s')
    (f : α → Run β) : (x >>= f) s = .error e s' := by
  simp only [bind, EStateM.bind, h]

theorem state_bind_ok {x : Run α} {s s' : State} {a : α} (h : x s = .ok a s')
    (f : α → Run β) : (x >>= f).state s = (f a).state s' := by
  simp only [state, bind_ok h]

theorem atSpan_ok {x : Run α} {s s' : State} {a : α} (span : Span) (h : x s = .ok a s') :
    Run.atSpan span x s = .ok a s' := by
  simp only [Run.atSpan, Run.mapReport, h]

theorem atSpan_error {x : Run α} {s s' : State} {e : Stop} (span : Span)
    (h : x s = .error e s') :
    Run.atSpan span x s = .error (e.mapReport (·.orSpan span)) s' := by
  simp only [Run.atSpan, Run.mapReport, h]

/-- What follows depends only on how a run ends. -/
theorem bind_congr {x y : Run α} {s t : State} (h : x s = y t) (f : α → Run β) :
    (x >>= f) s = (y >>= f) t := by
  simp only [bind, EStateM.bind, h]

theorem mapReport_ok {f : Report → Report} {x : Run α} {s u : State} {a : α} :
    Run.mapReport f x s = .ok a u ↔ x s = .ok a u := by
  unfold Run.mapReport
  cases x s with
  | ok b t => rfl
  | error e t => simp only [reduceCtorEq]

theorem mapReport_error {f : Report → Report} {x : Run α} {s u : State} {e : Stop}
    (h : x s = .error e u) : Run.mapReport f x s = .error (e.mapReport f) u := by
  simp only [Run.mapReport, h]

/-- What a run notes in an error depends only on how it ends. -/
theorem mapReport_congr {x y : Run α} {s t : State} (f : Report → Report) (h : x s = y t) :
    Run.mapReport f x s = Run.mapReport f y t := by
  simp only [Run.mapReport, h]

theorem inScope_congr {x y : Run α} {s : State}
    (h : x { s with env := s.env.push } = y { s with env := s.env.push }) :
    Run.inScope x s = Run.inScope y s := by
  simp only [Run.inScope, Run.leaving, h]

/-- A run goes on unchanged where a view ends, and stops where it does not. -/
theorem ending_cases (ends : Store → Bool) (s : State) :
    (ends s.store = true ∧ Run.ending ends s = .ok () s) ∨
      ends s.store = false ∧ Run.ending ends s = .error .outOfFuel s := by
  unfold Run.ending
  cases ends s.store with
  | true => exact .inl ⟨rfl, rfl⟩
  | false => exact .inr ⟨rfl, rfl⟩

/-- What follows a view that ends. -/
theorem ending_bind {ends : Store → Bool} {s : State} (h : ends s.store = true)
    (f : Unit → Run β) : (Run.ending ends >>= f) s = f () s :=
  bind_ok (if_pos h) f

theorem text_ok {v : Value} {s : State} (h : s.store.textEnds v = true) :
    Run.text v s = .ok (s.store.text v) s :=
  ending_bind h _

theorem text_cases (v : Value) (s : State) :
    (s.store.textEnds v = true ∧ Run.text v s = .ok (s.store.text v) s) ∨
      s.store.textEnds v = false ∧ Run.text v s = .error .outOfFuel s := by
  rcases ending_cases (·.textEnds v) s with ⟨h, -⟩ | ⟨h, hstop⟩
  · exact .inl ⟨h, text_ok h⟩
  · exact .inr ⟨h, bind_error hstop _⟩

/-- From states with the given return types, where there are some, the second run stays inside
the frame, and the first does the same, or else is cut short where the second goes on. -/
def Tracks (returns : Option (List Ty)) (cut : Prop) (isOpen : Prop) (x y : Run α) : Prop :=
  ∀ s, (∀ ts ∈ returns, s.returns = ts) →
    Frame isOpen s (y.state s) ∧
      (x s = y s ∨ cut ∧ ∃ s₁, x s = .error .outOfFuel s₁ ∧ s₁.Grows (y.state s))

namespace Tracks

variable {ρ : Option (List Ty)} {c o : Prop} {x y : Run α} {f g : α → Run β}

theorem weaken {p : Prop} (hop : o → p) (h : Tracks ρ c o x y) : Tracks ρ c p x y :=
  fun s hs => ⟨(h s hs).1.weaken hop, (h s hs).2⟩

theorem everywhere (h : Tracks none c o x y) : Tracks ρ c o x y :=
  fun s _ => h s fun _ h => nomatch h

theorem opened (h : Tracks ρ c False x y) : Tracks ρ c o x y := h.weaken False.elim

theorem frame (h : Tracks none c o x y) (s : State) : Frame o s (y.state s) :=
  (h s fun _ h => nomatch h).1

theorem frame_ok {s t : State} {a : α} (h : Tracks none c o x y) (hrun : y s = .ok a t) :
    Frame o s t :=
  state_ok hrun ▸ h.frame s

theorem frame_error {s t : State} {e : Stop} (h : Tracks none c o x y)
    (hrun : y s = .error e t) : Frame o s t :=
  state_error hrun ▸ h.frame s

theorem bind (hx : Tracks ρ c o x y) (hf : ∀ a, Tracks ρ c o (f a) (g a)) :
    Tracks ρ c o (x >>= f) (y >>= g) := by
  intro s hs
  obtain ⟨hframe, hsame⟩ := hx s hs
  cases hy : y s with
  | ok a s' =>
    rw [state_ok hy] at hframe hsame
    obtain ⟨hframe', hsame'⟩ := hf a s' fun ts hts => hframe.returns.trans (hs ts hts)
    rw [state_bind_ok hy]
    refine ⟨hframe.trans hframe', ?_⟩
    rcases hsame with hxy | ⟨hc, s₁, hcut, hgrows⟩
    · rw [bind_ok (hxy.trans hy), bind_ok hy]
      exact hsame'
    · exact .inr ⟨hc, s₁, bind_error hcut f, hgrows.trans hframe'.grows⟩
  | error e s' =>
    have hstate : (y >>= g).state s = s' := state_error (bind_error hy g)
    rw [state_error hy] at hframe hsame
    rw [hstate]
    refine ⟨hframe, ?_⟩
    rcases hsame with hxy | ⟨hc, s₁, hcut, hgrows⟩
    · exact .inl ((bind_error (hxy.trans hy) f).trans (bind_error hy g).symm)
    · exact .inr ⟨hc, s₁, bind_error hcut f, hgrows⟩

/-- A run that does not depend on the evaluator tracks itself. -/
theorem same (h : ∀ s, Frame o s (x.state s)) : Tracks ρ c o x x := fun s _ => ⟨h s, .inl rfl⟩

theorem still (h : ∀ s, x.state s = s) : Tracks ρ c o x x :=
  same fun s => (h s).symm ▸ .refl o s

theorem pure (a : α) : Tracks ρ c o (Pure.pure a : Run α) (Pure.pure a) := still fun _ => rfl

theorem fail (f : Fault) : Tracks ρ c o (Run.fail f : Run α) (Run.fail f) := still fun _ => rfl

theorem stop (e : Report) : Tracks ρ c o (Run.stop e : Run α) (Run.stop e) := still fun _ => rfl

theorem read (f : State → α) : Tracks ρ c o (Run.read f) (Run.read f) := still fun _ => rfl

theorem ending (ends : Store → Bool) : Tracks ρ c o (Run.ending ends) (Run.ending ends) :=
  still fun s => by rcases ending_cases ends s with ⟨-, h⟩ | ⟨-, h⟩ <;> simp only [state, h]

theorem require (f : Fault) (v : Option α) :
    Tracks ρ c o (Run.require f v) (Run.require f v) := by
  cases v
  · exact fail f
  · exact pure _

theorem ite {p : Prop} [Decidable p] {x' y' : Run α} (h : Tracks ρ c o x y)
    (h' : Tracks ρ c o x' y') :
    Tracks ρ c o (if p then x else x') (if p then y else y') := by
  split
  · exact h
  · exact h'

theorem mapReport (f : Report → Report) (h : Tracks ρ c o x y) :
    Tracks ρ c o (Run.mapReport f x) (Run.mapReport f y) := by
  intro s hs
  have hstate : ∀ z : Run α, (Run.mapReport f z).state s = z.state s := by
    intro z
    simp only [Run.mapReport, state]
    cases z s <;> rfl
  rw [hstate]
  refine ⟨(h s hs).1, ?_⟩
  rcases (h s hs).2 with hxy | ⟨hc, s₁, hcut, hgrows⟩
  · exact .inl (by simp only [Run.mapReport, hxy])
  · exact .inr ⟨hc, s₁, by simp only [Run.mapReport, hcut, Stop.mapReport], hgrows⟩

theorem atSpan (span : Span) (h : Tracks ρ c o x y) :
    Tracks ρ c o (Run.atSpan span x) (Run.atSpan span y) := h.mapReport _

theorem traced (what : String) (span : Span) (h : Tracks ρ c o x y) :
    Tracks ρ c o (Run.traced what span x) (Run.traced what span y) := h.mapReport _

theorem either {z z' : Report → Run β} (hx : Tracks ρ c o x y)
    (hf : ∀ a, Tracks ρ c o (f a) (g a)) (hz : ∀ e, Tracks ρ c o (z e) (z' e)) :
    Tracks ρ c o (Run.either x f z) (Run.either y g z') := by
  intro s hs
  obtain ⟨hframe, hsame⟩ := hx s hs
  have hcut : ∀ s₁, x s = .error .outOfFuel s₁ →
      Run.either x f z s = .error .outOfFuel s₁ := by
    intro s₁ h₁
    simp only [Run.either, h₁]
  -- whichever way the second run goes on, it does so from the state in which the first part ended
  have hnext : ∀ (s' : State) (u v : Run β), y.state s = s' → Tracks ρ c o u v →
      (Run.either y g z').state s = v.state s' →
      (x s = y s → Run.either x f z s = u s') → Run.either y g z' s = v s' →
      Frame o s ((Run.either y g z').state s) ∧ (Run.either x f z s = Run.either y g z' s ∨
        c ∧ ∃ s₁, Run.either x f z s = .error .outOfFuel s₁ ∧
          s₁.Grows ((Run.either y g z').state s)) := by
    rintro s' u v rfl huv hstate hx' hy'
    obtain ⟨hframe', hsame'⟩ := huv _ fun ts hts => hframe.returns.trans (hs ts hts)
    rw [hstate]
    refine ⟨hframe.trans hframe', ?_⟩
    rcases hsame with hxy | ⟨hc, s₁, h₁, hlater⟩
    · rw [hx' hxy, hy']
      exact hsame'
    · exact .inr ⟨hc, s₁, hcut s₁ h₁, hlater.trans hframe'.grows⟩
  cases hy : y s with
  | ok a s' =>
    exact hnext s' (f a) (g a) (state_ok hy) (hf a) (by simp only [state, Run.either, hy])
      (fun hxy => by simp only [Run.either, hxy, hy]) (by simp only [Run.either, hy])
  | error e s' =>
    cases e with
    | error e =>
      exact hnext s' (z e) (z' e) (state_error hy) (hz e) (by simp only [state, Run.either, hy])
        (fun hxy => by simp only [Run.either, hxy, hy]) (by simp only [Run.either, hy])
    | outOfFuel =>
      exact hnext s' Run.exhausted Run.exhausted (state_error hy) (still fun _ => rfl)
        (by simp only [state, Run.either, hy]; rfl)
        (fun hxy => by simp only [Run.either, hxy, hy]; rfl) (by simp only [Run.either, hy]; rfl)

theorem mapM {γ : Type} {x y : γ → Run α} (h : ∀ a, Tracks ρ c o (x a) (y a)) (as : List γ) :
    Tracks ρ c o (as.mapM x) (as.mapM y) := by
  induction as with
  | nil => exact pure []
  | cons a as ih =>
    rw [List.mapM_cons, List.mapM_cons]
    exact (h a).bind fun _ => ih.bind fun _ => pure _

end Tracks

end Run

end BasicScript
