import BasicScript.Proofs.Calls.Resolution
import BasicScript.Proofs.Law.Local

/-! # The choice of an overload

A call chooses an overload before it fills in the defaults. With values for
arguments the choice depends on the overloads that are visible and on storage,
and on nothing else.
-/

namespace BasicScript

namespace Run

variable {α β : Type} {looks : Prop} {x : Run α}

namespace Local

theorem mapM {γ : Type} {g : γ → Run β} {cs : List γ} (h : ∀ c ∈ cs, (g c).Local looks) :
    (cs.mapM g).Local looks := by
  induction cs with
  | nil => exact .pure []
  | cons c cs ih =>
    rw [List.forall_mem_cons] at h
    rw [List.mapM_cons]
    exact h.1.bind fun v => (ih h.2).bind fun vs => .pure (v :: vs)

theorem either {f : α → Run β} {g : Report → Run β} (hx : x.Local looks)
    (hf : ∀ v, (f v).Local looks)
    (hg : ∀ fault : Fault, fault.isControl = false → (g (.ofFault fault)).Local looks) :
    (Run.either x f g).Local looks := by
  intro σ κ
  -- either way the rest goes on from the state in which the first part ended
  have hnext : ∀ (y : Run β) (τ : Store) (ω : Console), y.Local looks →
      (∀ s : State, Run.either x f g (s.showing σ κ) = y (s.showing τ ω)) →
        ∃ σ' κ', (∃ v, ∀ s : State, Run.either x f g (s.showing σ κ) = .ok v (s.showing σ' κ')) ∨
          (∃ fault : Fault, fault.isControl = false ∧ ∀ s : State,
            Run.either x f g (s.showing σ κ) =
              .error (.error (.ofFault fault)) (s.showing σ' κ')) ∨
          (looks ∧ σ'.Cyclic) ∧ ∀ s : State,
            Run.either x f g (s.showing σ κ) = .error .outOfFuel (s.showing σ' κ') := by
    intro y τ ω hy hrun
    simp only [hrun]
    exact hy τ ω
  obtain ⟨τ, ω, ⟨v, hv⟩ | ⟨fault, hfault, hstop⟩ | ⟨hlooks, hstop⟩⟩ := hx σ κ
  · exact hnext (f v) τ ω (hf v) fun s => by simp only [Run.either, hv]
  · exact hnext (g _) τ ω (hg fault hfault) fun s => by simp only [Run.either, hstop]
  · exact ⟨τ, ω, .inr (.inr ⟨hlooks, fun s => by simp only [Run.either, hstop]⟩)⟩

end Local

/-- What follows a run follows each of the ways in which it goes on. -/
theorem either_bind {γ : Type} (x : Run α) (f : α → Run β) (g : Report → Run β) (k : β → Run γ) :
    Run.either x f g >>= k = Run.either x (fun v => f v >>= k) fun e => g e >>= k := by
  funext s
  simp only [bind, EStateM.bind, Run.either]
  cases x s with
  | ok v t => rfl
  | error e t => cases e <;> rfl

end Run

namespace Evaluator

variable {r : Evaluator} {s t : State} {looks : Prop}

/-- The first overload that takes the arguments, with what is bound to its places. -/
def firstChoice (r : Evaluator) (name : String) (args : List Pending) :
    List Sub → Run (Sub × List (Option Value))
  | [] => Run.fail (.unresolvedTypes name)
  | sub :: rest =>
    Run.either (r.bindArguments sub args) (fun slots => pure (sub, slots))
      fun e => if e.fault.isTypeFault then firstChoice r name args rest else Run.stop e

/-- The choice of an overload, before its defaults are looked at. -/
def choose (r : Evaluator) (name : String) (args : List Pending) :
    Run (Sub × List (Option Value)) := do
  r.firstChoice name args (← fittingOverloads name args.length)

/-- The defaults of the overload that was chosen, beside what was bound to it. -/
def fill (r : Evaluator) (choice : Sub × List (Option Value)) : Run (Sub × List Value) := do
  return (choice.1, ← r.fillDefaults choice.1 choice.1.params choice.2)

/-- An overload is chosen first, and then its defaults are filled in. -/
theorem firstAccepting_eq (r : Evaluator) (name : String) (args : List Pending) (subs : List Sub) :
    r.firstAccepting name args subs = r.firstChoice name args subs >>= r.fill := by
  induction subs with
  | nil => rfl
  | cons sub rest ih =>
    unfold firstAccepting firstChoice
    rw [Run.either_bind, ih]
    congr 1
    funext e
    by_cases hfault : e.fault.isTypeFault = true
    · simp only [hfault, if_true]
    · simp only [hfault]
      rfl

theorem resolveOverload_eq (r : Evaluator) (name : String) (args : List Pending) :
    r.resolveOverload name args = r.choose name args >>= r.fill := by
  unfold resolveOverload choose
  rw [bind_assoc]
  congr 1
  funext subs
  exact r.firstAccepting_eq name args subs

theorem bindFixed_local (ps : List Parameter) (values : List Value) :
    (r.bindFixed ps (values.map .ready)).Local looks := by
  induction ps generalizing values with
  | nil => exact .pure []
  | cons p ps ih =>
    have hslot : (r.bindArgument p (values.map Pending.ready).head?).Local looks := by
      cases values with
      | nil => exact .pure none
      | cons v vs =>
        exact .ite (.pure none) ((Run.Local.conform p.type v).bind fun w => .pure (some w))
    refine hslot.bind fun slot => ?_
    rw [← List.map_tail]
    exact (ih values.tail).bind fun slots => .pure (slot :: slots)

theorem bindArguments_local (sub : Sub) (values : List Value) :
    (r.bindArguments sub (values.map .ready)).Local looks := by
  refine (bindFixed_local sub.fixed values).bind fun slots => ?_
  cases sub.vararg? with
  | none => exact .pure slots
  | some p =>
    have htail : (((values.map Pending.ready).drop sub.fixed.length).mapM fun arg => do
        Run.conform (p.type.element?.getD (.prim .any))
          (← r.argumentValue (p.type.element?.getD (.prim .any)) arg)).Local looks := by
      rw [← List.map_drop]
      refine .mapM fun arg harg => ?_
      obtain ⟨v, -, rfl⟩ := List.mem_map.mp harg
      exact .conform _ v
    exact htail.bind fun vs => (Run.Local.newArray _ vs).bind fun array => .pure _

/-- Values are bound without a look at the scopes. -/
theorem firstChoice_local (name : String) (values : List Value) (subs : List Sub) :
    (r.firstChoice name (values.map .ready) subs).Local looks := by
  induction subs with
  | nil => exact .fail rfl
  | cons sub rest ih =>
    refine (bindArguments_local sub values).either (fun slots => .pure (sub, slots)) fun f hf => ?_
    exact .ite ih (.fail hf)

theorem firstChoice_mem {name : String} {args : List Pending} {subs : List Sub} {sub : Sub}
    {slots : List (Option Value)} (h : r.firstChoice name args subs s = .ok (sub, slots) t) :
    sub ∈ subs := by
  induction subs generalizing s with
  | nil => simp [firstChoice, Run.fail] at h
  | cons first rest ih =>
    cases hbound : r.bindArguments first args s with
    | ok slots' u =>
      simp only [firstChoice, Run.either, hbound] at h
      cases h
      exact List.mem_cons_self
    | error e u =>
      cases e with
      | error e =>
        simp only [firstChoice, Run.either, hbound] at h
        by_cases hfault : e.fault.isTypeFault = true
        · rw [if_pos hfault] at h
          exact List.mem_cons_of_mem _ (ih h)
        · simp [hfault, Run.stop] at h
      | outOfFuel => simp [firstChoice, Run.either, hbound] at h

/-- What is chosen is one of the visible overloads. -/
theorem choose_mem {name : String} {args : List Pending} {sub : Sub}
    {slots : List (Option Value)} (h : r.choose name args s = .ok (sub, slots) t) :
    sub ∈ s.env.overloads name := by
  obtain ⟨subs, u, hfitting, hfirst⟩ := Run.exists_of_bind_ok h
  have hmem := firstChoice_mem hfirst
  rw [fittingOverloads_run] at hfitting
  split_ifs at hfitting
  · simp [Run.fail] at hfitting
  · simp [Run.fail] at hfitting
  · cases hfitting
    exact (List.mem_filter.mp (Sub.mem_byArity.mp hmem)).1

end Evaluator

end BasicScript
