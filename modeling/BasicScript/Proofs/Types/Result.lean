import BasicScript.Proofs.Calls.Lexical

/-! # Results of calls

A call ends with a value that was yielded at any depth of its body, with what
its result slot holds, or with what a native gives. The first is fitted to the
return type, the second was stored under it and the third is tested against
it, so that each belongs to the type and none is missing.
-/

namespace BasicScript

/-- A plain value that belongs to a type is no array, and so it fits the type as well. -/
theorem Store.fits_of_plain {σ : Store} {t : Ty} {v : Value} (hv : v.isPlain = true)
    (hadmits : t.admits σ v = true) : σ.Fits t v := by
  have hcheck : t.check σ v = .ok () := Ty.admits_check hadmits
  cases helement : t.element? with
  | none => exact (Ty.check_scalar helement).mp hcheck
  | some element =>
    obtain ⟨id, rfl⟩ := Ty.check_is_array helement hcheck
    exact nomatch hv

theorem Run.Plain.gives {x : Run Value} (h : x.Plain) (s : State) :
    x.Sound s fun v t => t.Holds v ∧ v.isPlain = true := by
  intro hs
  obtain ⟨ht, hg, hr⟩ := h.sound s hs
  refine ⟨ht, hg, fun v t hx => ⟨hr v t hx, ?_⟩⟩
  rcases h s with ⟨w, console, hw, hplain⟩ | ⟨e, he⟩
  · rw [hx] at hw
    cases hw
    exact hplain
  · rw [hx] at he
    exact nomatch he

namespace Evaluator.Sound

open Run.Sound (fail failOn readBind pure ite)

variable {r : Evaluator} {s : State}

/-- The result of a native is tested against the return type. -/
theorem nativeResult (hl : r.library = .standard) (sub : Sub) (bound : List Value) :
    (r.callNative sub bound).Sound s (.valueOf sub.returns) := by
  unfold Evaluator.callNative
  split
  · exact fail _
  · next native hlookup =>
    rw [hl] at hlookup
    obtain ⟨f, hf, hplain⟩ := Library.standard_plain hlookup
    rw [hf]
    refine ((hplain bound).gives s).bind fun v t _ hv => readBind ?_
    refine ite (fun hadmits => pure ⟨hv.1, ?_⟩) fun _ => failOn _ v
    exact Store.fits_of_plain hv.2 hadmits

/-- However a call ends with a value, the value has the return type. -/
theorem subResult (h : r.Sound) (hl : r.library = .standard) {sub : Sub} {bound : List Value}
    (hsub : s.HasSub sub) (hbound : List.Forall₂ (fun p v => s.Has p.type v) sub.params bound)
    (span : Span) : (r.callSub sub bound span).Sound s (.valueOf sub.returns) := by
  have hstable : Claim.Stable (.valueOf sub.returns) := Claim.valueOf_stable sub.returns
  refine .asCall hstable fun calls => ite (fun _ => ?_) fun _ => ?_
  · exact nativeResult hl sub bound
  · exact h.runBody (s := { s with calls := calls }) hsub hbound

end Evaluator.Sound

/-- A call by name ended with a value: it is what the call of the overload that was chosen gave,
it belongs to the return type of that overload, and it is not the missing value. -/
def Evaluator.GivesTyped (r : Evaluator) (name : String) (args : List Pending) (span : Span)
    (s : State) (v : Value) (t : State) : Prop :=
  ∃ (sub : Sub) (bound : List Value) (u : State),
    r.resolveOverload name args s = .ok (sub, bound) u ∧ r.callSub sub bound span u = .ok v t ∧
      sub.returns.check t.store v = .ok () ∧ v ≠ .empty

namespace State.Typed

variable {r : Evaluator} {s t : State} {type : Ty} {v : Value}

theorem check (h : s.Typed) (hv : s.Has type v) : type.check s.store v = .ok () ∧ v ≠ .empty := by
  constructor
  · exact hv.fits.check h.store
  · rintro rfl
    exact nomatch hv.fits.present

theorem subResult (h : s.Typed) (hr : r.Sound) (hl : r.library = .standard) {sub : Sub}
    {bound : List Value} (hsub : s.HasSub sub)
    (hbound : List.Forall₂ (fun p v => s.Has p.type v) sub.params bound) {span : Span}
    (hcall : r.callSub sub bound span s = .ok v t) :
    sub.returns.check t.store v = .ok () ∧ v ≠ .empty := by
  obtain ⟨ht, -, hresult⟩ := hr.subResult hl hsub hbound span h
  rw [Run.state_ok hcall] at ht
  exact ht.check (hresult v t hcall)

theorem callResult (h : s.Typed) (hr : r.Sound) (hl : r.library = .standard) {name : String}
    {args : List Pending} (hargs : ∀ arg ∈ args, arg.Held s) {span : Span}
    (hcall : r.callPending name args span s = .ok v t) : r.GivesTyped name args span s v t := by
  obtain ⟨⟨sub, bound⟩, u, hchosen, hended⟩ := Run.exists_of_bind_ok hcall
  obtain ⟨hu, -, hclaim⟩ := hr.resolveOverload name hargs h
  rw [Run.state_ok hchosen] at hu
  obtain ⟨hsub, hbound⟩ := hclaim _ u hchosen
  exact ⟨sub, bound, u, hchosen, hended, hu.subResult hr hl hsub hbound hended⟩

/-- A receiver, if there is one, comes before the arguments. -/
theorem callExprResult (h : s.Typed) (hr : r.Sound) (hl : r.library = .standard) {name : String}
    {receiver : Option Value} (hreceiver : ∀ w, receiver = some w → s.Holds w)
    {args : List Argument} {span : Span} (hcall : r.callExpr name receiver args span s = .ok v t) :
    ∃ (pending : List Pending) (u : State), r.arguments args s = .ok pending u ∧
      r.GivesTyped name ((receiver.map .ready).toList ++ pending) span u v t := by
  obtain ⟨pending, u, hpending, hcall⟩ := Run.exists_of_bind_ok hcall
  obtain ⟨hu, hg, hheld⟩ := hr.arguments args h
  rw [Run.state_ok hpending] at hu hg
  refine ⟨pending, u, hpending, hu.callResult hr hl (fun arg harg => ?_) hcall⟩
  rcases List.mem_append.mp harg with hfirst | hrest
  · obtain ⟨w, hw, rfl⟩ := Option.map_eq_some_iff.mp (Option.mem_toList.mp hfirst)
    exact State.Holds.grows (hreceiver w hw) hg
  · exact hheld pending u hpending arg hrest

end State.Typed

/-- In the middle of any run a call that succeeds gives a value of the return type of the sub: a
call of an overload with values for its parameters, a call by name, and the calls that expressions
spell, with a receiver and without one. -/
theorem Evaluator.typedCalls {settings : Settings} {s : State} (h : s.Amid settings)
    (fuel : Nat) :
    let r := Evaluator.ofFuel .standard fuel
    (∀ sub bound span v t, s.HasSub sub →
      List.Forall₂ (fun p v => s.Has p.type v) sub.params bound →
        r.callSub sub bound span s = .ok v t →
          sub.returns.check t.store v = .ok () ∧ v ≠ .empty) ∧
    (∀ name args span v t, (∀ arg ∈ args, arg.Held s) →
      r.callPending name args span s = .ok v t → r.GivesTyped name args span s v t) ∧
    (∀ hint span name args v t, r.exprKind hint span (.invoke name args) s = .ok v t →
      ∃ pending u, r.arguments args s = .ok pending u ∧ r.GivesTyped name pending span u v t) ∧
    (∀ hint span left name args rightSpan v t,
      r.exprKind hint span (.binary .dot left (.mk (.invoke name args) rightSpan)) s = .ok v t →
        ∃ target s₁ pending u, r.eval none left s = .ok target s₁ ∧
          r.arguments args s₁ = .ok pending u ∧
            r.GivesTyped name (.ready target :: pending) rightSpan u v t) := by
  intro r
  have hr : r.Sound := standard_sound fuel
  have hl : r.library = .standard := ofFuel_library .standard fuel
  have hs : s.Typed := h.typed
  refine ⟨?_, ?_, ?_, ?_⟩
  · intro sub bound span v t hsub hbound hcall
    exact hs.subResult hr hl hsub hbound hcall
  · intro name args span v t hargs hcall
    exact hs.callResult hr hl hargs hcall
  · intro hint span name args v t hcall
    have hreceiver : ∀ w, (none : Option Value) = some w → s.Holds w := fun _ hw => nomatch hw
    exact hs.callExprResult hr hl hreceiver hcall
  · intro hint span left name args rightSpan v t hcall
    obtain ⟨target, s₁, htarget, hcall⟩ := Run.exists_of_bind_ok hcall
    obtain ⟨hs₁, -, hheld⟩ := hr.eval none left s hs
    rw [Run.state_ok htarget] at hs₁
    have hreceiver : ∀ w, some target = some w → s₁.Holds w := by
      rintro w ⟨⟩
      exact hheld target s₁ htarget
    obtain ⟨pending, u, hpending, hgives⟩ := hs₁.callExprResult hr hl hreceiver hcall
    exact ⟨target, s₁, pending, u, htarget, hpending, hgives⟩

/-- The program `{ sub f() as long { yield 1 } }`. -/
def declaringSub : List Stmt :=
  [.generated (.block [.generated (.sub (.mk "f" [] (.prim .long)
    [.generated (.yield (.generated (.literal (.int 1))))] false))])]

/-- Whether a run ends with a value of a type. -/
def Run.endsWithin (x : Run Value) (t : Ty) (s : State) : Bool :=
  match x s with
  | .ok v u => t.admits u.store v
  | .error _ _ => false

/-- The call is made in the block that declares the sub. -/
theorem typedCalls_declaringSub :
    let s := ((Evaluator.interrupted .standard (fun _ => false) 4).run declaringSub).state
      (.initial ⟨false, none, true⟩)
    let inner := s.onStack [[⟨1⟩, ⟨0⟩]]
    let r := Evaluator.ofFuel .standard 8
    inner.Amid ⟨false, none, true⟩ ∧
      ∃ v t, r.exprKind none .nowhere (.invoke "f" []) inner = .ok v t ∧
        r.GivesTyped "f" [] .nowhere inner v t := by
  intro s inner r
  have hs : Reaches .standard (.initial ⟨false, none, true⟩) s :=
    .run declaringSub (fun _ => false) 4 .refl
  have hstack : ∀ path ∈ [[(⟨1⟩ : ScopeId), ⟨0⟩]],
      ScopePath.Outward path ∧ ∀ id ∈ path, id.index < s.env.scopes.size := by
    have hsize : s.env.scopes.size = 2 := by decide +kernel
    rw [hsize]
    unfold ScopePath.Outward
    decide
  have h : inner.Amid ⟨false, none, true⟩ := hs.amid.onStack hstack
  have hends :
      (r.exprKind none .nowhere (.invoke "f" [])).endsWithin (.prim .long) inner = true := by
    decide +kernel
  refine ⟨h, ?_⟩
  cases hcall : r.exprKind none .nowhere (.invoke "f" []) inner with
  | error e t =>
    simp only [Run.endsWithin, hcall] at hends
    exact nomatch hends
  | ok v t =>
    obtain ⟨pending, u, hpending, hgives⟩ :=
      (Evaluator.typedCalls h 8).2.2.1 none .nowhere "f" [] v t hcall
    cases hpending
    exact ⟨v, t, rfl, hgives⟩

end BasicScript
