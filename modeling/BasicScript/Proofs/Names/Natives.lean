import BasicScript.Proofs.Library.Domains
import BasicScript.Proofs.Names.Programs

/-! # Natives get what they expect

Between the types of a builtin overload and the native that it calls there is
nothing but the text of a signature. Where the names of types are identifiers,
and none is spelled like a type keyword, the text is read back as the type that
the native matches on; and whatever is bound for a call suits the types of the
parameters. So a native gets exactly one argument, of the kind that it expects:
it makes no difference what the natives do with anything else.
-/

namespace BasicScript

/-- An identifier that is not spelled like the keyword of a type, in lower case. -/
def IsTypeName (name : String) : Prop :=
  IsIdentifier name ∧ ∀ p : Primitive, lowerCase name ≠ p.keyword

theorem Primitive.keyword_injective : Function.Injective Primitive.keyword := by
  intro p q h
  cases p <;> cases q <;> first | rfl | exact absurd h (by decide)

namespace Ty

variable {N M : String → Prop} {t u : Ty}

theorem Spelled.imp (h : ∀ name, N name → M name) (ht : t.Spelled N) : t.Spelled M := by
  induction t with
  | array element _ ih | vararg element ih => exact ih ht
  | data name | enum name => exact h name ht
  | inferred | prim => trivial

theorem suits_any {v : Value} (h : t.suits v = true) :
    inferred.suits v = true ∧ (prim .any).suits v = true := by
  cases v with
  | empty => cases t <;> cases h
  | _ => exact ⟨rfl, rfl⟩

/-- What suits a type suits every type without names that is written in the same way. -/
theorem Alike.suits (h : t.Alike u) (ht : t.Spelled IsTypeName) (hu : u.Spelled fun _ => False)
    {v : Value} (hv : t.suits v = true) : u.suits v = true := by
  cases u with
  | inferred => exact (suits_any hv).1
  | prim p =>
    cases t with
    | inferred =>
      obtain ⟨_, ⟨⟩, hword⟩ := h
      obtain rfl : p = .any := Primitive.keyword_injective (Option.some.inj hword)
      exact (suits_any hv).2
    | prim q =>
      obtain ⟨_, ⟨⟩, hword⟩ := h
      obtain rfl : p = q := Primitive.keyword_injective (Option.some.inj hword)
      exact hv
    | data name | enum name =>
      obtain ⟨_, ⟨⟩, hword⟩ := h
      exact absurd (Option.some.inj hword).symm (ht.2 p)
    | array | vararg =>
      obtain ⟨_, hword, -⟩ := h
      cases hword
  | array =>
    cases t with
    | array =>
      cases v with
      | array => rfl
      | _ => cases hv
    | _ =>
      obtain ⟨_, -, hword⟩ := h
      cases hword
  | vararg =>
    cases t with
    | vararg =>
      cases v with
      | array => rfl
      | _ => cases hv
    | _ =>
      obtain ⟨_, -, hword⟩ := h
      cases hword
  | data | enum => exact hu.elim

end Ty

namespace Sub

variable {sub : Sub} {bound : List Value}

/-- A native overload has one parameter, of the kind that its native matches on. -/
theorem Spelled.native_param (h : sub.Spelled IsTypeName) (hnative : sub.native = true) :
    ∃ native t q, Library.standard.lookup sub.signature = some native ∧
      native.returns = sub.returns ∧ Library.domains.lookup sub.signature = some t ∧
        Library.Answers sub.signature native t ∧ sub.params = [q] ∧
          ∀ v, q.type.suits v = true → t.suits v = true := by
  obtain ⟨native, hlookup, hreturns⟩ := h.native hnative
  obtain ⟨name, t, hdomain, hsignature, hanswers⟩ := Library.standard_answers hlookup
  have ht : ∀ N, t.Spelled N := by
    have hnameless : ∀ e ∈ Library.domains, ∀ N, e.2.Spelled N := by
      simp [Library.domains, Ty.Spelled]
    obtain ⟨l₁, l₂, hdomains, -⟩ := List.lookup_eq_some_iff.mp hdomain
    exact hnameless (sub.signature, t) (by simp [hdomains])
  -- the signature under which the native is found is that of the types of the parameters
  have hidentifiers : ∀ q ∈ sub.params.map (·.type), q.Spelled IsIdentifier :=
    List.forall_mem_map.mpr fun q hq => (h.types q hq).imp fun _ hname => hname.1
  have htypes := ((signatureText_eq_iff hidentifiers (List.forall_mem_singleton.mpr (ht _))).mp
    (h.signature.symm.trans hsignature)).2
  obtain ⟨type, types, halike, hrest, hparams⟩ := List.forall₂_cons_right_iff.mp htypes
  obtain rfl := List.forall₂_nil_right_iff.mp hrest
  obtain ⟨q, hq, rfl⟩ := List.map_eq_singleton_iff.mp hparams
  have hspelled := h.types q (hq ▸ List.mem_singleton_self q)
  refine ⟨native, t, q, hlookup, hreturns, hdomain, hanswers, hq, fun v hv => ?_⟩
  exact halike.suits hspelled (ht _) hv

/-- What is bound for a call of a native overload is what its native expects. -/
theorem Spelled.expects (h : sub.Spelled IsTypeName) (hnative : sub.native = true)
    (hbound : sub.Suited bound) : Library.expects sub.signature bound = true := by
  obtain ⟨_, t, q, -, -, hdomain, -, hparams, hsuits⟩ := h.native_param hnative
  rw [Suited, hparams] at hbound
  obtain ⟨v, vs, hv, hrest, rfl⟩ := List.forall₂_cons_left_iff.mp hbound
  obtain rfl := List.forall₂_nil_left_iff.mp hrest
  simp only [Library.expects, hdomain]
  exact hsuits v hv

end Sub

namespace Evaluator

variable {sub : Sub} {bound : List Value} {other : Caller → List Value → Run Value}

/-- With what a native expects, the guard lets it pass. -/
theorem callNative_guarded {r : Evaluator} (hr : r.library = .guarded other)
    (h : Library.expects sub.signature bound = true) :
    r.callNative sub bound =
      ({ r with library := .standard } : Evaluator).callNative sub bound := by
  unfold callNative
  rw [hr, Library.guarded_lookup]
  cases Library.standard.lookup sub.signature with
  | none => rfl
  | some native =>
    simp only [Option.map_some, Library.guard, h, if_true]

end Evaluator

/-- The standard library, guarded or not. -/
def Library.orGuarded (other : Caller → List Value → Run Value) (b : Bool) : Library :=
  if b then guarded other else standard

/-- Where types bear plain names, the guard makes no difference. -/
theorem Grammar.naming_stocked {r : Bool → Evaluator} {other : Caller → List Value → Run Value}
    (hr : ∀ b, (r b).library = Library.orGuarded other b) :
    ((Grammar.naming IsTypeName).laws Bool True).Stocked r where
  returns b signature := by
    rw [hr b]
    cases b with
    | false => rfl
    | true =>
      show ((Library.guarded other).lookup signature).map _ = _
      rw [Library.guarded_lookup, Option.map_map]
      rfl
  calls sub hsub hnative bound hbound := by
    obtain ⟨x, hx, hsame⟩ := Evaluator.callNative_local sub bound
    refine ⟨x, hx, fun b => ?_⟩
    cases b with
    | false => exact hsame _ (hr false)
    | true =>
      rw [Evaluator.callNative_guarded (hr true) (hsub.2.expects hnative hbound)]
      exact hsame _ rfl

/-- Whatever natives do when they get what they do not expect, runs come out the same. -/
theorem Evaluator.run_guarded {s : State} (hs : s.Obeys (.naming IsTypeName))
    {program : List Stmt} (hprogram : ∀ stmt ∈ program, stmt.Naming IsTypeName)
    (other : Caller → List Value → Run Value) (fuel : Nat) :
    (ofFuel (.guarded other) fuel).run program s = (ofFuel .standard fuel).run program s := by
  let L : Law Bool := (Grammar.naming IsTypeName).laws Bool True
  let halt : State → Bool := fun _ => false
  -- both libraries run side by side, as one family that obeys the law
  have huniform : L.Uniform fun b => .interrupted (.orGuarded other b) halt fuel :=
    Law.interrupted_uniform trivial (fun _ _ _ => rfl)
      (fun fuel => Grammar.naming_stocked fun b => interrupted_library _ halt fuel)
      (fun _ _ _ _ _ _ _ _ => .inl trivial) fuel
  have hrun : L.Runs none s.site fun b =>
      (interrupted (.orGuarded other b) halt fuel).run program :=
    Law.run (fun stmt hstmt => huniform.executes stmt (naming_core stmt hstmt))
      (huniform.block hprogram fun _ _ _ _ _ => .inl trivial)
  obtain ⟨outcome, -, hsame⟩ := hrun s hs.inv
  have hall := Filter.eventually_top.mp hsame
  rw [← interrupted_never, ← interrupted_never]
  exact (hall true).1.trans (hall false).1.symm

/-- With what it expects, a native gives a value of the return type of the overload, or it refuses
the argument, or it prints without end. -/
theorem Sub.Spelled.answers {sub : Sub} (h : sub.Spelled IsTypeName) (hnative : sub.native = true)
    {bound : List Value} (hbound : Library.expects sub.signature bound = true) {r : Evaluator}
    (hr : r.library = .standard) (s : State) :
    (∃ w console, r.callNative sub bound s = .ok w { s with console := console } ∧
      sub.returns.admits s.store w = true) ∨
    (∃ v text, bound = [v] ∧ Library.Refuses sub.signature v s text ∧
      r.callNative sub bound s = .error (.error (.ofFault (.custom text))) s) ∨
    ∃ v, bound = [v] ∧ Library.Unprintable sub.signature v s ∧
      r.callNative sub bound s = .error .outOfFuel s := by
  obtain ⟨native, t, -, hlookup, hreturns, hdomain, hanswers, -, -⟩ := h.native_param hnative
  have hone : ∃ v, bound = [v] ∧ t.suits v = true := by
    simp only [Library.expects, hdomain] at hbound
    match bound, hbound with
    | [v], hv => exact ⟨v, rfl, hv⟩
  obtain ⟨v, rfl, hv⟩ := hone
  have hrun : r.callNative sub [v] = (do
      let w ← native.function r.invoke [v]
      if ← Run.read fun s => sub.returns.admits s.store w then pure w
      else Run.failOn (.mismatchedBuiltin sub.signature sub.returns) w : Run Value) := by
    simp only [Evaluator.callNative, hr, hlookup]
  rw [hrun]
  rcases hanswers v hv r.invoke s with ⟨w, console, hw, hadmits⟩ | ⟨text, hrefuses, herror⟩ |
    ⟨hprints, hstop⟩
  · rw [hreturns] at hadmits
    refine .inl ⟨w, console, (Run.bind_ok hw _).trans ?_, hadmits⟩
    exact congrFun (if_pos hadmits) _
  · exact .inr (.inl ⟨v, text, rfl, hrefuses, Run.bind_error herror _⟩)
  · exact .inr (.inr ⟨v, rfl, hprints, Run.bind_error hstop _⟩)

namespace Evaluator

/-- At every moment in the runs of programs where types bear plain names, whatever is chosen and
bound for a call of a native overload is exactly one value of the kind that its native matches on.
With that the native gives a value of the return type of the overload, unless it refuses a number
that is no code point or an array that is too long, or prints a value that is a part of itself. So
what natives do with anything else makes no difference to a run. -/
theorem natives_expected {settings : Settings} {s : State}
    (hs : s.AmidBy (Stmt.Naming IsTypeName) settings) (fuel : Nat) :
    let r := ofFuel .standard fuel
    (∀ name args sub bound t, r.resolveOverload name args s = .ok (sub, bound) t →
      sub.native = true → Library.expects sub.signature bound = true) ∧
    (∀ sub, s.HasSub sub → sub.native = true →
      ∀ bound, Library.expects sub.signature bound = true → ∀ t,
        (∃ w console, r.callNative sub bound t = .ok w { t with console := console } ∧
          sub.returns.admits t.store w = true) ∨
        (∃ v text, bound = [v] ∧ Library.Refuses sub.signature v t text ∧
          r.callNative sub bound t = .error (.error (.ofFault (.custom text))) t) ∨
        ∃ v, bound = [v] ∧ Library.Unprintable sub.signature v t ∧
          r.callNative sub bound t = .error .outOfFuel t) ∧
    ∀ other program, (∀ stmt ∈ program, stmt.Naming IsTypeName) →
      (ofFuel (.guarded other) fuel).run program s = r.run program s := by
  intro r
  have hlibrary : r.library = .standard := ofFuel_library .standard fuel
  refine ⟨fun name args sub bound t hrun hnative => ?_, fun sub hsub hnative bound hbound t => ?_,
    fun other program hprogram => run_guarded hs.obeys hprogram other fuel⟩
  · let L := (Grammar.naming IsTypeName).law True
    have huniform : L.Uniform fun _ => r := ofFuel_uniform trivial trivial fuel
    have hchosen : L.Holds none s.site (fun _ => r.resolveOverload name args) fun c =>
        L.sub c.1 ∧ L.Sees s.site c.1.scope ∧ c.1.Suited c.2 :=
      Law.resolveOverload (huniform.fills name) fun e _ => huniform.evals e
    have hgood := (hchosen.outcome hs.obeys.inv).1
    rw [hrun] at hgood
    obtain ⟨-, ⟨-, hspelled⟩, -, hsuited⟩ := hgood
    exact hspelled.expects hnative hsuited
  · exact (hs.obeys.spelled hsub).answers hnative hbound hlibrary t

/-- After the core declarations, a character for `chr` is widened to its code point. -/
theorem natives_expected_chr :
    let s := ((interrupted .standard (fun _ => false) 6).run []).state
      (.initial ⟨true, none, true⟩)
    let r := ofFuel .standard 6
    let other : Caller → List Value → Run Value := fun _ _ => Run.exhausted
    let program : List Stmt := [.generated (.expression (.generated (.invoke "chr"
      [.mk false (.generated (.literal (.char 'a')))])))]
    s.AmidBy (Stmt.Naming IsTypeName) ⟨true, none, true⟩ ∧
      (∃ sub bound t, r.resolveOverload "chr" [.ready (.char 'a')] s = .ok (sub, bound) t ∧
        sub.native = true ∧ Library.expects sub.signature bound = true) ∧
      (ofFuel (.guarded other) 6).run program s = r.run program s := by
  intro s r other program
  have hs : s.AmidBy (Stmt.Naming IsTypeName) ⟨true, none, true⟩ :=
    (ReachesBy.refl.run (fun _ h => nomatch h) (fun _ => false) 6).amid
  obtain ⟨hexpected, -, hsame⟩ := natives_expected hs 6
  have hnative : (match r.resolveOverload "chr" [.ready (.char 'a')] s with
      | .ok c _ => c.1.native
      | .error _ _ => false) = true := by
    decide +kernel
  refine ⟨hs, ?_, hsame other program fun stmt hstmt => ?_⟩
  · cases hrun : r.resolveOverload "chr" [.ready (.char 'a')] s with
    | ok c t =>
      rw [hrun] at hnative
      exact ⟨c.1, c.2, t, rfl, hnative, hexpected _ _ _ _ _ hrun hnative⟩
    | error e t =>
      rw [hrun] at hnative
      exact nomatch hnative
  · rw [List.mem_singleton.mp hstmt]
    exact .mk (fun _ h => nomatch h) (fun _ h => nomatch h) fun _ h => nomatch h

end Evaluator

end BasicScript
