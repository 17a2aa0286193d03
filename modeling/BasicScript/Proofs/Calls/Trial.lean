import BasicScript.Proofs.Calls.Order
import BasicScript.Proofs.Frame.Basic
import BasicScript.Proofs.Types.Acceptance

/-! # Trials of overloads

Before an overload is chosen, values are tried on its parameters. A trial
evaluates nothing and prints nothing: it succeeds on the values that the
parameters accept, fails with a fault about types on all others, and leaves no
trace but further arrays.
-/

namespace BasicScript

/-- Somewhere between two stores a value is fitted to a type. -/
def Store.Fitted (σ σ' : Store) (t : Ty) (v w : Value) : Prop :=
  ∃ σ₁ σ₂, σ.Adds σ₁ ∧ t.conform σ₁ v = .ok (w, σ₂) ∧ σ₂.Adds σ'

namespace Parameter

/-- Whether an argument leaves the place open: there is none, or it is empty and the type of the
parameter is not that of a tail. -/
def leftOpen (p : Parameter) (arg : Option Value) : Bool :=
  arg.all fun v => v.isMissing && !p.isVararg

/-- Whether an argument is accepted. -/
def Accepts (p : Parameter) (σ : Store) (arg : Option Value) : Prop :=
  ∀ v, arg = some v → p.leftOpen arg = false → p.type.Accepts σ v

/-- What a place holds for an argument: nothing if it is left open, and otherwise the value that
the argument becomes. -/
def Takes (p : Parameter) (σ σ' : Store) (arg slot : Option Value) : Prop :=
  if p.leftOpen arg then slot = none
  else ∃ v w, arg = some v ∧ slot = some w ∧ σ.Fitted σ' p.type v w

end Parameter

namespace Sub

/-- Whether an overload accepts values: each parameter its own, and the tail all others. -/
structure Accepts (sub : Sub) (σ : Store) (values : List Value) : Prop where
  fixed : ∀ (i : Nat) (p : Parameter), sub.fixed[i]? = some p → p.Accepts σ values[i]?
  tail : ∀ (p : Parameter) (element : Ty), sub.vararg? = some p → p.type = .vararg element →
    ∀ v ∈ values.drop sub.fixed.length, element.Accepts σ v

/-- The places of an overload after values were bound to it. -/
structure Binds (sub : Sub) (σ σ' : Store) (values : List Value) (slots : List (Option Value)) :
    Prop where
  length : slots.length = sub.params.length
  fixed : ∀ (i : Nat) (p : Parameter), sub.fixed[i]? = some p →
    ∃ slot, slots[i]? = some slot ∧ p.Takes σ σ' values[i]? slot
  /-- The values of the tail are packed into a new array. -/
  tail : ∀ (p : Parameter) (element : Ty), sub.vararg? = some p → p.type = .vararg element →
    ∃ (id : ArrayId) (ws : List Value), slots[sub.fixed.length]? = some (some (.array id)) ∧
      σ.arrays.size ≤ id.index ∧ σ'.arrays[id.index]? = some ⟨element, ws.toArray⟩ ∧
      List.Forall₂ (σ.Fitted σ' element) (values.drop sub.fixed.length) ws

end Sub

/-- A run that takes nothing from the evaluator: with a result if a condition is met, and otherwise
with a fault about types. It may add arrays. -/
inductive Trial {α : Type} (c : Prop) (s : State) (x : Evaluator → Run α)
    (P : α → Store → Prop) : Prop where
  | passed (σ : Store) (a : α) : c → s.store.Adds σ → σ.Closed → P a σ →
      (∀ r, x r s = .ok a { s with store := σ }) → Trial c s x P
  | rejected (σ : Store) (e : Report) : ¬ c → s.store.Adds σ → σ.Closed →
      e.fault.isTypeFault = true → (∀ r, x r s = .error (.error e) { s with store := σ }) →
      Trial c s x P

namespace Trial

variable {α β : Type} {c d : Prop} {s : State} {x : Evaluator → Run α}
  {P : α → Store → Prop}

theorem pure {a : α} (hσ : s.store.Closed) (ha : P a s.store) :
    Trial True s (fun _ => Pure.pure a) P :=
  .passed s.store a trivial (.refl _) hσ ha fun _ => rfl

theorem congr (h : Trial c s x P) (hc : c ↔ d) : Trial d s x P := by
  rwa [← hc]

theorem bind {f : Evaluator → α → Run β} {Q : β → Store → Prop} (hx : Trial c s x P)
    (hf : ∀ a σ, s.store.Adds σ → σ.Closed → P a σ →
      Trial d { s with store := σ } (fun r => f r a) Q) :
    Trial (c ∧ d) s (fun r => x r >>= f r) Q := by
  cases hx with
  | passed σ a hc hadds hσ ha hrun =>
    cases hf a σ hadds hσ ha with
    | passed σ' b hd hadds' hσ' hb hrun' =>
      refine .passed σ' b ⟨hc, hd⟩ (hadds.trans hadds') hσ' hb fun r => ?_
      rw [Run.bind_ok (hrun r), hrun' r]
    | rejected σ' e hd hadds' hσ' he hrun' =>
      refine .rejected σ' e (fun h => hd h.2) (hadds.trans hadds') hσ' he fun r => ?_
      rw [Run.bind_ok (hrun r), hrun' r]
  | rejected σ e hc hadds hσ he hrun =>
    exact .rejected σ e (fun h => hc h.1) hadds hσ he fun r => Run.bind_error (hrun r) (f r)

/-- A trial that cannot be rejected follows. -/
theorem andThen {f : Evaluator → α → Run β} {Q : β → Store → Prop} (hx : Trial c s x P)
    (hf : ∀ a σ, s.store.Adds σ → σ.Closed → P a σ →
      Trial True { s with store := σ } (fun r => f r a) Q) :
    Trial c s (fun r => x r >>= f r) Q :=
  (hx.bind hf).congr (and_iff_left trivial)

theorem imp {Q : α → Store → Prop} (h : Trial c s x P)
    (himp : ∀ a σ, s.store.Adds σ → P a σ → Q a σ) : Trial c s x Q := by
  cases h with
  | passed σ a hc hadds hσ ha hrun =>
    exact .passed σ a hc hadds hσ (himp a σ hadds ha) hrun
  | rejected σ e hc hadds hσ he hrun => exact .rejected σ e hc hadds hσ he hrun

end Trial

section Adding

variable {σ σ' σ₀ σ₁ : Store} {values : List Value}

theorem Store.Fitted.mono {t : Ty} {v w : Value} (h : σ.Fitted σ' t v w) (hbefore : σ₀.Adds σ)
    (hafter : σ'.Adds σ₁) : σ₀.Fitted σ₁ t v w := by
  obtain ⟨τ, τ', hτ, hok, hτ'⟩ := h
  exact ⟨τ, τ', hbefore.trans hτ, hok, hτ'.trans hafter⟩

theorem Parameter.Takes.nothing {p : Parameter} {arg : Option Value} (h : p.leftOpen arg = true) :
    p.Takes σ σ' arg none := by
  rw [Takes, if_pos h]

theorem Parameter.Takes.value {p : Parameter} {v w : Value} (h : p.leftOpen (some v) = false)
    (hw : σ.Fitted σ' p.type v w) : p.Takes σ σ' (some v) (some w) := by
  rw [Takes, h, if_neg Bool.false_ne_true]
  exact ⟨v, w, rfl, rfl, hw⟩

theorem Parameter.Takes.mono {p : Parameter} {arg slot : Option Value}
    (h : p.Takes σ σ' arg slot) (hbefore : σ₀.Adds σ) (hafter : σ'.Adds σ₁) :
    p.Takes σ₀ σ₁ arg slot := by
  unfold Takes at h ⊢
  split at h
  · next hopen => rwa [if_pos hopen]
  · next hopen =>
    obtain ⟨v, w, harg, hslot, hw⟩ := h
    rw [if_neg hopen]
    exact ⟨v, w, harg, hslot, hw.mono hbefore hafter⟩

theorem Parameter.accepts_adds {p : Parameter} {arg : Option Value} (hadds : σ.Adds σ')
    (hσ : σ.Closed) (hσ' : σ'.Closed) (harg : ∀ v, arg = some v → σ.Within v) :
    p.Accepts σ arg ↔ p.Accepts σ' arg :=
  forall₂_congr fun v hv => imp_congr_right fun _ =>
    p.type.accepts_adds hadds hσ hσ' (harg v hv)

theorem Sub.accepts_adds (sub : Sub) (hadds : σ.Adds σ') (hσ : σ.Closed) (hσ' : σ'.Closed)
    (hvalues : ∀ v ∈ values, σ.Within v) : sub.Accepts σ values ↔ sub.Accepts σ' values := by
  have hfixed : ∀ (p : Parameter) (i : Nat), p.Accepts σ values[i]? ↔ p.Accepts σ' values[i]? :=
    fun p i => p.accepts_adds hadds hσ hσ' fun v hv => hvalues v (List.mem_of_getElem? hv)
  have htail : ∀ (element : Ty), ∀ v ∈ values.drop sub.fixed.length,
      (element.Accepts σ v ↔ element.Accepts σ' v) :=
    fun element v hv => element.accepts_adds hadds hσ hσ' (hvalues v (List.mem_of_mem_drop hv))
  exact ⟨fun h => ⟨fun i p hp => (hfixed p i).mp (h.fixed i p hp),
      fun p element hp ht v hv => (htail element v hv).mp (h.tail p element hp ht v hv)⟩,
    fun h => ⟨fun i p hp => (hfixed p i).mpr (h.fixed i p hp),
      fun p element hp ht v hv => (htail element v hv).mpr (h.tail p element hp ht v hv)⟩⟩

end Adding

namespace Trial

variable {s : State} {values : List Value}

theorem conform {t : Ty} {v : Value} (hσ : s.store.Closed) (hv : s.store.Within v) :
    Trial (t.Accepts s.store v) s (fun _ => Run.conform t v)
      fun w σ => s.store.Fitted σ t v w ∧ σ.Within w := by
  cases hok : t.conform s.store v with
  | ok wσ =>
    obtain ⟨w, σ⟩ := wσ
    obtain ⟨hresult, -⟩ := Ty.conform_ok.mp hok
    obtain ⟨hσ', hw⟩ := Ty.coerce_closed hresult hσ hv
    refine .passed σ w ⟨w, σ, hok⟩ (Ty.coerce_adds hresult) hσ'
      ⟨⟨s.store, σ, .refl _, hok, .refl _⟩, hw⟩ fun r => ?_
    simp only [Run.conform, Run.fit, hok]
  | error m =>
    refine .rejected s.store (.ofFault (.ofMismatch t (s.store.typeOf? v) m)) ?_ (.refl _) hσ ?_
      fun r => ?_
    · rintro ⟨w, σ, hok'⟩
      exact nomatch hok.symm.trans hok'
    · cases m <;> rfl
    · simp only [Run.conform, Run.fit, hok]
      rfl

theorem bindArgument (p : Parameter) {arg : Option Value} (hσ : s.store.Closed)
    (harg : ∀ v, arg = some v → s.store.Within v) :
    Trial (p.Accepts s.store arg) s (fun r => r.bindArgument p (arg.map .ready))
      fun slot σ => p.Takes s.store σ arg slot := by
  cases hopen : p.leftOpen arg with
  | true =>
    have hrun : (fun r : Evaluator => r.bindArgument p (arg.map .ready)) =
        fun _ => Pure.pure none := by
      funext r
      cases arg with
      | none => rfl
      | some v => exact if_pos hopen
    rw [hrun]
    refine (pure hσ (.nothing hopen)).congr ⟨fun _ v _ hclosed => ?_, fun _ => trivial⟩
    exact nomatch hopen.symm.trans hclosed
  | false =>
    cases arg with
    | none => exact nomatch hopen
    | some v =>
      have hrun : (fun r : Evaluator => r.bindArgument p ((some v).map .ready)) =
          fun _ => Run.conform p.type v >>= fun w => Pure.pure (some w) := by
        funext r
        exact if_neg (Bool.not_eq_true _ ▸ hopen)
      rw [hrun]
      refine ((conform hσ (harg v rfl)).andThen fun w σ _ hσ' hw =>
        pure (P := fun slot σ => p.Takes s.store σ (some v) slot) hσ' (.value hopen hw.1)).congr ?_
      refine ⟨fun h u hu _ => ?_, fun h => h v rfl hopen⟩
      cases hu
      exact h

/-- The parameters that take one argument each are tried in order. -/
theorem bindFixed (ps : List Parameter) (hσ : s.store.Closed)
    (hvalues : ∀ v ∈ values, s.store.Within v) :
    Trial (∀ (i : Nat) (p : Parameter), ps[i]? = some p → p.Accepts s.store values[i]?) s
      (fun r => r.bindFixed ps (values.map .ready))
      fun slots σ => slots.length = ps.length ∧ ∀ (i : Nat) (p : Parameter), ps[i]? = some p →
        ∃ slot, slots[i]? = some slot ∧ p.Takes s.store σ values[i]? slot := by
  induction ps generalizing s values with
  | nil =>
    refine (pure (a := []) hσ ⟨rfl, fun i p hp => ?_⟩).congr ⟨fun _ i p hp => ?_, fun _ => trivial⟩
    · exact nomatch hp
    · exact nomatch hp
  | cons p ps ih =>
    have hhead : ∀ v, values[0]? = some v → s.store.Within v :=
      fun v hv => hvalues v (List.mem_of_getElem? hv)
    have htail : ∀ v ∈ values.tail, s.store.Within v :=
      fun v hv => hvalues v (List.mem_of_mem_tail hv)
    have hrun : (fun r : Evaluator => r.bindFixed (p :: ps) (values.map .ready)) = fun r =>
        r.bindArgument p (values[0]?.map .ready) >>= fun slot =>
          r.bindFixed ps (values.tail.map .ready) >>= fun slots => Pure.pure (slot :: slots) := by
      funext r
      rw [Evaluator.bindFixed, List.head?_map, List.head?_eq_getElem?, List.map_tail]
    rw [hrun]
    refine Trial.congr (bind (bindArgument p hσ hhead) (d := ∀ (i : Nat) (q : Parameter),
      ps[i]? = some q → q.Accepts s.store values.tail[i]?) fun slot σ hadds hσ' hslot => ?_) ?_
    · refine Trial.congr (andThen (ih hσ' fun v hv => (htail v hv).adds hadds)
        fun slots σ' hadds' hσ'' hslots => pure hσ'' ⟨?_, ?_⟩) ?_
      · exact congrArg (· + 1) hslots.1
      · rintro (_ | i) q hq
        · cases hq
          exact ⟨slot, rfl, hslot.mono (.refl _) hadds'⟩
        · obtain ⟨slot', hslot', htakes⟩ := hslots.2 i q hq
          rw [List.getElem?_tail] at htakes
          exact ⟨slot', hslot', htakes.mono hadds (.refl _)⟩
      · refine forall₂_congr fun i q => imp_congr_right fun _ => ?_
        exact (Parameter.accepts_adds hadds hσ hσ' fun v hv =>
          htail v (List.mem_of_getElem? hv)).symm
    · rw [← Nat.and_forall_add_one (p := fun i => ∀ q, (p :: ps)[i]? = some q →
        q.Accepts s.store values[i]?)]
      simp only [List.getElem?_cons_zero, List.getElem?_cons_succ, List.getElem?_tail,
        Option.some.injEq, forall_eq']

theorem bindTail (element : Ty) (hσ : s.store.Closed) (hvalues : ∀ v ∈ values, s.store.Within v) :
    Trial (∀ v ∈ values, element.Accepts s.store v) s
      (fun r => (values.map Pending.ready).mapM fun arg => do
        Run.conform element (← r.argumentValue element arg))
      fun ws σ => List.Forall₂ (s.store.Fitted σ element) values ws ∧ ∀ w ∈ ws, σ.Within w := by
  induction values generalizing s with
  | nil =>
    exact (pure hσ ⟨.nil, fun w hw => nomatch hw⟩).congr
      ⟨fun _ v hv => (nomatch hv), fun _ => trivial⟩
  | cons v vs ih =>
    rw [List.forall_mem_cons] at hvalues
    simp only [List.map_cons, List.mapM_cons]
    refine Trial.congr (bind (d := ∀ v ∈ vs, element.Accepts s.store v)
      (x := fun _ => Run.conform element v) (conform hσ hvalues.1)
      fun w σ hadds hσ' hw => ?_) List.forall_mem_cons.symm
    refine Trial.congr (andThen (ih hσ' fun v hv => (hvalues.2 v hv).adds hadds)
      fun ws σ' hadds' hσ'' hws => pure hσ'' ⟨.cons ?_ ?_, ?_⟩) ?_
    · exact hw.1.mono (.refl _) hadds'
    · exact hws.1.imp fun v w hvw => hvw.mono hadds (.refl _)
    · exact List.forall_mem_cons.mpr ⟨hw.2.adds hadds', hws.2⟩
    · exact forall₂_congr fun v hv =>
        (element.accepts_adds hadds hσ hσ' (hvalues.2 v hv)).symm

theorem newArray (element : Ty) (hσ : s.store.Closed) (hvalues : ∀ v ∈ values, s.store.Within v) :
    Trial True s (fun _ => Run.newArray element values) fun w σ =>
      w = .array ⟨s.store.arrays.size⟩ ∧
        σ.arrays[s.store.arrays.size]? = some ⟨element, values.toArray⟩ := by
  refine .passed (s.store.newArray element values).2 _ trivial (.newArray s.store element values)
    (hσ.newArray hvalues) ⟨rfl, ?_⟩ fun r => rfl
  exact Array.getElem?_push_size

/-- Without a tail, the parameters that take one argument each are all of them. -/
theorem bindArguments_fixed {sub : Sub} (hvararg : sub.vararg? = none) (hσ : s.store.Closed)
    (hvalues : ∀ v ∈ values, s.store.Within v) :
    Trial (sub.Accepts s.store values) s (fun r => r.bindArguments sub (values.map .ready))
      fun slots σ => sub.Binds s.store σ values slots := by
  have hparams := congrArg List.length sub.params_fixed
  rw [hvararg, Option.toList_none, List.append_nil] at hparams
  have hrun : (fun r : Evaluator => r.bindArguments sub (values.map .ready)) = fun r =>
      r.bindFixed sub.fixed (values.map .ready) := by
    funext r
    simp only [Evaluator.bindArguments, hvararg, bind_pure]
  rw [hrun]
  refine ((bindFixed sub.fixed hσ hvalues).imp fun slots σ _ h => ?_).congr ⟨fun h => ?_, ?_⟩
  · exact ⟨h.1.trans hparams.symm, h.2, fun p _ hp => nomatch hvararg.symm.trans hp⟩
  · exact ⟨h, fun p _ hp => nomatch hvararg.symm.trans hp⟩
  · exact Sub.Accepts.fixed

/-- The values of the tail are tried after the others, and packed into a new array. -/
theorem bindArguments_tail {sub : Sub} {p : Parameter} {element : Ty}
    (hvararg : sub.vararg? = some p) (helement : p.type = .vararg element)
    (hσ : s.store.Closed) (hvalues : ∀ v ∈ values, s.store.Within v) :
    Trial (sub.Accepts s.store values) s (fun r => r.bindArguments sub (values.map .ready))
      fun slots σ => sub.Binds s.store σ values slots := by
  have hparams := congrArg List.length sub.params_fixed
  rw [hvararg, Option.toList_some, List.length_append, List.length_singleton] at hparams
  have hrun : (fun r : Evaluator => r.bindArguments sub (values.map .ready)) = fun r =>
      r.bindFixed sub.fixed (values.map .ready) >>= fun slots =>
        ((values.drop sub.fixed.length).map Pending.ready).mapM (fun arg => do
          Run.conform element (← r.argumentValue element arg)) >>= fun tail =>
            Run.newArray element tail >>= fun array => Pure.pure (slots ++ [some array]) := by
    funext r
    simp only [Evaluator.bindArguments, hvararg, helement, Ty.element?, Option.getD_some,
      List.map_drop]
  rw [hrun]
  have htail : ∀ v ∈ values.drop sub.fixed.length, s.store.Within v :=
    fun v hv => hvalues v (List.mem_of_mem_drop hv)
  refine Trial.congr (bind (d := ∀ v ∈ values.drop sub.fixed.length, element.Accepts s.store v)
    (bindFixed sub.fixed hσ hvalues) fun slots σ hadds hσ' hslots => ?_) ⟨fun h => ?_, fun h => ?_⟩
  · refine Trial.congr (andThen (bindTail element hσ' fun v hv => (htail v hv).adds hadds)
      fun ws σ₁ hadds₁ hσ₁ hws => (newArray element hσ₁ hws.2).andThen
        fun array σ₂ hadds₂ hσ₂ harray => pure hσ₂ ⟨?_, ?_, ?_⟩) ?_
    · rw [List.length_append, hslots.1, hparams, List.length_singleton]
    · intro i q hq
      obtain ⟨slot, hslot, htakes⟩ := hslots.2 i q hq
      refine ⟨slot, ?_, htakes.mono (.refl _) (hadds₁.trans hadds₂)⟩
      rw [List.getElem?_append_left (List.getElem?_eq_some_iff.mp hslot).1, hslot]
    · intro q element' hq helement'
      cases hvararg.symm.trans hq
      cases helement.symm.trans helement'
      refine ⟨⟨σ₁.arrays.size⟩, ws, ?_, (hadds.trans hadds₁).size_le, harray.2,
        hws.1.imp fun v w hvw => hvw.mono hadds hadds₂⟩
      rw [← hslots.1, List.getElem?_concat_length, harray.1]
    · exact forall₂_congr fun v hv => (element.accepts_adds hadds hσ hσ' (htail v hv)).symm
  · refine ⟨h.1, fun q element' hq helement' => ?_⟩
    cases hvararg.symm.trans hq
    cases helement.symm.trans helement'
    exact h.2
  · exact ⟨h.fixed, h.tail p element hvararg helement⟩

/-- Values are tried on all parameters of an overload. -/
theorem bindArguments (sub : Sub) (hσ : s.store.Closed)
    (hvalues : ∀ v ∈ values, s.store.Within v) :
    Trial (sub.Accepts s.store values) s (fun r => r.bindArguments sub (values.map .ready))
      fun slots σ => sub.Binds s.store σ values slots := by
  cases hvararg : sub.vararg? with
  | none => exact bindArguments_fixed hvararg hσ hvalues
  | some p =>
    obtain ⟨element, helement⟩ := Sub.vararg_type hvararg
    exact bindArguments_tail hvararg helement hσ hvalues

end Trial

end BasicScript
