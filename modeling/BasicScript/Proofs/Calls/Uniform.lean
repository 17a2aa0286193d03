import BasicScript.Proofs.Recast.Spans
import BasicScript.Proofs.Stores.Members
import BasicScript.Proofs.Types.Storage

/-! # Uniform calls

A call with a receiver is the call in which the receiver comes first among the
arguments: it is evaluated at the same time, and the overloads are tried with
the same values. The two expressions stand at different places of a program, so
that what they do is compared up to spans. An untyped literal is left out: as
an argument it waits for the type of a parameter, and as a receiver it has no
type to wait for.
-/

namespace BasicScript

/-- The expression `a.f(args)`, with the places of the whole and of the call after the dot. -/
def Expr.callOn (a : Expr) (f : String) (args : List Argument) (span callSpan : Span) : Expr :=
  .mk (.binary .dot a (.mk (.invoke f args) callSpan)) span

/-- The expression `f(a, args)`. -/
def Expr.callWith (a : Expr) (f : String) (args : List Argument) (span : Span) : Expr :=
  .mk (.invoke f (.mk false a :: args)) span

/-- Expressions that are the same but for their spans. -/
def Expr.SameBut (e e' : Expr) : Prop := e.mapSpans Span.erase = e'.mapSpans Span.erase

/-- Arguments that are the same but for their spans. -/
def SameArguments (args args' : List Argument) : Prop :=
  args.map (Argument.mapSpans Span.erase) = args'.map (Argument.mapSpans Span.erase)

theorem Expr.erase_callOn (a : Expr) (f : String) (args : List Argument) (span callSpan : Span) :
    (a.callOn f args span callSpan).mapSpans Span.erase =
      (a.mapSpans Span.erase).callOn f (args.map (Argument.mapSpans Span.erase)) .nowhere
        .nowhere := by
  simp only [callOn, mapSpans, ExprKind.mapSpans, Argument.mapSpansAll_eq_map, Span.erase]

theorem Expr.erase_callWith (a : Expr) (f : String) (args : List Argument) (span : Span) :
    (a.callWith f args span).mapSpans Span.erase =
      (a.mapSpans Span.erase).callWith f (args.map (Argument.mapSpans Span.erase)) .nowhere := by
  simp only [callWith, mapSpans, ExprKind.mapSpans, Argument.mapSpansAll, Argument.mapSpans,
    Argument.mapSpansAll_eq_map, Span.erase]

/-- Where one outcome is another recast, so is what is yielded. -/
theorem Recast.result_yielded {R : Recast} {x y : Run Value} {s t : State}
    (h : y t = R.result (Value.mapSpans R.span) (x s)) :
    (Outcome.yielded <$> y) t =
      R.result (Outcome.mapSpans R.span) ((Outcome.yielded <$> x) s) := by
  simp only [Functor.map, EStateM.map, h]
  cases x s <;> rfl

namespace Evaluator

/-- A receiver is evaluated where the first argument would be. -/
theorem dotExpr_receiver {r : Evaluator} {a : Expr} (ha : a.isUntyped = false) (f : String)
    (args : List Argument) (span : Span) (s : State) :
    r.dotExpr a (.mk (.invoke f args) span) s =
      r.callExpr f none (.mk false a :: args) span s := by
  have hargument : r.argument (.mk false a) = (do return [.ready (← r.eval none a)]) := by
    unfold argument
    simp only [ha]
    rfl
  cases hreceiver : r.eval none a s with
  | error e t =>
    have hfirst : r.argument (.mk false a) s = .error e t :=
      (congrFun hargument s).trans (Run.bind_error hreceiver _)
    exact (Run.bind_error hreceiver _).trans
      (Run.bind_error (Run.bind_error hfirst _) _).symm
  | ok v t =>
    have hfirst : r.argument (.mk false a) s = .ok [.ready v] t :=
      (congrFun hargument s).trans (Run.bind_ok hreceiver _)
    refine (Run.bind_ok hreceiver _).trans ?_
    have hrest : r.arguments (.mk false a :: args) s =
        (r.arguments args >>= fun rest => pure (.ready v :: rest)) t := Run.bind_ok hfirst _
    cases hargs : r.arguments args t with
    | error e u =>
      exact (Run.bind_error hargs _).trans
        (Run.bind_error (hrest.trans (Run.bind_error hargs _)) _).symm
    | ok rest u =>
      have hcall : r.callExpr f none (.mk false a :: args) span s =
          r.callPending f (.ready v :: rest) span u :=
        Run.bind_ok (hrest.trans (Run.bind_ok hargs _)) _
      exact (Run.bind_ok hargs _).trans hcall.symm

/-- At the same place the two calls cannot be told apart. -/
theorem eval_callOn {library : Library} (fuel : Nat) (hint : Option Ty) {a : Expr}
    (ha : a.isUntyped = false) (f : String) (args : List Argument) (span : Span) (s : State) :
    (ofFuel library fuel).eval hint (a.callOn f args span span) s =
      (ofFuel library fuel).eval hint (a.callWith f args span) s := by
  cases fuel with
  | zero => rfl
  | succ fuel => exact Run.mapReport_congr _ (dotExpr_receiver ha f args span s)

/-- Expressions that come out alike once their spans are erased come out the same but for spans. -/
theorem eval_sameBut {fuel : Nat} {hint : Option Ty} {e e' : Expr} {s : State}
    (hs : s.env.Nested)
    (h : (ofFuel .standard fuel).eval hint (e.mapSpans Span.erase) (Recast.erasing.state s) =
      (ofFuel .standard fuel).eval hint (e'.mapSpans Span.erase) (Recast.erasing.state s)) :
    Run.SameBut ((Outcome.yielded <$> (ofFuel .standard fuel).eval hint e) s)
      ((Outcome.yielded <$> (ofFuel .standard fuel).eval hint e') s) := by
  have hfollows := Recast.hooked_follows (Library.standard_recasts .erasing) .idle fuel
  rw [hooked_idle] at hfollows
  have hrecast := fun e => ((hfollows.eval hint e) s hs).2.resolve_right fun hlossy => hlossy.1
  have hyields := Run.bind_congr h fun v => pure (Outcome.yielded v)
  exact .of_eq (((Recast.result_yielded (hrecast e)).symm.trans hyields).trans
    (Recast.result_yielded (hrecast e')))

/-- A call with a receiver does what the call does that has the receiver as its first argument. At
the same place they have the same outcome; at other places, and with spans of their own in the
receiver and in the arguments, they have outcomes that are the same but for spans: the same value,
or errors of one wording, with the same text printed and the same storage. -/
theorem calls_uniform {settings : Settings} {s : State} (h : s.Amid settings) (fuel : Nat)
    (hint : Option Ty) {a : Expr} (ha : a.isUntyped = false) (f : String)
    (args : List Argument) :
    let r := ofFuel .standard fuel
    (∀ span, r.eval hint (a.callOn f args span span) s =
      r.eval hint (a.callWith f args span) s) ∧
    ∀ (a' : Expr) (args' : List Argument) (span callSpan span' : Span), a.SameBut a' →
      SameArguments args args' →
        Run.SameBut ((Outcome.yielded <$> r.eval hint (a.callOn f args span callSpan)) s)
          ((Outcome.yielded <$> r.eval hint (a'.callWith f args' span')) s) := by
  intro r
  refine ⟨fun span => eval_callOn fuel hint ha f args span s, ?_⟩
  intro a' args' span callSpan span' hreceiver hargs
  refine eval_sameBut h.nested ?_
  have huntyped : (a.mapSpans Span.erase).isUntyped = false := by rwa [Expr.isUntyped_mapSpans]
  rw [Expr.erase_callOn, Expr.erase_callWith, ← hreceiver, ← hargs]
  exact eval_callOn fuel hint huntyped f _ .nowhere _

/-- The program `sub f(n int, a char, b char) as int { yield n + 1 }`. -/
def takingCharacters : List Stmt :=
  [.generated (.sub (.mk "f" [⟨"n", .prim .int, none⟩, ⟨"a", .prim .char, none⟩,
      ⟨"b", .prim .char, none⟩] (.prim .int)
    [.generated (.yield (.generated (.binary .add (.generated (.name "n"))
      (.generated (.literal (.int 1))))))] false))]

/-- The literal `7` at an offset. -/
def sevenAt (offset : Nat) : Expr := .mk (.literal (.int 7)) ⟨offset, offset + 1⟩

/-- The arguments `..."xy"` at an offset. -/
def spreadAt (offset : Nat) : List Argument :=
  [.mk true (.mk (.literal (.string "xy")) ⟨offset, offset + 4⟩)]

/-- The calls `7.f(..."xy")` and `f(7, ..."xy")` give 8. -/
theorem calls_uniform_spreading :
    let s := ((interrupted .standard (fun _ => false) 4).run takingCharacters).state
      (.initial ⟨false, none, true⟩)
    let r := ofFuel .standard 6
    let on := (sevenAt 0).callOn "f" (spreadAt 7) ⟨0, 12⟩ ⟨2, 12⟩
    let call := (sevenAt 2).callWith "f" (spreadAt 8) ⟨0, 13⟩
    Reaches .standard (.initial ⟨false, none, true⟩) s ∧
    ((r.eval none on).result? s).map s.store.text = some "8" ∧
    ((r.eval none call).result? s).map s.store.text = some "8" ∧
    r.eval none ((sevenAt 0).callOn "f" (spreadAt 7) ⟨0, 12⟩ ⟨0, 12⟩) s =
      r.eval none ((sevenAt 0).callWith "f" (spreadAt 7) ⟨0, 12⟩) s ∧
    Run.SameBut ((Outcome.yielded <$> r.eval none on) s)
      ((Outcome.yielded <$> r.eval none call) s) := by
  intro s r on call
  have h : Reaches .standard (.initial ⟨false, none, true⟩) s :=
    .run takingCharacters (fun _ => false) 4 .refl
  have hon : ((r.eval none on).result? s).map s.store.text = some "8" := by decide +kernel
  have hcall : ((r.eval none call).result? s).map s.store.text = some "8" := by decide +kernel
  clear_value s
  obtain ⟨hsame, helsewhere⟩ := calls_uniform h.amid 6 none (a := sevenAt 0) rfl "f" (spreadAt 7)
  exact ⟨h, hon, hcall, hsame ⟨0, 12⟩,
    helsewhere (sevenAt 2) (spreadAt 8) ⟨0, 12⟩ ⟨2, 12⟩ ⟨0, 13⟩ rfl rfl⟩

end Evaluator

end BasicScript
