import BasicScript.Proofs.Frame.Visits
import BasicScript.Proofs.Law.Scopes

/-! # Hooks under a law

A law stays in force where the rules run through hooks that keep it. A detour
that is taken only where declarations are not as a grammar says is never
taken: so they are, in all states that programs come by.
-/

namespace BasicScript

namespace Law

variable {ι : Type} {L : Law ι} {room : Option Nat} {p : Site}

/-- Runs that do the same in all states that the law has in view. -/
theorem Holds.congr {α : Type} {x y : ι → Run α} {P : α → Prop} (h : L.Holds room p x P)
    (hsame : ∀ s, L.Inv room p s → ∀ i, y i s = x i s ∧ y i (L.twin p s) = x i (L.twin p s)) :
    L.Holds room p y P := by
  intro s hs
  obtain ⟨outcome, hgood, hruns⟩ := h s hs
  refine ⟨outcome, hgood, ?_⟩
  filter_upwards [hruns] with i hi
  obtain ⟨hrun, htwin⟩ := hsame s hs i
  exact ⟨hrun.trans hi.1, htwin.trans hi.2⟩

/-- Hooks of allowed runs leave a law in force that lets signals stray. -/
theorem hooked_uniform [L.along.NeBot] {hooks : ι → Hook} (hexhausts : L.exhausts)
    (hstrays : L.strays)
    (hvalue : ∀ {x : ι → Run Value} {p : Site}, L.Runs none p x →
      L.Runs none p fun i => (hooks i).value (x i))
    (hflow : ∀ {x : ι → Run Flow} {p : Site}, L.Runs none p x →
      L.Runs none p fun i => (hooks i).flow (x i)) (fuel : Nat) :
    L.Uniform fun i => .hooked .standard (hooks i) fuel := by
  induction fuel with
  | zero =>
    exact ⟨fun _ _ _ => .exhausted hexhausts, fun _ _ _ => .exhausted hexhausts,
      fun _ _ => .exhausted hexhausts, fun _ _ _ => .exhausted hexhausts⟩
  | succ fuel ih =>
    have hlibrary : L.Stocked fun i => .hooked .standard (hooks i) fuel :=
      .of_standard fun i => Evaluator.hooked_library .standard (hooks i) fuel
    have hrounds : ∀ i, (Evaluator.hooked .standard (hooks i) fuel).rounds = fuel - 1 := by
      intro i
      cases fuel <;> rfl
    have hruled := ih.ruled hexhausts hlibrary (fun _ _ _ _ _ _ _ => .inl hstrays) hrounds
    constructor
    · exact fun e p hint => hvalue (hruled.expr hint e p)
    · exact fun s hs p => hflow (hruled.stmt s hs p)
    · exact fun t p => hvalue (hruled.defaultValue t p)
    · exact fun name vs p => hvalue (hruled.callValues name vs p)

end Law

/-- In the states that a run comes by, what has been declared is in the scope of the declaration. -/
theorem Visits.obeys {s t : State} (hs : s.Obeys .all) (h : Visits .standard s t) :
    t.Obeys .all := by
  obtain ⟨program, fuel, here, value, flow, hhere, hdiffer⟩ := h
  by_contra hnot
  let L := Grammar.all.laws Bool True
  let hooks : Bool → Hook := fun i => bif i then .detour here value flow else .idle
  have helsewhere : ∀ u : State, u.Obeys .all → ¬here u = true :=
    fun u hu hu' => hnot (hhere u hu' ▸ hu)
  have hkept : ∀ {α : Type} {x y : Bool → Run α} {p : Site},
      (∀ u, ¬here u = true → ∀ i, y i u = x i u) → L.Runs none p x → L.Runs none p y := by
    intro α x y p hsame hx
    refine hx.congr fun u hu i => ?_
    rw [Grammar.laws_twin hu]
    exact ⟨hsame u (helsewhere u hu.declared) i, hsame u (helsewhere u hu.declared) i⟩
  have huniform : L.Uniform fun i => .hooked .standard (hooks i) fuel := by
    refine Law.hooked_uniform trivial trivial (hkept fun u hu i => ?_) (hkept fun u hu i => ?_) fuel
    · cases i with
      | true => exact if_neg hu
      | false => rfl
    · cases i with
      | true => exact if_neg hu
      | false => rfl
  have hrun : L.Runs none s.site fun i =>
      (Evaluator.hooked .standard (hooks i) fuel).run program :=
    Law.run (fun stmt _ => huniform.executes stmt trivial)
      (huniform.block (fun _ _ => trivial) fun _ _ _ _ _ => .inl trivial)
  obtain ⟨outcome, -, hruns⟩ := hrun s hs.inv
  have hall : ∀ i, (Evaluator.hooked .standard (hooks i) fuel).run program s = outcome :=
    fun i => (Filter.eventually_top.mp hruns i).1
  apply hdiffer
  rw [← Evaluator.hooked_idle]
  exact (hall true).trans (hall false).symm

end BasicScript
