import BasicScript.Proofs.Law.Program

/-! # Declaring scopes

Every overload and every data declaration stays in the scope that declared it.
What a lookup finds is therefore declared in a scope that is in reach, at
every moment of the runs of all programs.
-/

namespace BasicScript

/-- The grammar of all statements. -/
def Grammar.all : Grammar where
  stmt _ := True
  sub _ := True
  data _ := True
  named _ _ := True
  parts _ _ _ := trivial
  body _ _ _ := trivial
  ofSub _ _ _ := trivial
  ofData _ _ := trivial
  ofAlias _ _ := trivial
  ofDataName _ := trivial
  ofEnumName _ := trivial

/-- The law of all runs of a family, for the programs of a grammar. -/
def Grammar.laws (G : Grammar) (ι : Type) (strays : Prop) : Law ι where
  toGrammar := G
  along := ⊤
  exhausts := True
  strays := strays
  below := []
  instead := []

/-- The law of single runs of the programs of a grammar. -/
abbrev Grammar.law (G : Grammar) (strays : Prop) : Law Unit := G.laws Unit strays

/-- Where a state is on a stack without a bottom. -/
def State.site (s : State) : Site := ⟨s.env.active, s.calls⟩

namespace State

variable {G : Grammar} {ι : Type} {s t : State} {strays : Prop}

theorem Obeys.initial (G : Grammar) (settings : Settings) : (initial settings).Obeys G := by
  intro i sc hsc
  obtain ⟨hi, rfl⟩ := Array.getElem?_eq_some_iff.mp hsc
  have hi' : i = 0 := Nat.lt_one_iff.mp hi
  subst hi'
  exact G.declared_blank ⟨0⟩

theorem Obeys.inv (h : s.Obeys G) : (G.laws ι strays).Inv none s.site s where
  active := (List.append_nil _).symm
  bottom _ := rfl
  declared := h
  calls := rfl
  limit _ hk := nomatch hk

end State

/-- On a stack without a bottom a run is compared with itself. -/
theorem Grammar.laws_twin {G : Grammar} {ι : Type} {strays : Prop} {room : Option Nat} {p : Site}
    {s : State} (h : (G.laws ι strays).Inv room p s) : (G.laws ι strays).twin p s = s := by
  show { s with env := { s.env with active := p.stack ++ [] } } = s
  rw [← show s.env.active = p.stack ++ [] from h.active]

instance (G : Grammar) (ι : Type) [Nonempty ι] (strays : Prop) :
    (G.laws ι strays).along.NeBot :=
  inferInstanceAs (⊤ : Filter ι).NeBot

/-- Interrupted runs obey the law of a grammar in which sub bodies end as they must. -/
theorem Grammar.interrupted_uniform {G : Grammar} {strays : Prop} {halt : State → Bool}
    (hsettles : ∀ fuel sub, G.sub sub →
      (G.law strays).Settles (fun _ => .interrupted .standard halt fuel) sub.body) (fuel : Nat) :
    (G.law strays).Uniform fun _ => .interrupted .standard halt fuel :=
  Law.interrupted_uniform trivial (fun _ _ h => by rw [G.laws_twin h])
    (fun fuel => .of_standard fun _ => Evaluator.interrupted_library .standard halt fuel)
    hsettles fuel

/-- Programs of a grammar keep all declarations as it says. -/
theorem State.Obeys.run {G : Grammar} {s : State} (h : s.Obeys G)
    (hcore : ∀ stmt ∈ coreDeclarations, G.stmt stmt) {program : List Stmt}
    (hprogram : ∀ stmt ∈ program, G.stmt stmt) (halt : State → Bool) (fuel : Nat) :
    (((Evaluator.interrupted .standard halt fuel).run program).state s).Obeys G := by
  have huniform : (G.law True).Uniform fun _ => .interrupted .standard halt fuel :=
    Grammar.interrupted_uniform (fun _ _ _ _ _ _ _ _ => .inl trivial) fuel
  have hrun : (G.law True).Runs none s.site fun _ =>
      (Evaluator.interrupted .standard halt fuel).run program :=
    Law.run (fun stmt hstmt => huniform.executes stmt (hcore stmt hstmt))
      (huniform.block hprogram fun _ _ _ _ _ => .inl trivial)
  exact (hrun.outcome h.inv).1.state.declared

/-- Whatever programs declare stays in the scope of the declaration. -/
theorem Reaches.obeys {settings : Settings} {s : State}
    (h : Reaches .standard (.initial settings) s) : s.Obeys .all := by
  induction h with
  | refl => exact .initial .all settings
  | run program halt fuel _ ih =>
    exact ih.run (fun _ _ => trivial) (fun _ _ => trivial) halt fuel

end BasicScript
