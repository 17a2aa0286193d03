import BasicScript.Proofs.Law.Scopes
import BasicScript.Proofs.Types.Invariant

/-! # Routing of signals

In a well placed program every exit stands inside a construct that takes it.
The grammar of well placed statements obeys a law without stray signals, so
that no run of such a program ends with a signal that nothing takes.
-/

namespace BasicScript

/-- A `break` or a `next` is aimed at one of the forms around it; other exits leave a sub. -/
def Exit.Targeted (around : List StmtKind) : Exit → Prop
  | .leave | .yield => True
  | exit => ∃ kind ∈ around, kind.takes exit = true

/-- Every exit in a statement is aimed at a form inside it or at one of those around it. Nothing is
around the statements in the body of a sub. -/
inductive Stmt.Placed : List StmtKind → Stmt → Prop where
  | mk {around : List StmtKind} {kind : StmtKind} {span : Span} :
      (∀ exit ∈ kind.exit?, exit.Targeted around) →
      (∀ s ∈ kind.parts, Placed (kind :: around) s) →
      (∀ d, kind = .sub d → ∀ s ∈ d.body, Placed [] s) →
      Placed around (.mk kind span)

namespace Exit

variable {around : List StmtKind} {kind : StmtKind} {exit : Exit}

/-- A form that does not take an exit is not its target. -/
theorem Targeted.of_cons (h : exit.Targeted (kind :: around)) (htakes : kind.takes exit = false) :
    exit.Targeted around := by
  have hexists : (∃ k ∈ kind :: around, k.takes exit = true) →
      ∃ k ∈ around, k.takes exit = true := by
    rintro ⟨k, hk, htaken⟩
    rcases List.mem_cons.mp hk with rfl | hk
    · exact nomatch htakes.symm.trans htaken
    · exact ⟨k, hk, htaken⟩
  cases exit with
  | leave | yield => exact trivial
  | breakTo label | nextTo label => exact hexists h

/-- Where nothing is around, the signals that are left can end a sub. -/
theorem Targeted.settled {signal : Signal} (h : signal.exit.Targeted []) :
    (Flow.signal signal).settled = true := by
  cases signal with
  | leave | yield v => rfl
  | breakTo label | nextTo label =>
    obtain ⟨kind, hkind, -⟩ := h
    exact nomatch hkind

end Exit

/-- What a well placed statement sends is aimed at something around it. -/
theorem Stmt.Placed.targeted {around : List StmtKind} {s : Stmt} {exit : Exit}
    (h : s.Placed around) (hsends : s.Sends exit) : exit.Targeted around := by
  induction hsends generalizing around with
  | self hexit =>
    obtain ⟨htargeted, -, -⟩ := h
    exact htargeted _ hexit
  | inside hs _ htakes ih =>
    obtain ⟨-, hparts, -⟩ := h
    exact (ih (hparts _ hs)).of_cons htakes

/-- The body of a builtin sub is empty. -/
theorem placed_builtinDeclaration (name param : String) (type : TypeExpr) (returns : Primitive) :
    (builtinDeclaration name param type returns).Placed [] := by
  refine .mk (fun _ h => nomatch h) (fun _ h => nomatch h) ?_
  rintro _ ⟨⟩ _ ⟨⟩

/-- The grammar of well placed statements. -/
def Grammar.placed : Grammar where
  stmt s := ∃ around, s.Placed around
  sub sub := ∀ s ∈ sub.body, s.Placed []
  data _ := True
  named _ _ := True
  parts := by
    rintro kind span ⟨around, ⟨-, hparts, -⟩⟩ s hs
    exact ⟨kind :: around, hparts s hs⟩
  body h s hs := ⟨[], h s hs⟩
  ofSub := by
    rintro d span params returns scope ⟨around, ⟨-, -, hbody⟩⟩ - -
    exact hbody d rfl
  ofData _ _ := trivial
  ofAlias _ _ := trivial
  ofDataName _ := trivial
  ofEnumName _ := trivial

namespace Evaluator

/-- A block of well placed statements ends in a way that a sub can end in. -/
theorem interrupted_settles {halt : State → Bool} (fuel : Nat) {body : List Stmt}
    (hbody : ∀ s ∈ body, s.Placed []) :
    (Grammar.placed.law False).Settles (fun _ => interrupted .standard halt fuel) body := by
  intro _ s flow t hrun
  have hcontains : (interrupted .standard halt fuel).Contains body :=
    fun s _ => interrupted_sends .standard halt fuel s
  have hwithin := hcontains.block (List.Subset.refl body) s flow t hrun
  refine .inr ?_
  cases flow with
  | normal => rfl
  | signal signal =>
    obtain ⟨stmt, hstmt, hsends⟩ := hwithin signal rfl
    exact ((hbody stmt hstmt).targeted hsends).settled

/-- A run of a well placed program raises no fault of control, and keeps the bodies of all subs
well placed. -/
theorem interrupted_placed (halt : State → Bool) {s : State} (hs : s.Obeys .placed)
    {program : List Stmt} (hprogram : ∀ stmt ∈ program, stmt.Placed []) (fuel : Nat) :
    (Grammar.placed.law False).Good none s.site (fun _ => True)
      ((interrupted .standard halt fuel).run program s) := by
  have huniform : (Grammar.placed.law False).Uniform fun _ => interrupted .standard halt fuel :=
    Grammar.placed.interrupted_uniform (fun fuel sub hsub => interrupted_settles fuel hsub) fuel
  have hbuiltin : ∀ name param type returns,
      (Grammar.placed.law False).Executes (fun _ => interrupted .standard halt fuel) none
        (builtinDeclaration name param type returns) :=
    fun name param type returns =>
      huniform.executes _ ⟨[], placed_builtinDeclaration name param type returns⟩
  have hcore := coreDeclarations_cases (fun name param q => hbuiltin name param (.prim q))
    fun name param q => hbuiltin name param (.array (.prim q) none)
  have hblock := huniform.block (p := s.site) (fun stmt hstmt => ⟨[], hprogram stmt hstmt⟩)
    (interrupted_settles fuel hprogram)
  exact ((Law.run hcore hblock).outcome hs.inv).1

/-- A well placed program that is run where the bodies of all subs are well placed never ends with
a signal that nothing takes, and the bodies of all subs are well placed again. Any statement, in
any state, passes on no signal but one that is sent inside it and that nothing inside it takes. -/
theorem signals_routed {settings : Settings} {s : State}
    (hs : Reaches .standard (.initial settings) s)
    (hsubs : ∀ sub, s.HasSub sub → ∀ stmt ∈ sub.body, stmt.Placed []) (fuel : Nat) :
    (∀ program : List Stmt, (∀ stmt ∈ program, stmt.Placed []) →
      (∀ e t text, (ofFuel .standard fuel).run program s = .error (.error e) t →
        e.fault ≠ .unmatchedSignal text) ∧
      ∀ sub, (((ofFuel .standard fuel).run program).state s).HasSub sub →
        ∀ stmt ∈ sub.body, stmt.Placed []) ∧
    ∀ stmt t signal u, (ofFuel .standard fuel).exec stmt t = .ok (.signal signal) u →
      stmt.Sends signal.exit := by
  rw [← interrupted_never]
  refine ⟨fun program hprogram => ?_, fun stmt t signal u hrun => ?_⟩
  · have hobeys : s.Obeys .placed := fun i sc hsc =>
      ⟨fun sub hsub => ⟨hsubs sub ⟨i, sc, hsc, hsub⟩, ((hs.obeys i sc hsc).subs sub hsub).2⟩,
        fun d hd => ⟨trivial, ((hs.obeys i sc hsc).datas d hd).2⟩, fun _ _ => trivial⟩
    have hgood := interrupted_placed (fun _ => false) hobeys hprogram fuel
    constructor
    · rintro e t text hrun hfault
      rw [hrun] at hgood
      have hcontrol : e.fault.isControl = false := hgood.2.resolve_left fun h => h.1
      rw [hfault] at hcontrol
      exact nomatch hcontrol
    · rintro sub ⟨i, sc, hsc, hsub⟩
      exact ((hgood.state.declared i sc hsc).subs sub hsub).1
  · exact interrupted_sends .standard _ fuel stmt t (.signal signal) u hrun signal rfl

end Evaluator

/-- The program `while outer true { do { break outer } }`. -/
def breakingOuter : List Stmt :=
  [.generated (.whileLoop (some "outer") (.generated (.literal (.bool true)))
    [.generated (.doBlock none [.generated (.breakTo (some "outer"))])])]

theorem placed_breakingOuter : ∀ stmt ∈ breakingOuter, stmt.Placed [] := by
  simp only [breakingOuter, List.forall_mem_singleton]
  refine .mk (fun _ h => nomatch h) ?_ fun _ h => nomatch h
  refine List.forall_mem_singleton.mpr (.mk (fun _ h => nomatch h) ?_ fun _ h => nomatch h)
  refine List.forall_mem_singleton.mpr (.mk ?_ (fun _ h => nomatch h) fun _ h => nomatch h)
  rintro _ ⟨⟩
  exact ⟨_, List.mem_cons_of_mem _ List.mem_cons_self, rfl⟩

theorem signals_routed_breakingOuter :
    (∀ stmt ∈ breakingOuter, stmt.Placed []) ∧
      ∀ fuel e t text, (Evaluator.ofFuel .standard fuel).run breakingOuter
        (.initial ⟨true, none, true⟩) = .error (.error e) t → e.fault ≠ .unmatchedSignal text := by
  refine ⟨placed_breakingOuter, fun fuel => ?_⟩
  have hsubs : ∀ sub, (State.initial ⟨true, none, true⟩).HasSub sub →
      ∀ stmt ∈ sub.body, stmt.Placed [] := by
    rintro sub ⟨i, sc, hsc, hsub⟩
    exact ((State.Obeys.initial .placed _ i sc hsc).subs sub hsub).1
  exact ((Evaluator.signals_routed .refl hsubs fuel).1 breakingOuter placed_breakingOuter).1

end BasicScript
