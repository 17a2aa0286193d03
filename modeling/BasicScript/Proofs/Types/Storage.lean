import BasicScript.Proofs.Frame.Visits
import BasicScript.Proofs.Types.Expression

/-! # Typed storage

Whatever programs do, with the standard library and from a fresh interpreter,
every moment of their runs is a typed state. As a program can tell, every
stored value belongs to the type of its place, the elements of an array pass
its element type as they are, and an array keeps its element type and length.
-/

namespace BasicScript

namespace Run.Sound

variable {α : Type} {x : Run α} {s : State} {P : Claim α}

theorem unlessHalted {halt : State → Bool} (h : x.Sound s P) :
    (Run.unlessHalted halt x).Sound s P := by
  by_cases hhalt : halt s = true
  · exact failed (e := .outOfFuel) (if_pos hhalt)
  · have heq : Run.unlessHalted halt x s = x s := if_neg hhalt
    unfold Run.Sound state
    rw [heq]
    exact h

end Run.Sound

namespace Evaluator

open Run.Sound (pure fail)

variable {library : Library} {s : State}

theorem exhausted_sound (library : Library) : (exhausted library).Sound where
  eval _ _ _ := .exhausted
  exec _ _ := .exhausted
  default _ _ := .exhausted
  framed _ s := .refl False s
  invoke _ _ _ _ := .exhausted

/-- Interrupted runs keep the types. -/
theorem interrupted_sound (hl : library.Sound) (hf : library.Framed False) (halt : State → Bool)
    (n : Nat) : (interrupted library halt n).Sound := by
  induction n with
  | zero => exact exhausted_sound library
  | succ n ih =>
    have hl' : (interrupted library halt n).library.Sound := by rwa [interrupted_library]
    exact
      { eval := fun hint e s => .unlessHalted (ih.expr hl' hint e)
        exec := fun stmt s => .unlessHalted (ih.stmt stmt)
        default := fun t s => .unlessHalted (ih.defaultValue t)
        framed := fun t s => ((interrupted_precedes_self hf halt (n + 1)).default t).frame s
        invoke := fun name args s hargs => .unlessHalted (ih.callValues hl' name hargs) }

variable {r : Evaluator}

theorem Sound.loadCore (h : r.Sound) : r.loadCore.Sound s .nothing := by
  intro hs
  cases hcore : s.core with
  | pending =>
    have heq : r.loadCore s =
        (do let _ ← r.block coreDeclarations : Run Unit) { s with core := .loaded } := by
      simp only [Evaluator.loadCore, hcore]
    have hloaded : (do let _ ← r.block coreDeclarations : Run Unit).Sound
        { s with core := .loaded } .nothing :=
      (h.block coreDeclarations).bind fun _ _ _ _ => pure trivial
    obtain ⟨ht, hg, -⟩ := hloaded (hs.congr rfl rfl)
    unfold Run.state
    rw [heq]
    exact ⟨ht, ⟨hg.store, hg.scopes⟩, fun _ _ _ => trivial⟩
  | _ =>
    refine Run.Sound.done (a := ()) (t := s) ?_ (fun hs => ⟨hs, .refl s, trivial⟩) hs
    simp only [Evaluator.loadCore, hcore]

theorem Sound.run (h : r.Sound) (program : List Stmt) : (r.run program).Sound s .nothing := by
  refine h.loadCore.bind fun _ _ _ _ => (h.block program).bind fun flow t _ _ => ?_
  split
  · exact pure trivial
  · exact pure trivial
  · exact pure trivial
  · exact fail _

end Evaluator

theorem Run.Plain.sound {x : Run Value} (h : x.Plain) (s : State) : x.Sound s .value := by
  rcases h s with ⟨v, console, hx, hv⟩ | ⟨e, hx⟩
  · refine .done hx fun hs => ⟨hs.congr rfl rfl, ⟨.refl _, .refl Scope.Extends.refl _⟩, ?_⟩
    cases v with
    | array id => cases hv
    | data d cells => cases hv
    | entry enum name ordinal value => cases hv
    | _ => trivial
  · exact .failed hx

theorem Library.standard_sound : standard.Sound := by
  intro signature native hlookup call _ args s _
  obtain ⟨f, hf, hplain⟩ := standard_plain hlookup
  rw [hf]
  exact (hplain args).sound s

theorem Evaluator.standard_sound (fuel : Nat) : (ofFuel .standard fuel).Sound := by
  rw [← interrupted_never]
  exact interrupted_sound Library.standard_sound Library.standard_framed _ fuel

/-- Every state that programs reach from a fresh interpreter is typed. -/
theorem Reaches.typed {settings : Settings} {s : State}
    (h : Reaches .standard (.initial settings) s) : s.Typed := by
  induction h with
  | refl => exact .initial settings
  | run program halt fuel _ ih =>
    exact ((Evaluator.interrupted_sound Library.standard_sound Library.standard_framed halt
      fuel).run program ih).1

/-- Storage and tables are those of a state that programs reach, and the active scopes are among
them. So it is wherever a rule starts in the middle of a run. -/
structure State.Amid (settings : Settings) (t : State) : Prop where
  reached : ∃ s, Reaches .standard (.initial settings) s ∧ t.store = s.store ∧
    t.env.scopes = s.env.scopes
  nested : t.env.Nested

theorem State.Amid.typed {settings : Settings} {t : State} (h : t.Amid settings) : t.Typed := by
  obtain ⟨s, hs, hstore, hscopes⟩ := h.reached
  exact hs.typed.congr hstore hscopes

theorem Reaches.amid {settings : Settings} {s : State}
    (h : Reaches .standard (.initial settings) s) : s.Amid settings :=
  ⟨⟨s, h, rfl, rfl⟩, h.nested (Library.standard_recasts .same) .fresh⟩

/-- Storage is typed as programs can tell, by membership and by conversion. -/
structure State.TypedStorage (s : State) : Prop where
  /-- A variable, parameter or field holds a value of its type, unless it is empty and resembles a
  result slot. -/
  cells : ∀ (id : CellId) (c : Cell), s.store.cells[id.index]? = some c →
    c.type.check s.store c.value = .ok () ∨ c.value = .empty ∧ s.ResemblesResultSlot id
  /-- The elements of an array pass its element type as they are. -/
  arrays : ∀ (id : ArrayId) (b : ArrayBlock), s.store.arrays[id.index]? = some b →
    ∀ v ∈ b.values.toList, b.element.conform s.store v = .ok (v, s.store)
  /-- An array has exactly the element type that its place asks for, if that asks for any. -/
  tags : ∀ (id : CellId) (c : Cell) (element : Ty) (array : ArrayId),
    s.store.cells[id.index]? = some c → c.type.element? = some element →
      element.acceptsAnything = false → c.value = .array array →
        ∃ b, s.store.arrays[array.index]? = some b ∧ b.element = element

theorem State.Typed.storage {s : State} (h : s.Typed) : s.TypedStorage where
  cells id c hc := by
    rcases h.store.cells _ c hc with hv | hv
    · exact .inr ⟨Value.eq_empty hv, h.slots _ c hc hv⟩
    · exact .inl (hv.fits.check h.store)
  arrays id b hb v hv := (h.store.arrays _ b hb v hv).fits.conform h.store
  tags id c element array hc helement hany hvalue := by
    rcases h.store.cells _ c hc with hv | hv
    · rw [hvalue] at hv
      exact nomatch hv
    · rw [hvalue] at hv
      refine ⟨_, Array.getElem?_eq_getElem hv.holds, ?_⟩
      have htag := ((Store.fits_array helement array).mp hv.fits).2.resolve_left (by simp [hany])
      rwa [Store.block, Array.getElem?_eq_getElem hv.holds, Option.getD_some] at htag

/-- Storage is typed at every moment of the runs of programs, and an array keeps its element type
and its length. -/
theorem Reaches.typedStorage {settings : Settings} {s : State}
    (h : Reaches .standard (.initial settings) s) :
    s.TypedStorage ∧ ∀ t, Later .standard s t → ∀ (i : Nat) (b : ArrayBlock),
      s.store.arrays[i]? = some b → ∃ b', t.store.arrays[i]? = some b' ∧
        b'.element = b.element ∧ b'.values.size = b.values.size := by
  refine ⟨h.typed.storage, fun t hlater i b hb => ?_⟩
  obtain ⟨b', hb', hkeeps⟩ := (hlater.grows fun _ => Library.standard_framed).store.arrays i b hb
  exact ⟨b', hb', hkeeps.element, hkeeps.size⟩

/-- The program `var xs as int[] = [1, 2]`. -/
def declaringArray : List Stmt :=
  [.generated (.declare "xs" (.array (.prim .int) none)
    (.generated (.array [.generated (.literal (.int 1)), .generated (.literal (.int 2))])) false)]

theorem typedStorage_declaringArray :
    let s := ((Evaluator.interrupted .standard (fun _ => false) 4).run declaringArray).state
      (.initial ⟨false, none, true⟩)
    Reaches .standard (.initial ⟨false, none, true⟩) s ∧ s.store.arrays.size = 1 ∧
      s.TypedStorage := by
  have h : Reaches .standard (.initial ⟨false, none, true⟩)
      (((Evaluator.interrupted .standard (fun _ => false) 4).run declaringArray).state
        (.initial ⟨false, none, true⟩)) := .run declaringArray (fun _ => false) 4 .refl
  exact ⟨h, by decide, (Reaches.typedStorage h).1⟩

end BasicScript
