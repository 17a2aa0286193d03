import BasicScript.Proofs.Library.Natives
import BasicScript.Proofs.Types.Expression

/-! # Fields with cells of their own

No two fields of a composite share a cell. That is a property of values alone,
and values move about: it is kept if every run that starts where all stored
values have it stores no others, and gives no other. There is one rule for each
way of composing runs, and one for each primitive run.
-/

namespace BasicScript

/-- The fields of a composite have cells of their own; so it is inside of an enum entry. -/
def Value.Separate : Value → Prop
  | .data _ cells => cells.Nodup
  | .entry _ _ _ value => value.Separate
  | _ => True

/-- All stored values are separate. -/
structure Store.Separate (σ : Store) : Prop where
  cells : ∀ (i : Nat) (c : Cell), σ.cells[i]? = some c → c.value.Separate
  arrays : ∀ (i : Nat) (b : ArrayBlock), σ.arrays[i]? = some b →
    ∀ v ∈ b.values.toList, v.Separate

/-- All values that a state holds on to are separate. -/
structure State.Separate (s : State) : Prop where
  store : s.store.Separate
  entries : ∀ (i : Nat) (sc : Scope), s.env.scopes[i]? = some sc →
    ∀ d ∈ sc.enums, ∀ e ∈ d.entries, e.2.Separate

/-- A value that a signal carries is separate. -/
def Signal.Separate : Signal → Prop
  | .yield v => v.Separate
  | _ => True

/-- A value that is yielded is separate. -/
def Flow.Separate (flow : Flow) : Prop := ∀ signal, flow = .signal signal → signal.Separate

/-- A value that a loop passes on is separate. -/
def LoopStep.Separate (step : LoopStep) : Prop := ∀ signal, step = .pass signal → signal.Separate

/-- From a state with separate values the run leads to another, and its result is as claimed. -/
def Run.Separates {α : Type} (x : Run α) (Q : α → Prop) : Prop :=
  ∀ s, s.Separate → (x.state s).Separate ∧ ∀ a t, x s = .ok a t → Q a

namespace Value

variable {v : Value}

theorem separate_of_plain (h : v.isPlain = true) : v.Separate := by
  cases v with
  | array id | data d cells | entry enum name ordinal value => exact nomatch h
  | _ => trivial

/-- Values that no data declaration is needed to account for are separate. -/
theorem separate_of_holds {σ : Store} (h : σ.Holds (fun _ => False) v) : v.Separate := by
  induction v with
  | data d cells => exact h.1.elim
  | entry enum name ordinal value ih => exact ih h
  | _ => trivial

end Value

namespace Store.Separate

variable {σ σ' : Store} {v w : Value}

theorem read (h : σ.Separate) (id : CellId) : (σ.read id).Separate := by
  unfold Store.read Store.cell
  cases hc : σ.cells[id.index]? with
  | none => trivial
  | some c => exact h.cells _ c hc

theorem elements (h : σ.Separate) (id : ArrayId) : ∀ v ∈ σ.elements id, v.Separate := by
  unfold Store.elements Store.block
  cases hb : σ.arrays[id.index]? with
  | none => exact fun _ hv => nomatch hv
  | some b => exact h.arrays _ b hb

theorem newArray (h : σ.Separate) (element : Ty) {vs : List Value}
    (hvs : ∀ v ∈ vs, v.Separate) : (σ.newArray element vs).2.Separate where
  cells := h.cells
  arrays i b hb := by
    rw [Store.newArray, Array.getElem?_push] at hb
    split at hb
    · cases hb
      exact hvs
    · exact h.arrays i b hb

theorem newCell (h : σ.Separate) {c : Cell} (hc : c.value.Separate) :
    (σ.newCell c).2.Separate where
  cells i c' hc' := by
    rw [Store.newCell, Array.getElem?_push] at hc'
    split at hc'
    · cases hc'
      exact hc
    · exact h.cells i c' hc'
  arrays := h.arrays

theorem write (h : σ.Separate) (id : CellId) (hv : v.Separate) : (σ.write id v).Separate where
  cells i c hc := by
    rw [Store.write, Array.getElem?_modify] at hc
    split at hc
    · obtain ⟨c₀, -, rfl⟩ := Option.map_eq_some_iff.mp hc
      exact hv
    · exact h.cells i c hc
  arrays := h.arrays

theorem setElement (h : σ.Separate) (id : ArrayId) (place : Nat) (hv : v.Separate) :
    (σ.setElement id place v).Separate where
  cells := h.cells
  arrays i b hb w hw := by
    rw [Store.setElement, Array.getElem?_modify] at hb
    split at hb
    · obtain ⟨b₀, hb₀, rfl⟩ := Option.map_eq_some_iff.mp hb
      rw [Array.toList_setIfInBounds] at hw
      rcases List.mem_or_eq_of_mem_set hw with hw | rfl
      · exact h.arrays i b₀ hb₀ w hw
      · exact hv
    · exact h.arrays i b hb w hw

theorem elements? {vs : List Value} (h : σ.Separate) (hvs : σ.elements? v = some vs) :
    ∀ w ∈ vs, w.Separate := by
  intro w hw
  unfold Store.elements? at hvs
  split at hvs
  · cases hvs
    obtain ⟨c, -, rfl⟩ := List.mem_map.mp hw
    trivial
  · cases hvs
    exact h.elements _ w hw
  · cases hvs
    obtain ⟨id, -, rfl⟩ := List.mem_map.mp hw
    exact h.read id
  · exact nomatch hvs

end Store.Separate

/-- Separate values and storage become others that are separate. -/
def Store.Carries (σ : Store) (vs ws : List Value) (σ' : Store) : Prop :=
  σ.Separate → (∀ v ∈ vs, v.Separate) → σ'.Separate ∧ ∀ w ∈ ws, w.Separate

namespace Store.Carries

variable {σ σ' : Store} {v w : Value}

theorem nil (σ : Store) : σ.Carries [] [] σ := fun hσ _ => ⟨hσ, List.forall_mem_nil _⟩

theorem cons {σ₁ : Store} {vs ws : List Value} (hfirst : σ.Carries [v] [w] σ₁)
    (hrest : σ₁.Carries vs ws σ') : σ.Carries (v :: vs) (w :: ws) σ' := by
  intro hσ hvs
  rw [List.forall_mem_cons] at hvs
  obtain ⟨hσ₁, hw⟩ := hfirst hσ (List.forall_mem_singleton.mpr hvs.1)
  exact (hrest hσ₁ hvs.2).imp_right fun hws =>
    List.forall_mem_cons.mpr ⟨List.forall_mem_singleton.mp hw, hws⟩

/-- A new array of what the elements became stands for the old one. -/
theorem array {element : Ty} {vs ws : List Value} (h : σ.Carries vs ws σ')
    (hvs : σ.Separate → ∀ v ∈ vs, v.Separate) :
    σ.Carries [v] [.array (σ'.newArray element ws).1] (σ'.newArray element ws).2 := by
  intro hσ _
  obtain ⟨hσ', hws⟩ := h hσ (hvs hσ)
  exact ⟨hσ'.newArray element hws, List.forall_mem_singleton.mpr trivial⟩

theorem coerce {t : Ty} (h : (t.coerce σ v).result? σ v = some (w, σ')) :
    σ.Carries [v] [w] σ' := by
  induction t using Ty.element_induction generalizing σ σ' v w with
  | h t ih =>
    rcases Coerced.result?_some.mp h with ⟨-, rfl, rfl⟩ | hc
    · exact fun hσ hv => ⟨hσ, hv⟩
    · rcases Ty.coerce_changed hc with ⟨rfl, n, rfl, -⟩ | ⟨element, id, helement, -, hchanged⟩
      · exact fun hσ _ => ⟨hσ, List.forall_mem_singleton.mpr trivial⟩
      · obtain ⟨-, moved, ws, σ₁, heach, rfl, rfl⟩ := Ty.coerceElements_changed hchanged
        refine array (Coerced.each_induction (P := Store.Carries) nil ?_ heach)
          fun hσ => hσ.elements id
        exact fun _ _ _ _ _ _ _ hfirst hrest => cons (ih element helement hfirst) hrest

theorem conform {t : Ty} (h : t.conform σ v = .ok (w, σ')) : σ.Carries [v] [w] σ' :=
  coerce (Ty.conform_ok.mp h).1

theorem cast {t : Ty} (h : t.cast σ v = some (w, σ')) : σ.Carries [v] [w] σ' := by
  induction t using Ty.element_induction generalizing σ σ' v w with
  | h t ih =>
    rcases Ty.cast_some h with ⟨p, -, hcast, -, rfl⟩ | ⟨element, vs, helement, hvs, hcast⟩ |
      ⟨rfl, rfl, -⟩
    · refine fun hσ hv => ⟨hσ, List.forall_mem_singleton.mpr ?_⟩
      rcases (Ty.castPrimitive_cases hcast).2 with rfl | ⟨-, hholds⟩
      · exact List.forall_mem_singleton.mp hv
      · exact Value.separate_of_holds (hholds _)
    · obtain ⟨ws, σ₁, heach, rfl, rfl, -⟩ := Ty.castElements_some hcast
      refine array (Ty.castEach_induction (P := Store.Carries) nil ?_ heach)
        fun hσ => hσ.elements? hvs
      exact fun _ _ _ _ _ _ _ hfirst hrest => cons (ih element helement hfirst) hrest
    · exact fun hσ hv => ⟨hσ, hv⟩

end Store.Carries

namespace State.Separate

variable {s t : State}

/-- Storage and tables are all that matters. -/
theorem congr (h : s.Separate) (hstore : t.store = s.store)
    (hscopes : t.env.scopes = s.env.scopes) : t.Separate where
  store := hstore ▸ h.store
  entries := hscopes ▸ h.entries

theorem withStore {σ : Store} (h : s.Separate) (hσ : σ.Separate) :
    Separate { s with store := σ } := ⟨hσ, h.entries⟩

theorem pushBelow (h : s.Separate) (path : ScopePath) :
    Separate { s with env := s.env.pushBelow path } where
  store := h.store
  entries i sc hsc := by
    rw [Environment.pushBelow, Array.getElem?_push] at hsc
    split at hsc
    · cases hsc
      exact fun _ hd => nomatch hd
    · exact h.entries i sc hsc

/-- Declarations in the current scope; the entries of an enum must be separate. -/
theorem withCurrent {f : Scope → Scope} (h : s.Separate)
    (hf : ∀ sc : Scope, ∀ d ∈ (f sc).enums, d ∈ sc.enums ∨ ∀ e ∈ d.entries, e.2.Separate) :
    Separate { s with env := s.env.modifyCurrent f } where
  store := h.store
  entries i sc hsc d hd := by
    rcases State.modifyCurrent_cases hsc with hsc' | ⟨sc₀, hsc₀, rfl⟩
    · exact h.entries i sc hsc' d hd
    · exact (hf sc₀ d hd).elim (h.entries i sc₀ hsc₀ d) fun h => h

/-- The entries of a visible enum are separate. -/
theorem entry (h : s.Separate) {name : String} {d : EnumDecl}
    (hd : s.env.enum? name = some d) : ∀ v ∈ d.values, v.Separate := by
  intro v hv
  obtain ⟨i, sc, hsc, hmem, -⟩ := Environment.enum?_some hd
  obtain ⟨entry, place, w, rfl, hw⟩ := EnumDecl.mem_entryValues hv
  exact h.entries i sc hsc d hmem _ hw

theorem initial (settings : Settings) : (State.initial settings).Separate where
  store := ⟨fun i c hc => (nomatch (Array.getElem?_eq_some_iff.mp hc).1),
    fun i b hb => (nomatch (Array.getElem?_eq_some_iff.mp hb).1)⟩
  entries i sc hsc := by
    obtain ⟨hi, rfl⟩ := Array.getElem?_eq_some_iff.mp hsc
    obtain rfl : i = 0 := Nat.lt_one_iff.mp hi
    exact fun _ hd => nomatch hd

end State.Separate

namespace Run.Separates

variable {α β : Type} {x : Run α} {f : α → Run β} {P : α → Prop} {Q : β → Prop}

/-- Whatever else is known of the result may be claimed. -/
theorem known (h : x.Separates fun _ => True) (hp : ∀ s a t, x s = .ok a t → P a) :
    x.Separates P := fun s hs => ⟨(h s hs).1, fun a t hx => hp s a t hx⟩

theorem bind (hx : x.Separates P) (hf : ∀ a, P a → (f a).Separates Q) :
    (x >>= f).Separates Q := by
  intro s hs
  obtain ⟨ht, hr⟩ := hx s hs
  cases h : x s with
  | ok a t =>
    rw [state_ok h] at ht
    rw [state_bind_ok h, bind_ok h]
    exact hf a (hr a t h) t ht
  | error e t =>
    rw [state_error h] at ht
    rw [state_error (bind_error h f), bind_error h f]
    exact ⟨ht, fun _ _ hb => nomatch hb⟩

/-- From each state the run does what another one does that is known. -/
theorem ofEach (h : ∀ s, s.Separate → ∃ y : Run α, x s = y s ∧ y.Separates P) :
    x.Separates P := by
  intro s hs
  obtain ⟨y, hxy, hy⟩ := h s hs
  unfold state
  rw [hxy]
  exact hy s hs

/-- A run whose outcome is at hand. -/
theorem done (h : ∀ s, s.Separate → (∃ a t, x s = .ok a t ∧ t.Separate ∧ P a) ∨
    ∃ e, x s = .error e s) : x.Separates P := by
  intro s hs
  rcases h s hs with ⟨a, t, hrun, ht, ha⟩ | ⟨e, hrun⟩
  · rw [state_ok hrun, hrun]
    exact ⟨ht, fun b u hb => by cases hb; exact ha⟩
  · rw [state_error hrun, hrun]
    exact ⟨hs, fun _ _ hb => nomatch hb⟩

theorem pure {a : α} (h : P a) : (Pure.pure a : Run α).Separates P :=
  done fun s hs => .inl ⟨a, s, rfl, hs, h⟩

theorem fail (g : Fault) : (Run.fail g : Run α).Separates P := done fun _ _ => .inr ⟨_, rfl⟩

theorem stop (e : Report) : (Run.stop e : Run α).Separates P := done fun _ _ => .inr ⟨_, rfl⟩

theorem exhausted : (Run.exhausted : Run α).Separates P := done fun _ _ => .inr ⟨_, rfl⟩

theorem read {g : State → α} (h : ∀ s, s.Separate → P (g s)) : (Run.read g).Separates P :=
  done fun s hs => .inl ⟨g s, s, rfl, hs, h s hs⟩

theorem failBind (g : Fault) : ((Run.fail g : Run α) >>= f).Separates Q :=
  bind (P := fun _ => False) (fail g) fun _ h => h.elim

theorem require {g : Fault} {found : Option α} (h : ∀ a, found = some a → P a) :
    (Run.require g found).Separates P := by
  cases found with
  | some a => exact pure (h a rfl)
  | none => exact fail g

theorem ite {p : Prop} [Decidable p] {y : Run α} (hx : x.Separates P) (hy : y.Separates P) :
    (if p then x else y : Run α).Separates P := by
  split
  · exact hx
  · exact hy

theorem mapReport (g : Report → Report) (h : x.Separates P) :
    (Run.mapReport g x).Separates P := by
  intro s hs
  obtain ⟨ht, hr⟩ := h s hs
  unfold state at ht ⊢
  unfold Run.mapReport
  cases hx : x s with
  | ok a t =>
    rw [hx] at ht
    exact ⟨ht, fun b u hb => by cases hb; exact hr a t hx⟩
  | error e t =>
    rw [hx] at ht
    exact ⟨ht, fun _ _ hb => by cases hb⟩

theorem atSpan (span : Span) (h : x.Separates P) : (Run.atSpan span x).Separates P :=
  h.mapReport _

theorem traced (what : String) (span : Span) (h : x.Separates P) :
    (Run.traced what span x).Separates P := h.mapReport _

theorem either {z : Report → Run β} (hx : x.Separates P) (hf : ∀ a, P a → (f a).Separates Q)
    (hz : ∀ e, (z e).Separates Q) : (Run.either x f z).Separates Q := by
  intro s hs
  obtain ⟨ht, hr⟩ := hx s hs
  -- whichever way the run goes on, it does so from the state in which the first part ended
  have hnext : ∀ (t : State) (y : Run β), x.state s = t → Run.either x f z s = y t →
      y.Separates Q → ((Run.either x f z).state s).Separate ∧
        ∀ b u, Run.either x f z s = .ok b u → Q b := by
    rintro t y rfl hrun hy
    have hstate : (Run.either x f z).state s = y.state (x.state s) := by simp only [state, hrun]
    rw [hstate, hrun]
    exact hy _ ht
  cases h : x s with
  | ok a t =>
    exact hnext t (f a) (state_ok h) (by simp only [Run.either, h]) (hf a (hr a t h))
  | error e t =>
    cases e with
    | error e => exact hnext t (z e) (state_error h) (by simp only [Run.either, h]) (hz e)
    | outOfFuel =>
      exact hnext t Run.exhausted (state_error h) (by simp only [Run.either, h]; rfl) exhausted

theorem mapM {γ : Type} {g : γ → Run β} (as : List γ) (h : ∀ a ∈ as, (g a).Separates Q) :
    (as.mapM g).Separates fun bs => ∀ b ∈ bs, Q b := by
  induction as with
  | nil => exact pure (List.forall_mem_nil _)
  | cons a as ih =>
    rw [List.forall_mem_cons] at h
    rw [List.mapM_cons]
    exact h.1.bind fun b hb => (ih h.2).bind fun bs hbs =>
      pure (List.forall_mem_cons.mpr ⟨hb, hbs⟩)

/-- A run between two changes of the state that touch neither storage nor tables, apart from
a fresh scope. -/
theorem between {enter leave : State → State} (h : x.Separates P)
    (henter : ∀ s, s.Separate → (enter s).Separate)
    (hleave : ∀ s, s.Separate → (leave s).Separate) :
    Run.Separates (fun s => leaving leave x (enter s)) P := by
  intro s hs
  obtain ⟨ht, hr⟩ := h (enter s) (henter s hs)
  unfold state at ht ⊢
  unfold leaving
  cases hx : x (enter s) with
  | ok a t =>
    rw [hx] at ht
    simp only [hx]
    exact ⟨hleave t ht, fun b u hb => by cases hb; exact hr a t hx⟩
  | error e t =>
    rw [hx] at ht
    simp only [hx]
    exact ⟨hleave t ht, fun _ _ hb => by cases hb⟩

theorem inScopeBelow (path : ScopePath) (h : x.Separates P) :
    (Run.inScopeBelow path x).Separates P :=
  between h (fun _ hs => hs.pushBelow path) fun _ hs => hs.congr rfl rfl

theorem inScope (h : x.Separates P) : (Run.inScope x).Separates P :=
  between h (fun s hs => hs.pushBelow s.env.current) fun _ hs => hs.congr rfl rfl

theorem inLiveScope (path : ScopePath) (h : x.Separates P) :
    (Run.inLiveScope path x).Separates P := by
  refine ofEach fun s _ => ?_
  by_cases hlive : s.env.isLive path
  · exact ⟨_, if_pos hlive, h.inScopeBelow path⟩
  · exact ⟨_, if_neg hlive, fail _⟩

theorem returning (t : Ty) (h : x.Separates P) : (Run.returning t x).Separates P :=
  between h (fun _ hs => hs.congr rfl rfl) fun _ hs => hs.congr rfl rfl

theorem asCall (frame : CallFrame) (h : x.Separates P) : (Run.asCall frame x).Separates P := by
  intro s hs
  unfold state Run.asCall
  cases s.calls.push frame with
  | error f => exact ⟨hs, fun _ _ hb => by cases hb⟩
  | ok calls =>
    obtain ⟨ht, hr⟩ := h { s with calls := calls } (hs.congr rfl rfl)
    unfold state at ht
    cases hx : x { s with calls := calls } with
    | ok a t =>
      rw [hx] at ht
      simp only [hx]
      exact ⟨ht.congr rfl rfl, fun b u hb => by cases hb; exact hr a t hx⟩
    | error e t =>
      rw [hx] at ht
      simp only [hx]
      exact ⟨ht.congr rfl rfl, fun _ _ hb => by cases hb⟩

theorem readBind {g : State → α} (h : ∀ a, (f a).Separates Q) :
    (Run.read g >>= f).Separates Q :=
  bind (P := fun _ => True) (read fun _ _ => trivial) fun a _ => h a

theorem ending (ends : Store → Bool) : (Run.ending ends).Separates fun _ => True := by
  refine done fun s hs => ?_
  rcases ending_cases ends s with ⟨-, hgo⟩ | ⟨-, hstop⟩
  · exact .inl ⟨(), s, hgo, hs, trivial⟩
  · exact .inr ⟨_, hstop⟩

theorem textBind {v : Value} {g : String → Run β} (h : ∀ text, (g text).Separates Q) :
    (Run.text v >>= g).Separates Q :=
  bind ((ending _).bind fun _ _ => read (P := fun _ => True) fun _ _ => trivial)
    fun text _ => h text

theorem failOn (g : Option Ty → Fault) (v : Value) : (Run.failOn g v : Run α).Separates P :=
  readBind fun _ => fail _

theorem cellOf (name : String) : (Run.cellOf name).Separates fun _ => True :=
  readBind fun _ => require fun _ _ => trivial

/-- The value of a cell. -/
theorem readCell (id : CellId) :
    (Run.read fun s => s.store.read id).Separates Value.Separate :=
  read fun _ hs => hs.store.read id

theorem elementsOf (v : Value) :
    (Run.elementsOf v).Separates fun vs => ∀ w ∈ vs, w.Separate := by
  refine bind (P := fun found => ∀ vs, found = some vs → ∀ w ∈ vs, w.Separate)
    (read fun s hs vs hvs => hs.store.elements? hvs) fun found hfound => ?_
  cases found with
  | some vs => exact pure (hfound vs rfl)
  | none => exact failOn _ _

theorem position (index : Value) : (Run.position index).Separates fun _ => True := by
  unfold Run.position
  split
  · exact ite (pure trivial) (textBind fun _ => fail _)
  · exact textBind fun _ => fail _

theorem atIndex {index : Value} {found : Option α} (h : ∀ a, found = some a → P a) :
    (Run.atIndex index found).Separates P := by
  cases found with
  | some a => exact pure (h a rfl)
  | none => exact textBind fun _ => fail _

theorem newArray (element : Ty) {vs : List Value} (hvs : ∀ v ∈ vs, v.Separate) :
    (Run.newArray element vs).Separates Value.Separate :=
  done fun _ hs => .inl ⟨_, _, rfl, hs.withStore (hs.store.newArray element hvs), trivial⟩

theorem newCell {c : Cell} (hc : c.value.Separate) :
    (Run.newCell c).Separates fun _ => True :=
  done fun _ hs => .inl ⟨_, _, rfl, hs.withStore (hs.store.newCell hc), trivial⟩

theorem fit (t : Ty) {v : Value} {rejected : Mismatch → Option Ty → Fault} (hv : v.Separate) :
    (Run.fit t v rejected).Separates Value.Separate := by
  refine done fun s hs => ?_
  rcases fit_cases t v rejected s with ⟨w, σ, hconform, hrun⟩ | ⟨m, -, hrun⟩
  · obtain ⟨hσ, hw⟩ := Store.Carries.conform hconform hs.store (List.forall_mem_singleton.mpr hv)
    exact .inl ⟨w, _, hrun, hs.withStore hσ, List.forall_mem_singleton.mp hw⟩
  · exact .inr ⟨_, hrun⟩

theorem conform (t : Ty) {v : Value} (hv : v.Separate) :
    (Run.conform t v).Separates Value.Separate := fit t hv

theorem modifyStore {g : Store → Store} (h : ∀ σ, σ.Separate → (g σ).Separate) :
    (Run.modifyStore g).Separates fun _ => True :=
  done fun _ hs => .inl ⟨(), _, rfl, hs.withStore (h _ hs.store), trivial⟩

theorem assign (id : CellId) (name : String) {v : Value} (hv : v.Separate) :
    (Run.assign id name v).Separates Value.Separate := by
  refine done fun s hs => ?_
  rcases assign_cases id name v s with ⟨w, σ, -, -, hconform, hrun⟩ | ⟨f, hrun⟩
  · obtain ⟨hσ, hw⟩ := Store.Carries.conform hconform hs.store (List.forall_mem_singleton.mpr hv)
    rw [List.forall_mem_singleton] at hw
    exact .inl ⟨w, _, hrun, hs.withStore (hσ.write id hw), hw⟩
  · exact .inr ⟨_, hrun⟩

theorem putBack {s : State} (hs : s.Separate) (id : CellId) {v : Value} (hv : v.Separate) :
    (Run.putBack id v s).Separate := by
  unfold Run.putBack Store.put
  by_cases hc : (s.store.cell id).constant = true
  · simp only [hc, if_true]
    exact hs
  · simp only [hc]
    cases hconform : (s.store.cell id).type.conform s.store v with
    | error m => exact hs
    | ok p =>
      obtain ⟨hσ, hw⟩ :=
        Store.Carries.conform hconform hs.store (List.forall_mem_singleton.mpr hv)
      exact hs.withStore (hσ.write id (List.forall_mem_singleton.mp hw))

theorem exchange (a b : CellId) (nameA nameB : String) :
    (Run.exchange a b nameA nameB).Separates Value.Separate := by
  refine (readCell a).bind fun va hva => (readCell b).bind fun vb hvb => ?_
  refine (assign a nameA hvb).bind fun stored hstored s hs => ?_
  obtain ⟨ht, -⟩ := assign b nameB hva s hs
  unfold state at ht ⊢
  cases hrun : Run.assign b nameB va s with
  | ok v u =>
    rw [hrun] at ht
    simp only [hrun]
    exact ⟨ht, fun w u' hw => by cases hw; exact hstored⟩
  | error e u =>
    rw [hrun] at ht
    simp only [hrun]
    exact ⟨putBack ht a hva, fun _ _ hw => by cases hw⟩

theorem declareVariable (name : String) {c : Cell} (hc : c.value.Separate) :
    (Run.declareVariable name c).Separates fun _ => True := by
  refine done fun s hs => ?_
  rcases declareVariable_cases name c s with ⟨-, hrun⟩ | ⟨f, hrun⟩
  · refine .inl ⟨_, _, hrun, ?_, trivial⟩
    exact (hs.withStore (hs.store.newCell hc)).withCurrent
      (f := fun sc => { sc with cells := (name, (s.store.newCell c).1) :: sc.cells })
      fun _ _ hd => .inl hd
  · exact .inr ⟨_, hrun⟩

/-- Any other declaration; the entries of an enum must be separate. -/
theorem declare {entity : Entity} {name : String} {takes : Environment → Bool}
    {g : Scope → Scope}
    (hg : ∀ sc : Scope, ∀ d ∈ (g sc).enums, d ∈ sc.enums ∨ ∀ e ∈ d.entries, e.2.Separate) :
    (Run.declare entity name takes (·.modifyCurrent g)).Separates fun _ => True := by
  refine done fun s hs => ?_
  rcases declare_cases entity name takes (·.modifyCurrent g) s with ⟨-, hrun⟩ | ⟨f, hrun⟩
  · exact .inl ⟨_, _, hrun, hs.withCurrent hg, trivial⟩
  · exact .inr ⟨_, hrun⟩

theorem loop {step : Run LoopStep} (h : step.Separates LoopStep.Separate) (n : Nat) :
    (Run.loop step n).Separates Flow.Separate := by
  induction n with
  | zero => exact exhausted
  | succ n ih =>
    refine h.bind fun result hresult => ?_
    cases result with
    | again => exact ih
    | stop => exact pure fun _ hsignal => nomatch hsignal
    | pass signal => exact pure fun _ hsignal => by cases hsignal; exact hresult _ rfl

theorem forValues {step : Value → Run LoopStep} {vs : List Value} (hvs : ∀ v ∈ vs, v.Separate)
    (h : ∀ v, v.Separate → (step v).Separates LoopStep.Separate) :
    (Run.forValues step vs).Separates Flow.Separate := by
  induction vs with
  | nil => exact pure fun _ hsignal => nomatch hsignal
  | cons v vs ih =>
    rw [List.forall_mem_cons] at hvs
    refine (h v hvs.1).bind fun result hresult => ?_
    cases result with
    | again => exact ih hvs.2
    | stop => exact pure fun _ hsignal => nomatch hsignal
    | pass signal => exact pure fun _ hsignal => by cases hsignal; exact hresult _ rfl

end Run.Separates

end BasicScript
