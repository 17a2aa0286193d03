import Mathlib.Order.Filter.AtTopBot.Basic
import BasicScript.Proofs.Defaults.Order
import BasicScript.Proofs.Defaults.Parts

/-! # Termination of defaults

A default goes from a data type to the types of its fields, and looks up their
names again, in the scope in which it is made. Data types are declared in
terms of older ones, so that this comes to an end as long as no other data
type has taken one of the names further in.
-/

namespace BasicScript

/-- The outcome is a result or an error, and a result comes without new declarations. -/
def Run.Concluded {α : Type} (env : Environment) : EStateM.Result Stop State α → Prop
  | .ok _ t => t.env = env
  | .error e _ => e ≠ .outOfFuel

/-- With enough fuel the runs all come to the same conclusion. -/
def Run.Concludes {α : Type} (env : Environment) (x : ℕ → Run α) : Prop :=
  ∀ s : State, s.env = env → ∃ outcome, Run.Concluded env outcome ∧
    ∀ᶠ n in .atTop, x n s = outcome

namespace Run.Concludes

variable {α β γ : Type} {env : Environment} {x : ℕ → Run α} {f : ℕ → α → Run β}

/-- Local runs come to a conclusion if they do not look at values. -/
theorem of_local {x : Run α} (h : x.Local False) : Concludes env fun _ => x := by
  rintro s rfl
  obtain ⟨σ, κ, ⟨a, ha⟩ | ⟨g, -, hg⟩ | ⟨hlooks, -⟩⟩ := h s.store s.console
  · exact ⟨.ok a (s.showing σ κ), rfl, .of_forall fun _ => ha s⟩
  · exact ⟨.error (.error (.ofFault g)) (s.showing σ κ), nofun, .of_forall fun _ => hg s⟩
  · exact hlooks.1.elim

theorem bind (hx : Concludes env x) (hf : ∀ a, Concludes env fun n => f n a) :
    Concludes env fun n => x n >>= f n := by
  intro s hs
  obtain ⟨outcome, hconcluded, hruns⟩ := hx s hs
  cases outcome with
  | ok a t =>
    obtain ⟨outcome, hconcluded', hruns'⟩ := hf a t hconcluded
    refine ⟨outcome, hconcluded', ?_⟩
    filter_upwards [hruns, hruns'] with n hn hn'
    exact (Run.bind_ok hn _).trans hn'
  | error e t =>
    refine ⟨.error e t, hconcluded, ?_⟩
    filter_upwards [hruns] with n hn
    exact Run.bind_error hn _

/-- What is read from the scopes is known beforehand. -/
theorem bind_read {g : Environment → α} (hf : Concludes env fun n => f n (g env)) :
    Concludes env fun n => Run.read (fun s => g s.env) >>= f n := by
  rintro s rfl
  exact hf s rfl

theorem bind_require {fault : Fault} (hfault : fault.isControl = false) {found : Option α}
    (hf : ∀ a ∈ found, Concludes env fun n => f n a) :
    Concludes env fun n => Run.require fault found >>= f n := by
  cases found with
  | none =>
    have hfail : Concludes env fun _ => (Run.fail fault : Run β) := of_local (.fail hfault)
    exact hfail
  | some a => exact hf a rfl

theorem mapM {x : ℕ → γ → Run α} {as : List γ} (h : ∀ a ∈ as, Concludes env fun n => x n a) :
    Concludes env fun n => as.mapM (x n) := by
  induction as with
  | nil => exact of_local (.pure [])
  | cons a as ih =>
    rw [List.forall_mem_cons] at h
    simp only [List.mapM_cons]
    exact h.1.bind fun b => (ih h.2).bind fun bs => of_local (.pure (b :: bs))

/-- Runs with one unit of fuel less conclude as well. -/
theorem next {y : ℕ → Run α} (h : Concludes env x) (hy : ∀ n, y (n + 1) = x n) :
    Concludes env y := by
  intro s hs
  obtain ⟨outcome, hconcluded, hruns⟩ := h s hs
  refine ⟨outcome, hconcluded, ?_⟩
  rw [Filter.eventually_atTop] at hruns ⊢
  obtain ⟨fuel, hfuel⟩ := hruns
  refine ⟨fuel + 1, fun n hn => ?_⟩
  obtain ⟨m, rfl⟩ := Nat.exists_eq_add_of_le hn
  rw [Nat.add_right_comm, hy]
  exact hfuel (fuel + m) (Nat.le_add_right _ _)

end Run.Concludes

namespace Evaluator

variable {env : Environment}

/-- Fields without default expressions take the defaults of their types. -/
theorem fieldCells_concludes {r : ℕ → Evaluator} (scope : ScopePath) {fields : List Field}
    (hfields : ∀ field ∈ fields, field.default = none ∧
      Run.Concludes env fun n => (r n).default field.type) :
    Run.Concludes env fun n => (r n).fieldCells scope fields [] := by
  induction fields with
  | nil => exact .of_local (.pure [])
  | cons field fields ih =>
    rw [List.forall_mem_cons] at hfields
    obtain ⟨⟨hnone, hdefault⟩, hrest⟩ := hfields
    have hvalue : ∀ n, (r n).fieldValue scope field none = (r n).default field.type := by
      intro n
      unfold fieldValue
      rw [hnone]
      rfl
    simp only [fieldCells, List.head?_nil, List.tail_nil, hvalue]
    refine hdefault.bind fun v => (Run.Concludes.of_local (.conform field.type v)).bind fun w => ?_
    refine (Run.Concludes.of_local (.newCell _)).bind fun cell => ?_
    exact (ih hrest).bind fun cells => .of_local (.pure _)

/-- The default of a type concludes if those of its parts do. -/
theorem defaultValue_concludes {r : ℕ → Evaluator} {t : Ty}
    (hplain : ∀ name decl, t = .data name → env.data? name = some decl →
      ∀ field ∈ decl.fields, field.default = none)
    (hparts : ∀ u, env.Part t u → Run.Concludes env fun n => (r n).default u) :
    Run.Concludes env fun n => (r n).defaultValue t := by
  cases t with
  | inferred => exact .of_local (.fail rfl)
  | prim p => cases p <;> exact .of_local (.pure _)
  | array element size =>
    refine (Run.Concludes.mapM fun u hu => ?_).bind fun vs => .of_local (.newArray element vs)
    obtain ⟨hsize, rfl⟩ := List.mem_replicate.mp hu
    exact hparts u (.element (Nat.pos_of_ne_zero hsize))
  | vararg element => exact .of_local (.newArray element [])
  | data name =>
    refine Run.Concludes.bind_read (g := fun env => env.data? name) ?_
    refine .bind_require rfl fun decl hdecl => ?_
    have hcells : Run.Concludes env fun n => (r n).fieldCells decl.scope decl.fields [] := by
      refine fieldCells_concludes decl.scope fun field hfield => ?_
      have hnone := hplain name decl rfl hdecl field hfield
      exact ⟨hnone, hparts field.type (.field hdecl hfield hnone)⟩
    simp only [List.length_nil, Nat.not_lt_zero, if_false]
    exact hcells.bind fun cells => .of_local (.pure _)
  | enum name =>
    refine Run.Concludes.bind_read (g := fun env => env.enum? name) ?_
    exact .bind_require rfl fun decl _ => .of_local (.require rfl _)

end Evaluator

/-- What the default of a type is made of, and what that is made of, comes to an end. -/
abbrev Environment.Founded (env : Environment) : Ty → Prop := Acc fun u w => env.Part w u

/-- The default of a founded type concludes. -/
theorem Evaluator.default_concludes (library : Library) {env : Environment} {t : Ty}
    (hfounded : env.Founded t)
    (hplain : ∀ name decl, env.Parts t (.data name) → env.data? name = some decl →
      ∀ field ∈ decl.fields, field.default = none) :
    Run.Concludes env fun n => (ofFuel library n).default t := by
  induction hfounded with
  | intro t _ ih =>
    refine Run.Concludes.next (defaultValue_concludes (r := ofFuel library) ?_ fun u hpart => ?_)
      fun _ => rfl
    · rintro name decl rfl hdecl
      exact hplain name decl .refl hdecl
    · exact ih u hpart fun name decl hparts => hplain name decl (.head hpart hparts)

namespace Environment

variable {env : Environment} {path : ScopePath} {t : Ty}

/-- In the scopes that are in reach, data types of a name are declared by one scope at most. -/
def Unhidden (env : Environment) (name : String) : Prop :=
  ∀ id ∈ env.current, ∀ id' ∈ env.current, (∃ d ∈ (env.scope id).datas, d.name = name) →
    (∃ d ∈ (env.scope id').datas, d.name = name) → id = id'

/-- A data type whose name is not hidden is the one that is found under it. -/
theorem Unhidden.data? {d : DataDecl} (h : env.Unhidden d.name) {id : ScopeId}
    (hid : id ∈ env.current) (hd : d ∈ (env.scope id).datas)
    (hdistinct : ((env.scope id).datas.map DataDecl.name).Nodup) :
    env.data? d.name = some d := by
  cases hfound : env.data? d.name with
  | none =>
    have hmissing := List.findSome?_eq_none_iff.mp hfound id hid
    exact absurd (List.find?_eq_none.mp hmissing d hd) (by simp)
  | some d' =>
    obtain ⟨id', hid', hd', hname⟩ := exists_of_data? hfound
    obtain rfl : id' = id := h id' hid' id hid ⟨d', hd', hname⟩ ⟨d, hd, rfl⟩
    rw [List.inj_on_of_nodup_map hdistinct hd' hd hname]

/-- A type is founded if the data types in it are. -/
theorem founded_of_names {u : Ty} (hu : env.Parts t u)
    (hnames : ∀ name ∈ u.names, env.Parts t (.data name) → env.Founded (.data name)) :
    env.Founded u := by
  induction u with
  | inferred | prim p | vararg element | enum name => exact .intro _ fun w hpart => nomatch hpart
  | array element size ih =>
    refine .intro _ fun w hpart => ?_
    cases hpart with
    | element hsize => exact ih (hu.tail (.element hsize)) hnames
  | data name => exact hnames name (List.mem_singleton_self name) hu

/-- Data types that are found under their names are founded, from the oldest to the newest, if those
are that are known from elsewhere. -/
theorem Preceded.founded {known : String → Prop} {datas : List DataDecl}
    (h : Preceded known datas)
    (hfound : ∀ d ∈ datas, env.Parts t (.data d.name) → env.data? d.name = some d)
    (hknown : ∀ name, known name → env.Parts t (.data name) → env.Founded (.data name)) :
    ∀ d ∈ datas, env.Parts t (.data d.name) → env.Founded (.data d.name) := by
  induction datas with
  | nil => simp
  | cons d older ih =>
    obtain ⟨hfields, hpreceded⟩ := h
    rw [List.forall_mem_cons] at hfound ⊢
    have holder := ih hpreceded hfound.2
    refine ⟨fun hd => .intro _ fun u hpart => ?_, holder⟩
    have hu := hd.tail hpart
    cases hpart with
    | field hdecl hfield hnone =>
      rw [hfound.1 hd] at hdecl
      cases hdecl
      refine founded_of_names hu fun name hname hparts => ?_
      rcases hfields _ hfield name hname with ⟨d', hd', rfl⟩ | hname
      · exact holder d' hd' hparts
      · exact hknown name hname hparts

/-- Data types that are known, and not hidden, are founded, from the outermost scope inwards. -/
theorem Rooted.founded (h : env.Rooted path) (hpath : path <:+ env.current)
    (hunhidden : ∀ name, env.Parts t (.data name) → env.Unhidden name) :
    ∀ name, env.Knows path name → env.Parts t (.data name) → env.Founded (.data name) := by
  induction path with
  | nil => simp [Knows]
  | cons id rest ih =>
    obtain ⟨-, -, hordered, hrooted⟩ := h
    have houter := ih hrooted ((List.suffix_cons id rest).trans hpath)
    have hid : id ∈ env.current := hpath.subset List.mem_cons_self
    have hfound : ∀ d ∈ (env.scope id).datas, env.Parts t (.data d.name) →
        env.data? d.name = some d :=
      fun d hd hparts => (hunhidden _ hparts).data? hid hd hordered.distinct
    intro name hknown hname
    rcases knows_cons.mp hknown with ⟨d, hd, rfl⟩ | hknown
    · exact hordered.fields.founded hfound houter d hd hname
    · exact houter name hknown hname

end Environment

/-- Where no name of a data type among the parts of a type is hidden, the type is founded. -/
theorem State.InOrder.founded {s : State} (h : s.InOrder) {t : Ty}
    (hunhidden : ∀ name, s.env.Parts t (.data name) → s.env.Unhidden name) :
    s.env.Founded t := by
  refine Environment.founded_of_names .refl fun name _ hname => ?_
  by_cases hknown : s.env.Knows s.env.current name
  · exact Environment.Rooted.founded h List.suffix_rfl hunhidden name hknown hname
  · refine .intro _ fun u hpart => ?_
    cases hpart with
    | field hdecl hfield hnone =>
      obtain ⟨id, hid, hmem, hfound⟩ := Environment.exists_of_data? hdecl
      exact absurd ⟨id, hid, _, hmem, hfound⟩ hknown

/-- The default of a type ends, with a value or an error, in every state that programs reach or come
by, if no default expression goes into it and none of the data types in it is hidden by another one:
a field then takes the default of a data type that was there before its own. -/
theorem Reaches.default_terminates {settings : Settings} {s t : State} {type : Ty}
    (h : Reaches .standard (.initial settings) s) (ht : t = s ∨ Visits .standard s t)
    (hplain : ∀ name decl, t.env.Parts type (.data name) → t.env.data? name = some decl →
      ∀ field ∈ decl.fields, field.default = none)
    (hunhidden : ∀ name, t.env.Parts type (.data name) → t.env.Unhidden name) :
    ∃ fuel outcome, (∀ u, outcome ≠ .error .outOfFuel u) ∧
      ∀ n ≥ fuel, (Evaluator.ofFuel .standard n).default type t = outcome := by
  have hconcludes := Evaluator.default_concludes .standard ((h.inOrder ht).founded hunhidden) hplain
  obtain ⟨outcome, hconcluded, hruns⟩ := hconcludes t rfl
  obtain ⟨fuel, hfuel⟩ := Filter.eventually_atTop.mp hruns
  refine ⟨fuel, outcome, ?_, hfuel⟩
  rintro u rfl
  exact hconcluded rfl

/-- The program `data Q { a int }  data P { q Q }`. -/
def layeredData : List Stmt :=
  [.generated (.data "Q" [⟨"a", .prim .int, false, none⟩]),
    .generated (.data "P" [⟨"q", .named "Q", false, none⟩])]

/-- The data types of the program, the newest first. -/
def layers : List DataDecl :=
  [⟨"P", [⟨"q", .data "Q", false, none⟩], globalPath⟩,
    ⟨"Q", [⟨"a", .prim .int, false, none⟩], globalPath⟩]

theorem layers_plain : ∀ d ∈ layers, ∀ field ∈ d.fields, field.default = none := by
  simp [layers]

/-- At the beginning of a block the default of `P` ends. -/
theorem default_terminates_layeredData :
    let s := ((Evaluator.interrupted .standard (fun _ => false) 6).run layeredData).state
      (.initial ⟨false, none, true⟩)
    let t : State := { s with env := s.env.push }
    Reaches .standard (.initial ⟨false, none, true⟩) s ∧ Visits .standard s t ∧
      ∃ fuel outcome, (∀ u, outcome ≠ .error .outOfFuel u) ∧
        ∀ n ≥ fuel, (Evaluator.ofFuel .standard n).default (.data "P") t = outcome := by
  intro s t
  have hs : Reaches .standard (.initial ⟨false, none, true⟩) s :=
    .run layeredData (fun _ => false) 6 .refl
  have hvisits : Visits .standard s t := .block .standard (by decide +kernel)
  have hcurrent : t.env.current = [⟨1⟩, ⟨0⟩] := rfl
  have hglobal : (t.env.scope ⟨0⟩).datas = layers := rfl
  have hblock : (t.env.scope ⟨1⟩).datas = [] := rfl
  have houter : ∀ id ∈ t.env.current, (∃ d, d ∈ (t.env.scope id).datas) →
      id = ⟨0⟩ := by
    rw [hcurrent]
    simp [hblock]
  refine ⟨hs, hvisits, hs.default_terminates (.inr hvisits) ?_ ?_⟩
  · intro name decl _ hdecl
    obtain ⟨id, hid, hmem, -⟩ := Environment.exists_of_data? hdecl
    rw [houter id hid ⟨decl, hmem⟩, hglobal] at hmem
    exact layers_plain decl hmem
  · rintro name - id hid id' hid' ⟨d, hd, -⟩ ⟨d', hd', -⟩
    exact (houter id hid ⟨d, hd⟩).trans (houter id' hid' ⟨d', hd'⟩).symm

/-- Where each data type of a kind has a first field of that kind, its default never ends. -/
theorem Evaluator.default_exhausts (library : Library) {s : State} (types : Ty → Prop)
    (hcycle : ∀ t, types t → ∃ name decl field rest, t = .data name ∧
      s.env.data? name = some decl ∧ decl.fields = field :: rest ∧ field.default = none ∧
        types field.type) (fuel : ℕ) {t : Ty} (ht : types t) :
    (ofFuel library fuel).default t s = .error .outOfFuel s := by
  induction fuel generalizing t with
  | zero => rfl
  | succ fuel ih =>
    obtain ⟨name, decl, field, rest, rfl, hdecl, hfields, hnone, hfield⟩ := hcycle t ht
    have hvalue : (ofFuel library fuel).fieldValue decl.scope field none s =
        .error .outOfFuel s := by
      unfold fieldValue
      rw [hnone]
      exact ih hfield
    have hcells : (ofFuel library fuel).fieldCells decl.scope decl.fields [] s =
        .error .outOfFuel s := by
      rw [hfields]
      exact Run.bind_error hvalue _
    have hread : Run.read (fun s => s.env.data? name) s = .ok (some decl) s :=
      congrArg (EStateM.Result.ok · s) hdecl
    show (ofFuel library fuel).instantiateData name [] s = _
    refine (Run.bind_ok hread _).trans ?_
    simp only [List.length_nil, Nat.not_lt_zero, if_false]
    exact Run.bind_error hcells _

/-- The declaration `data Q { p P }`. -/
def hidingData : Stmt := .generated (.data "Q" [⟨"p", .named "P", false, none⟩])

/-- In a block after the program, where `data Q { p P }` hides the `Q` of which `P` is made, the
default of `Q` never ends, although nothing that is declared has a default expression: the
declaration `var x as Q = empty` is not survived. -/
theorem default_endless_hidingData :
    let s := ((Evaluator.interrupted .standard (fun _ => false) 6).run layeredData).state
      (.initial ⟨false, none, true⟩)
    let t := ((Evaluator.ofFuel .standard 1).exec hidingData).state { s with env := s.env.push }
    Reaches .standard (.initial ⟨false, none, true⟩) s ∧ Visits .standard s t ∧
      (∀ name decl, t.env.data? name = some decl → ∀ field ∈ decl.fields, field.default = none) ∧
      ∀ fuel, (Evaluator.ofFuel .standard fuel).resolveType (.named "Q") t =
          .ok (.data "Q") t ∧
        (Evaluator.ofFuel .standard fuel).default (.data "Q") t = .error .outOfFuel t := by
  intro s t
  have hs : Reaches .standard (.initial ⟨false, none, true⟩) s :=
    .run layeredData (fun _ => false) 6 .refl
  have hvisits : Visits .standard s t := by
    refine .inside .standard (by decide +kernel) (fun heq => ?_) [hidingData]
      fun hook hhook => ?_
    · have hlength : (0 : ℕ) = 1 := congrArg (fun u => u.env.active.length) heq
      omega
    · have hpush : { s with env := s.env.push } ≠ t := by
        intro heq
        have hlength : (0 : ℕ) = 1 :=
          congrArg (fun u => (u.env.scope ⟨1⟩).datas.length) heq
        omega
      have hdeclared : (Evaluator.hooked .standard hook 1).exec hidingData
          { s with env := s.env.push } = .ok .normal t := (hhook _ _ hpush).trans rfl
      exact (Run.bind_ok hdeclared _).trans rfl
  have hq : t.env.data? "Q" = some ⟨"Q", [⟨"p", .data "P", false, none⟩], [⟨1⟩, ⟨0⟩]⟩ := rfl
  have hp : t.env.data? "P" = some ⟨"P", [⟨"q", .data "Q", false, none⟩], [⟨0⟩]⟩ := rfl
  refine ⟨hs, hvisits, fun name decl hdecl => ?_, fun fuel => ⟨rfl, ?_⟩⟩
  · obtain ⟨id, hid, hmem, -⟩ := Environment.exists_of_data? hdecl
    have hcurrent : t.env.current = [⟨1⟩, ⟨0⟩] := rfl
    have hglobal : (t.env.scope ⟨0⟩).datas = layers := rfl
    have hblock : (t.env.scope ⟨1⟩).datas =
        [⟨"Q", [⟨"p", .data "P", false, none⟩], [⟨1⟩, ⟨0⟩]⟩] := rfl
    rw [hcurrent, List.mem_cons, List.mem_singleton] at hid
    rcases hid with rfl | rfl
    · rw [hblock, List.mem_singleton] at hmem
      simp [hmem]
    · rw [hglobal] at hmem
      exact layers_plain decl hmem
  · refine Evaluator.default_exhausts .standard (fun u => u = .data "Q" ∨ u = .data "P") ?_
      fuel (.inl rfl)
    rintro u (rfl | rfl)
    · exact ⟨_, _, _, _, rfl, hq, rfl, rfl, .inr rfl⟩
    · exact ⟨_, _, _, _, rfl, hp, rfl, rfl, .inl rfl⟩

end BasicScript
