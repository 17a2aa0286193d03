import BasicScript.Proofs.Defaults.Order
import BasicScript.Proofs.Numbers.Whole
import BasicScript.Proofs.Stores.Members
import BasicScript.Proofs.Types.Common
import BasicScript.Proofs.Types.Entries

/-! # Ordinals of entries

An entry of an enum of whole numbers that is declared without a value carries
the number of its place. The place is cut down to the width of the kind, so
that it is carried as it is below the reach of the kind only, and two entries
carry the same number where their places differ by a multiple of that width.
-/

namespace BasicScript

/-- The kind of the numbers that stand for places: that of a type of whole numbers, and `int` where
there is no type. -/
def Ty.ordinalKind? : Ty → Option NumericKind
  | .inferred => some .int
  | t => t.kind?.filter NumericKind.isIntegral

namespace Ty

variable {t : Ty} {k : NumericKind}

theorem ordinalKind?_some (h : t.ordinalKind? = some k) :
    k.isIntegral = true ∧ (t = .inferred ∧ k = .int ∨ t = .ofKind k) := by
  cases t with
  | inferred =>
    cases h
    exact ⟨rfl, .inl ⟨rfl, rfl⟩⟩
  | prim p =>
    obtain ⟨hkind, hintegral⟩ := Option.filter_eq_some_iff.mp h
    exact ⟨hintegral, .inr (kind?_eq hkind)⟩
  | _ => cases h

/-- A number passes a place for its kind as it is. -/
theorem conform_number {n : Number} (h : n.kind = k) (σ : Store) :
    (ofKind k).conform σ (.number n) = .ok (.number n, σ) := by
  subst h
  refine conform_ok.mpr ⟨?_, check_number σ rfl⟩
  rw [coerce_ofKind σ (Nat.le_refl _), Number.convert_kind]

/-- What passes a place for a kind of numbers belongs to it in all stores. -/
theorem check_of_conform {σ σ' : Store} {v w : Value}
    (h : (ofKind k).conform σ v = .ok (w, σ')) (τ : Store) : (ofKind k).check τ w = .ok () := by
  obtain ⟨n, rfl, hn⟩ := number_of_check (conform_ok.mp h).2
  exact check_number τ hn

end Ty

namespace Number

variable {k : NumericKind}

/-- A place is kept as it is below the reach of the kind. -/
theorem toInt_ofInt_place (hk : k.isIntegral = true) (i : Nat) :
    (ofInt i k).toInt = i ↔ (i : Int) < k.reach := by
  constructor
  · intro h
    have hreach := (toInt_reach (n := ofInt i k) (by rwa [kind_ofInt])).2
    rwa [h, kind_ofInt] at hreach
  · intro h
    refine toInt_ofInt hk ?_ h
    omega

/-- Two whole numbers become the same number of a kind if they differ by a multiple of its
width. -/
theorem ofInt_eq_iff (hk : k.isIntegral = true) (m n : Int) :
    ofInt m k = ofInt n k ↔ m % (2 ^ k.width : Nat) = n % (2 ^ k.width : Nat) := by
  have hwhole : ofInt m k = ofInt n k ↔ (ofInt m k).toInt = (ofInt n k).toInt := by
    refine ⟨congrArg toInt, ext_toInt ?_ ?_⟩
    · rwa [kind_ofInt]
    · rw [kind_ofInt, kind_ofInt]
  rw [hwhole, toInt_ofInt_bmod m hk, toInt_ofInt_bmod n hk]
  constructor
  · intro h
    rw [← Int.bmod_emod, h, Int.bmod_emod]
  · intro h
    rw [← Int.emod_bmod, h, Int.emod_bmod]

/-- Two places are carried as the same number if they differ by a multiple of the width. -/
theorem ofInt_place_eq_iff (hk : k.isIntegral = true) (i j : Nat) :
    ofInt i k = ofInt j k ↔ i % 2 ^ k.width = j % 2 ^ k.width := by
  rw [ofInt_eq_iff hk, ← Int.natCast_emod, ← Int.natCast_emod, Int.natCast_inj]

end Number

namespace Evaluator

variable {t : Ty} {k : NumericKind}

/-- An entry without a value carries the number of its place, whatever the state. -/
theorem basicEntry_bare (r : Evaluator) (hk : t.ordinalKind? = some k) (place : Nat) (s : State) :
    r.basicEntry t place [] s = .ok (.number (.ofInt place k)) s := by
  obtain ⟨hintegral, ⟨rfl, rfl⟩ | rfl⟩ := Ty.ordinalKind?_some hk
  · rfl
  · have hvalue : r.ordinalValue (.ofKind k) place s = .ok (.number (.ofInt place k)) s := by
      simp only [ordinalValue, Ty.ofKind, Ty.kind?, Primitive.kind?_primitive, hintegral, if_true]
      rfl
    refine (Run.bind_ok hvalue _).trans ?_
    show Run.conform (.ofKind k) (.number (.ofInt place k)) s = _
    simp only [Run.conform, Run.fit, Ty.conform_number (Number.kind_ofInt _ k)]

/-- The value of an entry belongs to the type that is written, in all stores. -/
theorem basicEntry_belongs (r : Evaluator) (hk : t.ordinalKind? = some k) (ht : t ≠ .inferred)
    {place : Nat} {elements : List Expr} {s u : State} {v : Value}
    (h : r.basicEntry t place elements s = .ok v u) (σ : Store) : t.check σ v = .ok () := by
  obtain ⟨-, ⟨rfl, -⟩ | rfl⟩ := Ty.ordinalKind?_some hk
  · exact absurd rfl ht
  · obtain ⟨w, s₁, -, hfit⟩ := Run.exists_of_bind_ok h
    have hfit : Run.fit (.ofKind k) w (fun m got => .ofMismatch (.ofKind k) got m) s₁ = .ok v u :=
      hfit
    unfold Run.fit at hfit
    cases hconform : (Ty.ofKind k).conform s₁.store w with
    | error m =>
      rw [hconform] at hfit
      cases hfit
    | ok p =>
      rw [hconform] at hfit
      cases hfit
      exact Ty.check_of_conform hconform σ

/-- The entries that are built have the names of the definitions, and each has the value that was
found for its place. -/
theorem entryValues_ok {value : Nat → List Expr → Run Value} {place : Nat}
    {entries : List EntryDef} {s u : State} {built : List (String × Value)}
    (h : entryValues value place entries s = .ok built u) :
    built.map Prod.fst = entries.map EntryDef.name ∧
      ∀ i entry v, entries[i]? = some entry → built[i]? = some (entry.name, v) →
        ∃ t t', value (place + i) entry.elements t = .ok v t' := by
  induction entries generalizing place s built with
  | nil =>
    cases h
    exact ⟨rfl, fun i entry v hentry => nomatch hentry⟩
  | cons e rest ih =>
    obtain ⟨w, t, hw, h⟩ := Run.exists_of_bind_ok h
    obtain ⟨others, t', hothers, h⟩ := Run.exists_of_bind_ok h
    cases h
    obtain ⟨hnames, hvalues⟩ := ih hothers
    refine ⟨by rw [List.map_cons, List.map_cons, hnames], fun i entry v hentry hv => ?_⟩
    cases i with
    | zero =>
      cases hentry
      cases hv
      exact ⟨s, t, hw⟩
    | succ i =>
      obtain ⟨t, t', hv⟩ := hvalues i entry v hentry hv
      exact ⟨t, t', by rwa [Nat.add_assoc, Nat.add_comm 1] at hv⟩

/-- Entries without values are all built, and nothing else happens. -/
theorem entryValues_bare (r : Evaluator) (hk : t.ordinalKind? = some k) (place : Nat)
    {entries : List EntryDef} (hbare : ∀ e ∈ entries, e.elements = []) (s : State) :
    ∃ built, entryValues (r.basicEntry t) place entries s = .ok built s := by
  induction entries generalizing place with
  | nil => exact ⟨[], rfl⟩
  | cons e rest ih =>
    rw [List.forall_mem_cons] at hbare
    obtain ⟨built, hbuilt⟩ := ih (place + 1) hbare.2
    have hvalue := basicEntry_bare r hk place s
    rw [← hbare.1] at hvalue
    exact ⟨_, (Run.bind_ok hvalue _).trans (Run.bind_ok hbuilt _)⟩

end Evaluator

/-- The entries of an enum of whole numbers as they are declared: in order, those without a value
with the number of their place in the kind, and all with values that belong to the type. -/
structure EnumDecl.Carries (d : EnumDecl) (k : NumericKind) (entries : List EntryDef) : Prop where
  names : d.entries.map Prod.fst = entries.map EntryDef.name
  place : ∀ (i : Nat) (entry : String), entries[i]? = some ⟨entry, []⟩ → ∃ n : Number,
    d.entries[i]? = some (entry, .number n) ∧ n.kind = k ∧
      n.toInt = (i : Int).bmod (2 ^ k.width) ∧ (n.toInt = i ↔ (i : Int) < k.reach)
  apart : ∀ (i j : Nat) (a b : String) (v w : Value), entries[i]? = some ⟨a, []⟩ →
    entries[j]? = some ⟨b, []⟩ → d.entries[i]? = some (a, v) → d.entries[j]? = some (b, w) →
      (v = w ↔ i % 2 ^ k.width = j % 2 ^ k.width)
  belongs : d.type ≠ .inferred → ∀ e ∈ d.entries, ∀ σ : Store, d.type.check σ e.2 = .ok ()

namespace EnumDecl

variable {k : NumericKind} {d : EnumDecl}

theorem Carries.of_built {r : Evaluator} (hk : d.type.ordinalKind? = some k)
    {entries : List EntryDef} {s u : State}
    (h : Evaluator.entryValues (r.basicEntry d.type) 0 entries s = .ok d.entries u) :
    d.Carries k entries := by
  obtain ⟨hnames, hvalues⟩ := Evaluator.entryValues_ok h
  have hintegral := (Ty.ordinalKind?_some hk).1
  have hlength : d.entries.length = entries.length := by simpa using congrArg List.length hnames
  have hfound : ∀ (i : Nat) (entry : EntryDef), entries[i]? = some entry →
      ∃ v, d.entries[i]? = some (entry.name, v) := by
    intro i entry hentry
    have hname := congrArg (·[i]?) hnames
    simp only [List.getElem?_map, hentry, Option.map_some] at hname
    obtain ⟨⟨name, v⟩, hv, rfl⟩ := Option.map_eq_some_iff.mp hname
    exact ⟨v, hv⟩
  have hbare : ∀ (i : Nat) (entry : String) (v : Value), entries[i]? = some ⟨entry, []⟩ →
      d.entries[i]? = some (entry, v) → v = .number (.ofInt i k) := by
    intro i entry v hentry hv
    obtain ⟨t, t', hvalue⟩ := hvalues i _ v hentry hv
    rw [Nat.zero_add, Evaluator.basicEntry_bare r hk] at hvalue
    cases hvalue
    rfl
  refine ⟨hnames, fun i entry hentry => ?_, fun i j a b v w ha hb hv hw => ?_, fun ht e he σ => ?_⟩
  · obtain ⟨v, hv⟩ := hfound i _ hentry
    obtain rfl := hbare i entry v hentry hv
    exact ⟨_, hv, Number.kind_ofInt _ k, Number.toInt_ofInt_bmod _ hintegral,
      Number.toInt_ofInt_place hintegral i⟩
  · rw [hbare i a v ha hv, hbare j b w hb hw, Value.number.injEq,
      Number.ofInt_place_eq_iff hintegral]
  · obtain ⟨i, hi⟩ := List.mem_iff_getElem?.mp he
    have hlt : i < entries.length := hlength ▸ (List.getElem?_eq_some_iff.mp hi).1
    have hentry := List.getElem?_eq_getElem hlt
    obtain ⟨v, hv⟩ := hfound i _ hentry
    obtain rfl : e = _ := Option.some.inj (hi.symm.trans hv)
    obtain ⟨t, t', hvalue⟩ := hvalues i _ v hentry hv
    exact Evaluator.basicEntry_belongs r hk ht hvalue σ

end EnumDecl

/-- An enum that has been declared goes by its name. -/
theorem Environment.enum?_addEnum {env : Environment}
    (hcurrent : env.currentId.index < env.scopes.size) (hpath : env.current ≠ []) (d : EnumDecl) :
    (env.addEnum d).enum? d.name = some d := by
  obtain ⟨id, rest, hids⟩ := List.exists_cons_of_ne_nil hpath
  obtain rfl : env.currentId = id := by rw [currentId, hids, List.headD_cons]
  have hscope := scope_modifyCurrent hcurrent fun sc => { sc with enums := d :: sc.enums }
  show env.current.findSome? (fun id => ((env.addEnum d).scope id).enum? d.name) = some d
  rw [hids, List.findSome?_cons, addEnum, hscope, Scope.enum?, List.find?_cons_of_pos (by simp)]

namespace Evaluator

/-- In whatever state a run has come to, the entries of an enum of whole numbers that it declares
carry their places, as far as the kind reaches: an entry without a value carries its place cut down
to the width of the kind. All values belong to the type. A declaration without any value is refused
only for its name. -/
theorem ordinals_carried {settings : Settings} {s t : State} (h : s.Amid settings)
    (hpath : s.env.current ≠ []) (fuel : Nat) {written : TypeExpr} {type : Ty} {k : NumericKind}
    (htype : (ofFuel .standard fuel).resolveType written s = .ok type t)
    (hk : type.ordinalKind? = some k) (name : String) (entries : List EntryDef) (span : Span) :
    let r := ofFuel .standard fuel
    let declaration := Stmt.mk (.enum name (.basic written) entries) span
    (∀ flow u, r.stmt declaration s = .ok flow u → flow = .normal ∧
      ∃ d, u.env.enum? name = some d ∧ d.type = type ∧ d.Carries k entries ∧ d.ReadIn u) ∧
    ((∀ e ∈ entries, e.elements = []) → t.env.takesEnum name = true →
      ∃ u, r.stmt declaration s = .ok .normal u) := by
  intro r declaration
  have hprecedes : r.Precedes none False r := ofFuel_precedes_self Library.standard_framed fuel
  have hresolve : r.resolveType written s = .ok type t := htype
  refine ⟨fun flow u hu => ?_, fun hbare htakes => ?_⟩
  · obtain ⟨_, u₁, hdeclare, hflow⟩ := Run.exists_of_bind_ok (Run.mapReport_ok.mp hu)
    obtain ⟨⟨type', built⟩, u₂, hentries, hdeclare⟩ := Run.exists_of_bind_ok hdeclare
    have hframe : Frame False s u₂ :=
      (hprecedes.enumEntries (.basic written) entries).frame_ok hentries
    replace hentries := (Run.bind_ok hresolve _).symm.trans hentries
    obtain ⟨built', u₃, hbuilt, hentries⟩ := Run.exists_of_bind_ok hentries
    cases hentries
    rcases Run.declare_cases .enum name (·.takesEnum name) (·.addEnum ⟨name, type, built⟩) u₂ with
      ⟨-, hrun⟩ | ⟨f, hrun⟩
    · cases hrun.symm.trans hdeclare
      cases hflow
      have hcurrent := hframe.currentId_lt h.nested.currentId_lt
      have hpath' : u₂.env.current ≠ [] := by rwa [hframe.current]
      have hd := Environment.enum?_addEnum hcurrent hpath' ⟨name, type, built⟩
      exact ⟨rfl, ⟨name, type, built⟩, hd, rfl, .of_built hk hbuilt, EnumDecl.readIn hd⟩
    · cases hrun.symm.trans hdeclare
  · obtain ⟨built, hbuilt⟩ := entryValues_bare r hk 0 hbare t
    have hentries : r.enumEntries (.basic written) entries s = .ok (type, built) t :=
      (Run.bind_ok hresolve _).trans (Run.bind_ok hbuilt _)
    have hdeclare : r.declareEnum name (.basic written) entries s =
        .ok () { t with env := t.env.addEnum ⟨name, type, built⟩ } := by
      refine (Run.bind_ok hentries _).trans ?_
      exact if_pos htakes
    exact ⟨_, Run.mapReport_ok.mpr (Run.bind_ok hdeclare _)⟩

/-- The entries of `enum Level as byte { Low, High, Top { 7 } }`. -/
def levels : List EntryDef :=
  [⟨"Low", []⟩, ⟨"High", []⟩, ⟨"Top", [.generated (.literal (.byte 7))]⟩]

theorem ordinals_carried_levels :
    let s := State.initial ⟨false, none, true⟩
    let r := ofFuel .standard 2
    let declaration := Stmt.generated (.enum "Level" (.basic (.prim .byte)) levels)
    s.Amid ⟨false, none, true⟩ ∧ s.env.current ≠ [] ∧
      r.resolveType (.prim .byte) s = .ok (.prim .byte) s ∧
      (Ty.prim .byte).ordinalKind? = some .byte ∧
      ∃ u d, r.stmt declaration s = .ok .normal u ∧ u.env.enum? "Level" = some d ∧
        d.Carries .byte levels ∧ d.ReadIn u ∧
        ∃ n : Number, d.entries[1]? = some ("High", .number n) ∧ n.toInt = 1 := by
  intro s r declaration
  have h : s.Amid ⟨false, none, true⟩ := Reaches.amid .refl
  have hpath : s.env.current ≠ [] := by decide
  have hrun : ((r.stmt declaration).result? s).isSome = true := by decide +kernel
  have htype : r.resolveType (.prim .byte) s = .ok (.prim .byte) s := rfl
  obtain ⟨hcarried, -⟩ := ordinals_carried h hpath 2 htype rfl "Level" levels .nowhere
  cases hresult : r.stmt declaration s with
  | error e u =>
    rw [Run.result?, hresult] at hrun
    cases hrun
  | ok flow u =>
    obtain ⟨rfl, d, hd, -, hcarries, hread⟩ := hcarried flow u hresult
    obtain ⟨n, hn, -, -, hplace⟩ := hcarries.place 1 "High" rfl
    exact ⟨h, hpath, htype, rfl, u, d, rfl, hd, hcarries, hread, n, hn, hplace.mpr (by decide)⟩

/-- The entries `X0`, `X1` and so on, all without a value. -/
def crowd (count : Nat) : List EntryDef := (List.range count).map fun i => ⟨"X" ++ Nat.repr i, []⟩

/-- After `enum E as byte { X0, .., X256 }` the value of `X128` is not its ordinal, and `X0` and
`X256` have the same value. -/
theorem ordinals_crowded :
    let r := ofFuel .standard 6
    let declaration := Stmt.generated (.enum "E" (.basic (.prim .byte)) (crowd 257))
    let s := (r.stmt declaration).state (.initial ⟨false, none, true⟩)
    let member := fun entry name =>
      Expr.generated (.getMember (.generated (.enumEntry "E" entry)) name)
    let equal := fun a b => ((r.expr none (.generated (.binary .equal a b))).result? s).map
      s.store.text
    (s.env.enum? "E").map (·.entries.map Prod.fst) = some ((crowd 257).map EntryDef.name) ∧
    equal (member "X127" "value") (member "X127" "ordinal") = some "true" ∧
    equal (member "X128" "value") (member "X128" "ordinal") = some "false" ∧
    equal (member "X0" "value") (member "X256" "value") = some "true" := by
  decide +kernel

end Evaluator

end BasicScript
