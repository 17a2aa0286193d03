import BasicScript.Proofs.Law.Run
import BasicScript.Proofs.Types.Kinds

/-! # Types and composite values under a law

Whatever is evaluated obeys a law once its parts do. What the parts are asked
for is stated function by function, so that a law can hold by the structure of
programs as well as by the fuel of the evaluator.
-/

namespace BasicScript

/-- Expressions for the sizes in a written type. -/
def TypeExpr.sizes : TypeExpr → List Expr
  | .array element size => element.sizes ++ size.toList
  | .vararg element => element.sizes
  | _ => []

theorem TypeExpr.sizeOf_size {written : TypeExpr} {e : Expr} (h : e ∈ written.sizes) :
    sizeOf e < sizeOf written := by
  match written, h with
  | .array element size, h =>
    rcases List.mem_append.mp h with hinner | hsize
    · have hlt := sizeOf_size hinner
      simp only [TypeExpr.array.sizeOf_spec]
      omega
    · cases Option.mem_toList.mp hsize
      simp only [TypeExpr.array.sizeOf_spec, Option.some.sizeOf_spec]
      omega
  | .vararg element, h =>
    have hlt := sizeOf_size (show e ∈ element.sizes from h)
    simp only [TypeExpr.vararg.sizeOf_spec]
    omega

namespace Law

variable {ι : Type} (L : Law ι) (r : ι → Evaluator) (room : Option Nat)

/-- The expression obeys the law, whatever its context. -/
def Evals (e : Expr) : Prop := ∀ p hint, L.Runs room p fun i => (r i).eval hint e

/-- The default of the type obeys the law. -/
def Defaults (t : Ty) : Prop := ∀ p, L.Runs room p fun i => (r i).default t

/-- What stands in for the fields of an instance obeys the law. -/
def Builds (d : DataDecl) : Prop :=
  ∀ f ∈ d.fields, (∀ e ∈ f.default, L.Evals r room e) ∧
    (f.default = none → L.Defaults r room f.type)

/-- Values of the type are made under the law: by default, and from elements. -/
structure Makes (t : Ty) : Prop where
  default : L.Defaults r room t
  element : ∀ element ∈ t.element?, L.Defaults r room element
  builds : ∀ d, L.data d → t = .data d.name → L.Builds r room d

/-- The statement obeys the law. -/
def Executes (s : Stmt) : Prop := ∀ p, L.Runs room p fun i => (r i).exec s

/-- Libraries that cannot be told from the standard one: there are natives of the same signatures
and return types, and with values that suit the parameters of a sub they do the same. -/
structure Stocked : Prop where
  returns : ∀ i signature, ((r i).library.lookup signature).map (·.returns) =
    (Library.standard.lookup signature).map (·.returns)
  calls : ∀ sub, L.sub sub → sub.native = true → ∀ bound, sub.Suited bound →
    ∃ x : Run Value, x.Local True ∧ ∀ i, (r i).callNative sub bound = x

variable {L r room} {p : Site}

theorem Stocked.of_standard (h : ∀ i, (r i).library = .standard) : L.Stocked r where
  returns i signature := by rw [h i]
  calls sub _ _ bound _ := by
    obtain ⟨x, hx, hsame⟩ := Evaluator.callNative_local sub bound
    exact ⟨x, hx, fun i => hsame (r i) (h i)⟩

open Holds (pure fail read of_local)

theorem arraySize {size : Expr} (h : L.Evals r room size) :
    L.Runs room p fun i => (r i).arraySize size := by
  refine (h p none).bind fun v _ => ?_
  cases v.integral? with
  | some n => exact pure trivial
  | none => exact of_local (.failOn (fun _ => rfl) v)

/-- A written type is looked up as something that it can stand for. -/
theorem resolveType (written : TypeExpr) (h : ∀ e ∈ written.sizes, L.Evals r room e) :
    L.Holds room p (fun i => (r i).resolveType written) (written.Gives L.named) := by
  match written, h with
  | .inferred, _ => exact pure rfl
  | .prim q, _ => exact pure rfl
  | .array element none, h =>
    have helement := resolveType element fun e he => h e (List.mem_append_left _ he)
    exact helement.bind fun t ht => pure ⟨t, none, rfl, ht⟩
  | .array element (some size), h =>
    have helement := resolveType element fun e he => h e (List.mem_append_left _ he)
    have hsize : L.Evals r room size := h size (List.mem_append_right _ (List.mem_singleton_self _))
    exact helement.bind fun t ht => (arraySize hsize).bind fun n _ => pure ⟨t, n, rfl, ht⟩
  | .vararg element, h =>
    have helement := resolveType element h
    exact helement.bind fun t ht => pure ⟨t, rfl, ht⟩
  | .named name, _ =>
    exact (Holds.named name).bind fun found hfound => Holds.require rfl hfound

section Composite

variable {scope : ScopePath} {elements : List Expr}

theorem suppliedValue (t : Ty) {element : Option Expr} (h : ∀ e ∈ element, L.Evals r room e) :
    L.Runs room p fun i => (r i).suppliedValue t element := by
  cases element with
  | none => exact pure trivial
  | some e => exact h e rfl p t.hint?

theorem fieldValue (hscope : L.Sees p scope) {field : Field}
    (hfield : (∀ e ∈ field.default, L.Evals r room e) ∧
      (field.default = none → L.Defaults r room field.type))
    {element : Option Expr} (h : ∀ e ∈ element, L.Evals r room e) :
    L.Runs room p fun i => (r i).fieldValue scope field element := by
  refine (suppliedValue field.type h).bind fun supplied _ =>
    .ite (fun _ => ?_) fun _ => pure trivial
  cases hdefault : field.default with
  | none => exact hfield.2 hdefault p
  | some e => exact .inLiveScope hscope fun q => hfield.1 e hdefault q _

theorem fieldCells (hscope : L.Sees p scope) {fields : List Field}
    (hfields : ∀ f ∈ fields, (∀ e ∈ f.default, L.Evals r room e) ∧
      (f.default = none → L.Defaults r room f.type))
    (h : ∀ e ∈ elements, L.Evals r room e) :
    L.Runs room p fun i => (r i).fieldCells scope fields elements := by
  induction fields generalizing elements with
  | nil => exact pure trivial
  | cons field fields ih =>
    rw [List.forall_mem_cons] at hfields
    have hhead : L.Runs room p fun i => (r i).fieldValue scope field elements.head? :=
      fieldValue hscope hfields.1 fun e he => h e (List.mem_of_mem_head? he)
    refine hhead.bind fun v _ => (of_local (.conform field.type v)).bind fun w _ => ?_
    refine (of_local (.newCell _)).bind fun cell _ => ?_
    exact (ih hfields.2 fun e he => h e (List.mem_of_mem_tail he)).bind fun _ _ => pure trivial

theorem instantiateData {name : String} (hdata : ∀ d, L.data d → d.name = name → L.Builds r room d)
    (h : ∀ e ∈ elements, L.Evals r room e) :
    L.Runs room p fun i => (r i).instantiateData name elements := by
  refine (Holds.data name).bind fun found hfound => (Holds.require rfl hfound).bind fun d hd => ?_
  obtain ⟨htext, hname, hscope⟩ := hd
  refine .guarded rfl ?_
  exact (fieldCells hscope (hdata d htext hname) h).bind fun _ _ => pure trivial

theorem instantiateArray {element : Ty} (hdefault : L.Defaults r room element) (size : Option Nat)
    (h : ∀ e ∈ elements, L.Evals r room e) :
    L.Runs room p fun i => (r i).instantiateArray element size elements := by
  refine .guarded rfl ?_
  refine (Holds.mapM_runs elements fun e he => ?_).bind fun given _ => ?_
  · exact (h e he p _).bind fun v _ => of_local (.conform element v)
  · refine (Holds.mapM_runs _ fun t ht => ?_).bind fun filler _ => of_local (.newArray _ _)
    rw [List.eq_of_mem_replicate ht]
    exact hdefault p

theorem instantiate {t : Ty} (ht : L.Makes r room t) (h : ∀ e ∈ elements, L.Evals r room e) :
    L.Runs room p fun i => (r i).instantiate t elements := by
  cases t with
  | data name =>
    exact instantiateData (fun d hd hname => ht.builds d hd (congrArg Ty.data hname.symm)) h
  | array element size => exact instantiateArray (ht.element element rfl) size h
  | vararg element => exact instantiateArray (ht.element element rfl) none h
  | _ => exact fail rfl

theorem arrayLiteral (hint : Option Ty) (h : ∀ e ∈ elements, L.Evals r room e) :
    L.Runs room p fun i => (r i).arrayLiteral hint elements := by
  refine (Holds.mapM_runs elements fun e he => ?_).bind fun typed _ => ?_
  · refine (h e he p hint).bind fun v _ => (of_local (.typeOf v)).bind fun t _ => ?_
    exact (of_local (.require rfl t)).bind fun _ _ => pure trivial
  · refine (Holds.mapM_runs typed fun q _ => ?_).bind fun values _ => of_local (.newArray _ values)
    exact of_local (.conform _ q.1)

/-- The default of a type, from those of its elements or of the fields of its instances. -/
theorem defaultValue (t : Ty) (helement : ∀ element ∈ t.element?, L.Defaults r room element)
    (hdata : ∀ d, L.data d → t = .data d.name → L.Builds r room d) :
    L.Runs room p fun i => (r i).defaultValue t := by
  cases t with
  | inferred => exact fail rfl
  | prim q =>
    cases q with
    | any | none | bool | char | string => exact pure trivial
    | _ => exact pure trivial
  | array element size =>
    refine (Holds.mapM_runs _ fun t ht => ?_).bind fun vs _ => of_local (.newArray _ vs)
    rw [List.eq_of_mem_replicate ht]
    exact helement element rfl p
  | vararg element => exact of_local (.newArray _ _)
  | data name =>
    exact instantiateData (fun d hd hname => hdata d hd (congrArg Ty.data hname.symm))
      fun _ he => nomatch he
  | enum name =>
    refine (Holds.enum name).bind fun found _ => (of_local (.require rfl found)).bind fun d _ => ?_
    exact of_local (.require rfl _)

theorem iterationValues {iterable : Expr} (h : L.Evals r room iterable)
    (hsizes : ∀ written, iterable.kind = .type written →
      ∀ e ∈ written.sizes, L.Evals r room e) :
    L.Runs room p fun i => (r i).iterationValues iterable := by
  have hvalues : L.Runs room p fun i => (r i).eval none iterable >>= Run.elementsOf :=
    (h p none).bind fun v _ => of_local (.elementsOf v)
  unfold Evaluator.iterationValues
  cases hkind : iterable.kind with
  | type written =>
    refine (resolveType written (hsizes written hkind)).bind fun t _ => ?_
    cases t with
    | enum name =>
      refine (Holds.enum name).bind fun found _ => ?_
      exact (of_local (.require rfl found)).bind fun d _ => pure trivial
    | _ => exact hvalues
  | _ => exact hvalues

end Composite

end Law

end BasicScript
