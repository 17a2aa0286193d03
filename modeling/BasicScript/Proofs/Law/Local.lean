import BasicScript.Eval.Declaration
import BasicScript.Eval.Expr
import BasicScript.Proofs.Frame.Basic
import BasicScript.Proofs.Library.Natives
import BasicScript.Proofs.Values.Cycles

/-! # Local runs

What is done with values that are at hand sees and changes storage and printed
text alone: it comes out the same whatever scopes and calls are active. Local
runs are closed under composition, so each of the small steps of evaluation is
local because its parts are.
-/

namespace BasicScript

/-- Faults about the flow of control instead of values and declarations. -/
def Fault.isControl : Fault → Bool
  | .noActiveScope | .unmatchedSignal _ => true
  | _ => false

/-- The state with other storage and other printed text. -/
def State.showing (s : State) (σ : Store) (κ : Console) : State :=
  { s with store := σ, console := κ }

/-- The run ends in the same way wherever it finds the same storage and printed text, and changes
nothing else. If it fails, it does so with a bare fault; if it looks at values it may not end where
one of them lies in itself. -/
def Run.Local {α : Type} (x : Run α) (looks : Prop) : Prop :=
  ∀ σ κ, ∃ σ' κ',
    (∃ a, ∀ s : State, x (s.showing σ κ) = .ok a (s.showing σ' κ')) ∨
    (∃ f : Fault, f.isControl = false ∧
      ∀ s : State, x (s.showing σ κ) = .error (.error (.ofFault f)) (s.showing σ' κ')) ∨
    (looks ∧ σ'.Cyclic) ∧
      ∀ s : State, x (s.showing σ κ) = .error .outOfFuel (s.showing σ' κ')

namespace Run.Local

variable {α β : Type} {looks : Prop} {x : Run α} {f : α → Run β}

theorem pure (a : α) : (Pure.pure a : Run α).Local looks :=
  fun σ κ => ⟨σ, κ, .inl ⟨a, fun _ => rfl⟩⟩

theorem fail {g : Fault} (hg : g.isControl = false) : (Run.fail g : Run α).Local looks :=
  fun σ κ => ⟨σ, κ, .inr (.inl ⟨g, hg, fun _ => rfl⟩)⟩

theorem read (g : Store → α) : (Run.read fun s => g s.store).Local looks :=
  fun σ κ => ⟨σ, κ, .inl ⟨g σ, fun _ => rfl⟩⟩

theorem modifyStore (g : Store → Store) : (Run.modifyStore g).Local looks :=
  fun σ κ => ⟨g σ, κ, .inl ⟨(), fun _ => rfl⟩⟩

theorem bind (hx : x.Local looks) (hf : ∀ a, (f a).Local looks) : (x >>= f).Local looks := by
  intro σ κ
  obtain ⟨σ₁, κ₁, ⟨a, ha⟩ | ⟨g, hg, hstop⟩ | ⟨hlooks, hstop⟩⟩ := hx σ κ
  · obtain ⟨σ₂, κ₂, ⟨b, hb⟩ | ⟨g, hg, hstop⟩ | ⟨hlooks, hstop⟩⟩ := hf a σ₁ κ₁
    · exact ⟨σ₂, κ₂, .inl ⟨b, fun s => (bind_ok (ha s) f).trans (hb s)⟩⟩
    · exact ⟨σ₂, κ₂, .inr (.inl ⟨g, hg, fun s => (bind_ok (ha s) f).trans (hstop s)⟩)⟩
    · exact ⟨σ₂, κ₂, .inr (.inr ⟨hlooks, fun s => (bind_ok (ha s) f).trans (hstop s)⟩)⟩
  · exact ⟨σ₁, κ₁, .inr (.inl ⟨g, hg, fun s => bind_error (hstop s) f⟩)⟩
  · exact ⟨σ₁, κ₁, .inr (.inr ⟨hlooks, fun s => bind_error (hstop s) f⟩)⟩

/-- A view that ends where no value lies in itself. -/
theorem ending {ends : Store → Bool} (h : ∀ σ : Store, ¬σ.Cyclic → ends σ = true) :
    (Run.ending ends).Local True := by
  intro σ κ
  refine ⟨σ, κ, ?_⟩
  cases hends : ends σ with
  | true => exact .inl ⟨(), fun s => if_pos hends⟩
  | false =>
    have hcyclic : σ.Cyclic := by
      by_contra hnot
      exact Bool.false_ne_true (hends.symm.trans (h σ hnot))
    exact .inr (.inr ⟨⟨trivial, hcyclic⟩, fun s => if_neg (Bool.eq_false_iff.mp hends)⟩)

theorem ite {p : Prop} [Decidable p] {y : Run α} (hx : x.Local looks) (hy : y.Local looks) :
    (if p then x else y : Run α).Local looks := by
  split
  · exact hx
  · exact hy

/-- A test that has to fail for the run to go on. -/
theorem guarded {p : Prop} [Decidable p] {g : Fault} {y : Unit → Run α} (hg : g.isControl = false)
    (hx : x.Local looks) : (if p then Run.fail g >>= y else x : Run α).Local looks := by
  split
  · exact fun σ κ => ⟨σ, κ, .inr (.inl ⟨g, hg, fun _ => rfl⟩)⟩
  · exact hx

theorem require {g : Fault} (hg : g.isControl = false) (found : Option α) :
    (Run.require g found).Local looks := by
  cases found with
  | some a => exact pure a
  | none => exact fail hg

theorem failOn {g : Option Ty → Fault} (hg : ∀ t, (g t).isControl = false) (v : Value) :
    (Run.failOn g v : Run α).Local looks :=
  bind (read fun σ => σ.typeOf? v) fun t => fail (hg t)

theorem typeOf (v : Value) : (Run.typeOf v).Local looks := read fun σ => σ.typeOf? v

theorem text (v : Value) : (Run.text v).Local True :=
  (ending fun _ h => Store.textEnds_of_not_cyclic h v).bind fun _ => read fun σ => σ.text v

theorem equalEnds (v w : Value) : (Run.ending (·.equalEnds v w)).Local True :=
  ending fun _ h => Store.equalEnds_of_not_cyclic h v w

theorem elementsOf (v : Value) : (Run.elementsOf v).Local looks := by
  refine (read fun σ => σ.elements? v).bind fun vs => ?_
  cases vs with
  | some vs => exact pure vs
  | none => exact failOn (fun _ => rfl) v

theorem position (index : Value) : (Run.position index).Local True := by
  have hinvalid : (do Run.fail (.invalidIndex (← Run.text index)) : Run Nat).Local True :=
    (text index).bind fun _ => fail rfl
  unfold Run.position
  split
  · exact ite (pure _) hinvalid
  · exact hinvalid

theorem atIndex (index : Value) (found : Option α) : (Run.atIndex index found).Local True := by
  cases found with
  | some a => exact pure a
  | none => exact (text index).bind fun _ => fail rfl

theorem newArray (element : Ty) (vs : List Value) : (Run.newArray element vs).Local looks :=
  fun σ κ => ⟨(σ.newArray element vs).2, κ, .inl ⟨.array (σ.newArray element vs).1, fun _ => rfl⟩⟩

theorem newCell (c : Cell) : (Run.newCell c).Local looks :=
  fun σ κ => ⟨(σ.newCell c).2, κ, .inl ⟨(σ.newCell c).1, fun _ => rfl⟩⟩

theorem fit (t : Ty) (v : Value) {rejected : Mismatch → Option Ty → Fault}
    (hr : ∀ m got, (rejected m got).isControl = false) : (Run.fit t v rejected).Local looks := by
  intro σ κ
  cases h : t.conform σ v with
  | ok p =>
    refine ⟨p.2, κ, .inl ⟨p.1, fun s => ?_⟩⟩
    simp only [Run.fit, State.showing, h]
  | error m =>
    refine ⟨σ, κ, .inr (.inl ⟨rejected m (σ.typeOf? v), hr _ _, fun s => ?_⟩)⟩
    simp only [Run.fit, State.showing, h]
    rfl

theorem conform (t : Ty) (v : Value) : (Run.conform t v).Local looks :=
  fit t v fun m _ => by cases m <;> rfl

theorem cast (t : Ty) (v : Value) : (Run.cast t v).Local True := by
  refine (ending fun σ h => t.castEnds_of_not_cyclic h v).bind fun _ => ?_
  intro σ κ
  cases h : t.cast σ v with
  | some p =>
    refine ⟨p.2, κ, .inl ⟨p.1, fun s => ?_⟩⟩
    simp only [State.showing, h]
  | none =>
    refine ⟨σ, κ, .inr (.inl ⟨.invalidCast (σ.typeOf? v) t, rfl, fun s => ?_⟩)⟩
    simp only [State.showing, h]
    rfl

theorem assign (id : CellId) (name : String) (v : Value) : (Run.assign id name v).Local looks := by
  refine guarded rfl ((read fun σ => σ.cell id).bind fun c => guarded rfl ?_)
  exact (conform c.type v).bind fun w => (modifyStore _).bind fun _ => pure w

theorem putBack (id : CellId) (v : Value) (σ : Store) (κ : Console) :
    ∃ σ', ∀ s : State, Run.putBack id v (s.showing σ κ) = s.showing σ' κ := by
  cases h : σ.put id v with
  | stored w σ' => exact ⟨σ', fun s => by simp only [Run.putBack, State.showing, h]⟩
  | rejected m => exact ⟨σ, fun s => by simp only [Run.putBack, State.showing, h]⟩
  | constant => exact ⟨σ, fun s => by simp only [Run.putBack, State.showing, h]⟩

theorem exchange (a b : CellId) (nameA nameB : String) :
    (Run.exchange a b nameA nameB).Local looks := by
  refine (read fun σ => σ.read a).bind fun va => (read fun σ => σ.read b).bind fun vb => ?_
  refine (assign a nameA vb).bind fun stored => ?_
  have hassign : (Run.assign b nameB va).Local False := assign b nameB va
  intro σ κ
  obtain ⟨σ₁, κ₁, ⟨w, hw⟩ | ⟨g, hg, hstop⟩ | ⟨hlooks, -⟩⟩ := hassign σ κ
  · exact ⟨σ₁, κ₁, .inl ⟨stored, fun s => by simp only [hw]⟩⟩
  · obtain ⟨σ₂, hput⟩ := putBack a va σ₁ κ₁
    exact ⟨σ₂, κ₁, .inr (.inl ⟨g, hg, fun s => by simp only [hstop, hput]⟩)⟩
  · exact hlooks.1.elim

end Run.Local

open Run.Local (pure fail failOn)

namespace UnaryOp

theorem lengthValue_local (n : Nat) : (lengthValue n).Local True := .ite (pure _) (fail rfl)

theorem apply_local (op : UnaryOp) (v : Value) : (op.apply v).Local True := by
  unfold apply
  split
  · exact pure _
  · exact pure _
  · exact lengthValue_local _
  · next id => exact (Run.Local.read fun σ => (σ.block id).values.size).bind lengthValue_local
  · next v => exact (Run.Local.text _).bind fun _ => Run.Local.pure _
  · exact pure _
  · next cells => exact (Run.Local.read fun σ => cells.map σ.read).bind (.newArray _)
  · exact failOn (fun _ => rfl) _

end UnaryOp

namespace BinaryOp

variable {op : BinaryOp} {σ : Store} {v w : Value} {f : Fault}

theorem compare_fault (h : op.compare σ v w = .error f) : f.isControl = false := by
  unfold compare at h
  split at h <;> cases h <;> rfl

theorem ordered_fault {holds : Ordering → Bool} (h : op.ordered σ holds v w = .error f) :
    f.isControl = false := by
  unfold ordered at h
  split at h
  · cases h
  · next hcompare =>
    cases h
    exact compare_fault hcompare

theorem arithmetic_fault {arith : ArithOp} (h : op.arithmetic σ arith v w = .error f) :
    f.isControl = false := by
  unfold arithmetic at h
  split at h
  · split at h <;> cases h
    rfl
  · cases h
    rfl
  · cases h
    rfl

theorem logical_fault {g : Bool → Bool → Bool} (h : op.logical σ g v w = .error f) :
    f.isControl = false := by
  unfold logical at h
  split at h <;> cases h <;> rfl

theorem apply_fault (h : op.apply σ v w = .error f) : f.isControl = false := by
  cases op with
  | equal | notEqual | concat => cases h
  | less | lessEqual | greater | greaterEqual => exact ordered_fault h
  | add | subtract | multiply | divide | modulus => exact arithmetic_fault h
  | and | or => exact logical_fault h
  | _ =>
    cases h
    rfl

end BinaryOp

namespace Evaluator

theorem applyBinary_local (op : BinaryOp) (v w : Value) : (applyBinary op v w).Local True := by
  refine (Run.Local.ending fun σ h => op.ends_of_not_cyclic h v w).bind fun _ => ?_
  intro σ κ
  have hread : ∀ s : State, (Run.read fun s => op.apply s.store v w) (s.showing σ κ) =
      .ok (op.apply σ v w) (s.showing σ κ) := fun _ => rfl
  cases h : op.apply σ v w with
  | ok result => exact ⟨σ, κ, .inl ⟨result, fun s => Run.bind_ok (h ▸ hread s) _⟩⟩
  | error f =>
    exact ⟨σ, κ, .inr (.inl ⟨f, BinaryOp.apply_fault h, fun s => Run.bind_ok (h ▸ hread s) _⟩)⟩

theorem fieldCell_local (decl : DataDecl) (cells : List CellId) (member : String) :
    (fieldCell decl cells member).Local True := .require rfl _

theorem getMember_local (target : Value) (member : String) :
    (getMember target member).Local True := by
  unfold getMember
  split
  · exact (fieldCell_local _ _ _).bind fun id => .read fun σ => σ.read id
  · split
    · exact pure _
    · exact pure _
    · exact pure _
    · exact fail rfl
  · exact failOn (fun _ => rfl) _

theorem getIndex_local (target index : Value) : (getIndex target index).Local True := by
  unfold getIndex
  split
  · exact (Run.Local.position index).bind fun i => .atIndex index _
  · next id =>
    refine (Run.Local.position index).bind fun i => ?_
    exact (Run.Local.read fun σ => (σ.block id).values[i]?).bind (.atIndex index)
  · next cells =>
    refine (Run.Local.position index).bind fun i => ?_
    exact (Run.Local.read fun σ => cells[i]?.map σ.read).bind (.atIndex index)
  · exact failOn (fun _ => rfl) _

theorem bindingType_local (v : Value) (t : Ty) : (bindingType v t).Local True := by
  unfold bindingType
  split
  · exact (Run.Local.typeOf v).bind (.require rfl)
  · exact pure _

end Evaluator

namespace Library

theorem unexpected_local (name : String) (v : Value) : (unexpected name v).Local True :=
  failOn (fun _ => rfl) v

theorem printing_local (print : Console → String → Console) (v : Value) :
    (printing print v).Local True :=
  (Run.Local.text v).bind fun text σ κ => ⟨σ, print κ text, .inl ⟨.none, fun _ => rfl⟩⟩

theorem absInt_local (v : Value) : (absInt v).Local True := by
  unfold absInt
  split
  · exact pure _
  · exact unexpected_local _ v

theorem onDouble_local (name : String) (f : Float → Float) (v : Value) :
    (onDouble name f v).Local True := by
  unfold onDouble
  split
  · exact pure _
  · exact unexpected_local name v

theorem onString_local (name : String) (f : String → String) (v : Value) :
    (onString name f v).Local True := by
  unfold onString
  split
  · exact pure _
  · exact unexpected_local name v

theorem ord_local (v : Value) : (ord v).Local True := by
  unfold ord
  split
  · exact pure _
  · exact unexpected_local _ v

theorem chr_local (v : Value) : (chr v).Local True := by
  unfold chr
  split
  · split
    · exact pure _
    · exact fail rfl
  · exact unexpected_local _ v

theorem size_local (v : Value) : (size v).Local True := by
  unfold size
  split
  · next id =>
    exact (Run.Local.read fun σ => (σ.block id).values.size).bind fun _ => .ite (pure _) (fail rfl)
  · exact unexpected_local _ v

theorem standard_local {signature : String} {native : Builtin}
    (h : standard.lookup signature = some native) :
    ∃ f : List Value → Run Value, (native.function = fun _ => f) ∧ ∀ args, (f args).Local True :=
  standard_cases (P := (·.Local True)) h (fail rfl) printing_local absInt_local onDouble_local
    onString_local ord_local chr_local size_local

end Library

/-- The test for a function of the library looks at the types of results alone. -/
theorem Evaluator.requireNative_eq (r : Evaluator) (signature : String) (returns : Ty) :
    r.requireNative signature returns =
      match (r.library.lookup signature).map (·.returns) with
      | none => Run.fail (.missingBuiltin signature)
      | some t =>
        if t = returns then Pure.pure () else
          Run.fail (.mismatchedBuiltin signature returns (some t)) := by
  unfold Evaluator.requireNative
  cases r.library.lookup signature with
  | none => rfl
  | some native =>
    show (if native.returns ≠ returns then _ else _) = _
    rw [ite_not]
    rfl

/-- Native calls are the same for all evaluators of the standard library. -/
theorem Evaluator.callNative_local (sub : Sub) (bound : List Value) :
    ∃ x : Run Value, x.Local True ∧
      ∀ r : Evaluator, r.library = .standard → r.callNative sub bound = x := by
  have htested : ∀ v, Run.Local (do
      if ← Run.read fun s => sub.returns.admits s.store v then Pure.pure v
      else Run.failOn (.mismatchedBuiltin sub.signature sub.returns) v : Run Value) True :=
    fun v => (Run.Local.read fun σ => sub.returns.admits σ v).bind fun _ =>
      .ite (pure v) (failOn (fun _ => rfl) v)
  cases hlookup : Library.standard.lookup sub.signature with
  | none =>
    refine ⟨Run.fail (.missingBuiltin sub.signature), fail rfl, fun r hr => ?_⟩
    simp only [callNative, hr, hlookup]
  | some native =>
    obtain ⟨f, hf, hlocal⟩ := Library.standard_local hlookup
    refine ⟨_, (hlocal bound).bind htested, fun r hr => ?_⟩
    simp only [callNative, hr, hlookup, hf]

end BasicScript
