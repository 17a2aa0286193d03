import BasicScript.Proofs.Calls.Lexical
import BasicScript.Proofs.Types.Storage

/-! # Entries of enums

The entries of an enum never change: whichever way a program reads the value
of an entry, it gets what the declaration put there. Where that is a handle,
the contents are the same as long as nothing can be stored through it. An
array with elements, or a composite with a field that is no constant, stays
open to stores by all who hold it, an entry included.
-/

namespace BasicScript

/-- Values that are no handles and hold none. -/
def Value.isScalar : Value → Bool
  | .array _ | .data .. | .entry .. => false
  | _ => true

/-- Values whose contents cannot be changed: constants all the way down, and no array elements. -/
inductive Value.Frozen (σ : Store) : Value → Prop where
  | scalar {v : Value} (h : v.isScalar = true) : Frozen σ v
  | array {id : ArrayId} (h : σ.elements id = []) : Frozen σ (.array id)
  | data {d : DataDecl} {cells : List CellId}
      (constant : ∀ c ∈ cells, (σ.cell c).constant = true)
      (fields : ∀ c ∈ cells, Frozen σ (σ.read c)) : Frozen σ (.data d cells)
  | entry {enum name : String} {ordinal : Nat} {v : Value} (h : Frozen σ v) :
      Frozen σ (.entry enum name ordinal v)

/-- Values of two stores are the same in structure: equal scalars, or handles of one type with
contents that are the same in structure. -/
inductive Value.Alike (σ τ : Store) : Value → Value → Prop where
  | scalar {v : Value} (h : v.isScalar = true) : Alike σ τ v v
  | array {a b : ArrayId} (element : (τ.block b).element = (σ.block a).element)
      (length : (τ.elements b).length = (σ.elements a).length)
      (elements : ∀ (i : Nat) (v w : Value), (σ.elements a)[i]? = some v →
        (τ.elements b)[i]? = some w → Alike σ τ v w) : Alike σ τ (.array a) (.array b)
  | data {d : DataDecl} {as bs : List CellId} (length : bs.length = as.length)
      (types : ∀ (i : Nat) (a b : CellId), as[i]? = some a → bs[i]? = some b →
        (τ.cell b).type = (σ.cell a).type)
      (fields : ∀ (i : Nat) (a b : CellId), as[i]? = some a → bs[i]? = some b →
        Alike σ τ (σ.read a) (τ.read b)) : Alike σ τ (.data d as) (.data d bs)
  | entry {enum name : String} {ordinal : Nat} {v w : Value} (h : Alike σ τ v w) :
      Alike σ τ (.entry enum name ordinal v) (.entry enum name ordinal w)

namespace Value

variable {σ τ : Store} {v w : Value}

/-- What is frozen stays the same in structure while storage grows. -/
theorem Frozen.alike (h : v.Frozen σ) {declared : DataDecl → Prop} (hσ : σ.Typed declared)
    (hv : σ.Holds declared v) (hg : σ.Grows τ) : v.Alike σ τ v := by
  induction h with
  | scalar h => exact .scalar h
  | @array id h =>
    have hkeeps := hg.block hv
    have hlength : (τ.elements id).length = (σ.elements id).length := hkeeps.size
    refine .array hkeeps.element hlength fun i v w hi _ => ?_
    simp [h] at hi
  | @data d cells hconstant _ ih =>
    have hbound : ∀ c ∈ cells, c.index < σ.cells.size := by
      intro c hc
      obtain ⟨i, hi, rfl⟩ := List.mem_iff_getElem.mp hc
      have hfield := hv.2.get (hv.2.length_eq ▸ hi) hi
      exact hfield.bound
    refine .data rfl (fun i a b ha hb => ?_) fun i a b ha hb => ?_
    · obtain rfl : a = b := Option.some.inj (ha.symm.trans hb)
      exact (hg.cell (hbound a (List.mem_of_getElem? ha))).type
    · obtain rfl : a = b := Option.some.inj (ha.symm.trans hb)
      have hmem := List.mem_of_getElem? ha
      have hread : τ.read a = σ.read a := (hg.cell (hbound a hmem)).fixed (hconstant a hmem)
      rw [hread]
      exact ih a hmem (hσ.cell_holds a)
  | entry _ ih => exact .entry (ih hv)

theorem Frozen.of_payload (h : (Store.payload v).Frozen σ) : v.Frozen σ := by
  induction v with
  | entry _ _ _ _ ih => exact .entry (ih h)
  | _ => exact h

/-- Tests whether a value is frozen, down to `depth` handles. -/
def isFrozen (σ : Store) : Nat → Value → Bool
  | 0, v => (Store.payload v).isScalar
  | depth + 1, v =>
    match Store.payload v with
    | .array id => (σ.elements id).isEmpty
    | .data _ cells => cells.all fun c => (σ.cell c).constant && isFrozen σ depth (σ.read c)
    | v => v.isScalar

theorem frozen_of_isFrozen {depth : Nat} (h : v.isFrozen σ depth = true) : v.Frozen σ := by
  induction depth generalizing v with
  | zero => exact .of_payload (.scalar h)
  | succ depth ih =>
    apply Frozen.of_payload
    unfold isFrozen at h
    cases hpayload : Store.payload v with
    | array id =>
      simp only [hpayload, List.isEmpty_iff] at h
      exact .array h
    | data d cells =>
      simp only [hpayload, List.all_eq_true, Bool.and_eq_true] at h
      exact .data (fun c hc => (h c hc).1) fun c hc => ih (h c hc).2
    | entry => simp [hpayload, isScalar] at h
    | _ => exact .scalar rfl

/-- The same structure has the same text, at every depth. -/
theorem Alike.text (h : v.Alike σ τ w) (depth : Nat) :
    τ.textWithin depth w = σ.textWithin depth v := by
  induction h generalizing depth with
  | @scalar v h =>
    cases v with
    | array | data | entry => cases h
    | _ => cases depth <;> rfl
  | @array a b _ hlength _ ih =>
    cases depth with
    | zero => rfl
    | succ depth =>
      have hparts : (τ.elements b).map (τ.textWithin depth) =
          (σ.elements a).map (σ.textWithin depth) := by
        refine List.ext_getElem (by simpa using hlength) fun i hi hi' => ?_
        simp only [List.length_map] at hi hi'
        simpa using ih i _ _ (List.getElem?_eq_getElem hi') (List.getElem?_eq_getElem hi) depth
      have htexts := congrArg (List.mapM id) hparts
      rw [List.mapM_map, List.mapM_map, Function.id_comp, Function.id_comp] at htexts
      rw [Store.textWithin, Store.textWithin, htexts]
  | @data d as bs hlength _ _ ih =>
    cases depth with
    | zero => rfl
    | succ depth =>
      have hparts : (bs.map fun c => τ.textWithin depth (τ.read c)) =
          as.map fun c => σ.textWithin depth (σ.read c) := by
        refine List.ext_getElem (by simpa using hlength) fun i hi hi' => ?_
        simp only [List.length_map] at hi hi'
        simpa using ih i _ _ (List.getElem?_eq_getElem hi') (List.getElem?_eq_getElem hi) depth
      have htexts := congrArg (List.mapM id) hparts
      rw [List.mapM_map, List.mapM_map, Function.id_comp, Function.id_comp] at htexts
      rw [Store.textWithin, Store.textWithin, htexts]
  | entry _ _ => cases depth <;> rfl

end Value

namespace EnumDecl

/-- The values of an enum are its entries, in order. -/
theorem entryValues_getElem? (enum : String) (ordinal : Nat) (entries : List (String × Value))
    (i : Nat) : (entryValues enum ordinal entries)[i]? =
      entries[i]?.map fun e => .entry enum e.1 (ordinal + i) e.2 := by
  induction entries generalizing ordinal i with
  | nil => rfl
  | cons e rest ih =>
    cases i with
    | zero => rfl
    | succ i =>
      show (entryValues enum (ordinal + 1) rest)[i]? = _
      rw [ih, List.getElem?_cons_succ, Nat.add_right_comm, Nat.add_assoc]

theorem values_getElem? (d : EnumDecl) (i : Nat) :
    d.values[i]? = d.entries[i]?.map fun e => .entry d.name e.1 i e.2 := by
  simpa only [values, Nat.zero_add] using entryValues_getElem? d.name 0 d.entries i

/-- What goes by the name of an entry is one of the entries. -/
theorem find?_some {d : EnumDecl} {entry : String} {w : Value} (h : d.find? entry = some w) :
    ∃ i v, d.entries[i]? = some (entry, v) ∧ w = .entry d.name entry i v := by
  obtain ⟨i, hi⟩ := List.mem_iff_getElem?.mp (List.mem_of_find?_eq_some h)
  rw [values_getElem?] at hi
  obtain ⟨⟨name, v⟩, he, rfl⟩ := Option.map_eq_some_iff.mp hi
  have hname := List.find?_some h
  obtain rfl : name = entry := by simpa using hname
  exact ⟨i, v, he, rfl⟩

/-- A state reads the entries of an enum as they were declared: by name, out of the entry, and by
iteration. -/
structure ReadIn (d : EnumDecl) (u : State) : Prop where
  byName : ∀ entry w, d.find? entry = some w → ∃ i v, d.entries[i]? = some (entry, v) ∧
    w = .entry d.name entry i v ∧ ∀ (fuel : Nat) (hint : Option Ty) (e : Expr),
      e.kind = .enumEntry d.name entry →
        (Evaluator.ofFuel .standard (fuel + 1)).eval hint e u = .ok w u ∧
        ∀ read : Expr, read.kind = .getMember e "value" ∨ read.kind = .unary .unwrap e →
          (Evaluator.ofFuel .standard (fuel + 2)).eval hint read u = .ok v u
  byIteration : u.env.namedType? d.name = some (.enum d.name) → ∀ (fuel : Nat) (e : Expr),
    e.kind = .type (.named d.name) →
      (Evaluator.ofFuel .standard fuel).iterationValues e u = .ok d.values u
  inOrder : ∀ i, d.values[i]? = d.entries[i]?.map fun e => Value.entry d.name e.1 i e.2

end EnumDecl

namespace Evaluator

theorem eval_enumEntry {u : State} {d : EnumDecl} {entry : String} {w : Value}
    (hd : u.env.enum? d.name = some d) (hw : d.find? entry = some w) {e : Expr}
    (he : e.kind = .enumEntry d.name entry) (fuel : Nat) (hint : Option Ty) :
    (ofFuel .standard (fuel + 1)).eval hint e u = .ok w u := by
  refine Run.atSpan_ok e.span ?_
  rw [he]
  show (Run.require (.undeclared .enum d.name) (u.env.enum? d.name) >>= fun decl =>
    Run.require (.noMember d.name entry) (decl.find? entry)) u = .ok w u
  rw [hd]
  show Run.require (.noMember d.name entry) (d.find? entry) u = .ok w u
  rw [hw]
  rfl

theorem eval_entryValue {u : State} {enum entry : String} {ordinal : Nat} {v : Value} {e : Expr}
    {fuel : Nat}
    (he : (ofFuel .standard fuel).eval none e u = .ok (.entry enum entry ordinal v) u)
    {read : Expr} (hread : read.kind = .getMember e "value" ∨ read.kind = .unary .unwrap e)
    (hint : Option Ty) : (ofFuel .standard (fuel + 1)).eval hint read u = .ok v u := by
  refine Run.atSpan_ok read.span ?_
  rcases hread with hread | hread
  · rw [hread]
    exact Run.bind_ok he _
  · rw [hread]
    exact Run.bind_ok he _

end Evaluator

/-- Where an enum goes by its name, its entries are read as they were declared. -/
theorem EnumDecl.readIn {u : State} {d : EnumDecl} (hd : u.env.enum? d.name = some d) :
    d.ReadIn u where
  byName entry w hw := by
    obtain ⟨i, v, hi, rfl⟩ := EnumDecl.find?_some hw
    refine ⟨i, v, hi, rfl, fun fuel hint e he => ?_⟩
    have heval := fun hint => Evaluator.eval_enumEntry hd hw he fuel hint
    exact ⟨heval hint, fun read hread => Evaluator.eval_entryValue (heval none) hread hint⟩
  byIteration htype fuel e he := by
    unfold Evaluator.iterationValues
    rw [he]
    have hresolve : (Evaluator.ofFuel .standard fuel).resolveType (.named d.name) u =
        .ok (.enum d.name) u := by
      show Run.require (.undeclared .type d.name) (u.env.namedType? d.name) u = _
      rw [htype]
      rfl
    refine (Run.bind_ok hresolve _).trans ?_
    show (Run.require (.undeclared .enum d.name) (u.env.enum? d.name) >>= fun decl =>
      Pure.pure decl.values) u = _
    rw [hd]
    rfl
  inOrder := d.values_getElem?

/-- At every moment after the declaration of an enum its entries are those of the declaration, and
whatever the stack of scopes is, they are read so where the enum goes by its name. The value of an
entry has kept its structure too, if nothing can be stored through it. -/
theorem Reaches.entries_kept {settings : Settings} {s t : State}
    (h : Reaches .standard (.initial settings) s) (hlater : Later .standard s t) {i : Nat}
    {sc : Scope} (hsc : s.env.scopes[i]? = some sc) {d : EnumDecl} (hd : d ∈ sc.enums) :
    (∃ sc', t.env.scopes[i]? = some sc' ∧ d ∈ sc'.enums) ∧
      (∀ stack, (t.onStack stack).env.enum? d.name = some d → d.ReadIn (t.onStack stack)) ∧
        ∀ e ∈ d.entries, e.2.Frozen s.store → e.2.Alike s.store t.store e.2 := by
  have hgrows := hlater.grows fun _ => Library.standard_framed
  obtain ⟨sc', hsc', hextends⟩ := hgrows.scopes i sc hsc
  refine ⟨⟨sc', hsc', hextends.enums.mem hd⟩, fun stack hvisible => EnumDecl.readIn hvisible,
    fun e he hfrozen => ?_⟩
  exact hfrozen.alike h.typed.store (h.typed.entries i sc hsc d hd e he) hgrows.store

/-- The program `data P { const a int }  data Q { a int }  enum E of P { X { 1 } }
enum F of Q { X { 1 } }`. -/
def declaringEnums : List Stmt :=
  [.generated (.data "P" [⟨"a", .prim .int, true, none⟩]),
    .generated (.data "Q" [⟨"a", .prim .int, false, none⟩]),
    .generated (.enum "E" (.data "P") [⟨"X", [.generated (.literal (.int 1))]⟩]),
    .generated (.enum "F" (.data "Q") [⟨"X", [.generated (.literal (.int 1))]⟩])]

/-- The program `var p as Q = F.X.value  p.a = 5`. -/
def storingThroughEntry : List Stmt :=
  [.generated (.declare "p" (.named "Q")
      (.generated (.getMember (.generated (.enumEntry "F" "X")) "value")) false),
    .generated (.expression (.generated (.setMember (.generated (.name "p")) "a"
      (.generated (.literal (.int 5))))))]

theorem entries_kept_storingThroughEntry :
    let run := fun program s =>
      ((Evaluator.interrupted .standard (fun _ => false) 6).run program).state s
    let s := run declaringEnums (.initial ⟨false, none, true⟩)
    let t := run storingThroughEntry s
    Reaches .standard (.initial ⟨false, none, true⟩) s ∧ Later .standard s t ∧
      ∃ d, t.env.enum? "E" = some d ∧ d.ReadIn t ∧
        ∃ e ∈ d.entries, e.2.Frozen s.store ∧ e.2.Alike s.store t.store e.2 := by
  intro run s t
  have h : Reaches .standard (.initial ⟨false, none, true⟩) s :=
    .run declaringEnums (fun _ => false) 6 .refl
  have hlater : Later .standard s t := .run s storingThroughEntry (fun _ => false) 6
  have hglobal : s.env.current = [⟨0⟩] ∧ t.env.current = [⟨0⟩] := by decide +kernel
  have hsize : 0 < s.env.scopes.size := by decide +kernel
  have hlength : (s.env.scope ⟨0⟩).enums.length = (t.env.scope ⟨0⟩).enums.length := by
    decide +kernel
  have hchecked : (s.env.enum? "E").any (fun d =>
      d.entries.any fun e => e.2.isFrozen s.store 2) = true := by decide +kernel
  clear_value t s
  have hsearch : ∀ u : State, u.env.current = [⟨0⟩] →
      u.env.enum? "E" = (u.env.scope ⟨0⟩).enum? "E" := by
    intro u hu
    simp [Environment.enum?, Environment.search, hu]
  have hsc : s.env.scopes[0]? = some (s.env.scope ⟨0⟩) := by simp [Environment.scope, hsize]
  -- the second program declares no enum
  have hsame : (s.env.scope ⟨0⟩).enums = (t.env.scope ⟨0⟩).enums := by
    obtain ⟨sc', hsc', hextends⟩ :=
      (hlater.grows fun _ => Library.standard_framed).scopes 0 _ hsc
    have hsc'' : t.env.scope ⟨0⟩ = sc' := by simp [Environment.scope, hsc']
    rw [hsc''] at hlength ⊢
    exact hextends.enums.eq_of_length hlength
  obtain ⟨d, hd, hany⟩ := (Option.any_eq_true _ _).mp hchecked
  obtain ⟨e, he, hfrozen⟩ := List.any_eq_true.mp hany
  have hfound : (s.env.scope ⟨0⟩).enum? "E" = some d := (hsearch s hglobal.1).symm.trans hd
  obtain ⟨-, hreads, halike⟩ :=
    Reaches.entries_kept h hlater hsc (List.mem_of_find?_eq_some hfound)
  have hvisible : t.env.enum? "E" = some d := by
    rw [hsearch t hglobal.2, Scope.enum?, ← hsame]
    exact hfound
  have hname : d.name = "E" := by simpa using List.find?_some hfound
  refine ⟨h, hlater, d, hvisible, hreads t.env.active (by rw [hname]; exact hvisible), e, he, ?_⟩
  exact ⟨Value.frozen_of_isFrozen hfrozen, halike e he (Value.frozen_of_isFrozen hfrozen)⟩

/-- A store through the handle that an entry hands out changes the value of the entry. -/
theorem entry_storingThroughEntry :
    let run := fun program s =>
      ((Evaluator.interrupted .standard (fun _ => false) 6).run program).state s
    let s := run declaringEnums (.initial ⟨false, none, true⟩)
    let t := run storingThroughEntry s
    Reaches .standard (.initial ⟨false, none, true⟩) s ∧ Later .standard s t ∧
      ∃ d ∈ (s.env.scope ⟨0⟩).enums, ∃ e ∈ d.entries, ¬ e.2.Alike s.store t.store e.2 := by
  intro run s t
  refine ⟨.run declaringEnums (fun _ => false) 6 .refl,
    .run s storingThroughEntry (fun _ => false) 6, ?_⟩
  have hchecked : ((s.env.scope ⟨0⟩).enums.any fun d => d.entries.any fun e =>
      t.store.textWithin 1 e.2 != s.store.textWithin 1 e.2) = true := by decide +kernel
  obtain ⟨d, hd, hany⟩ := List.any_eq_true.mp hchecked
  obtain ⟨e, he, htext⟩ := List.any_eq_true.mp hany
  exact ⟨d, hd, e, he, fun halike => bne_iff_ne.mp htext (halike.text 1)⟩

end BasicScript
