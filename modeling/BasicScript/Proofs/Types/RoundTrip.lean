import BasicScript.Library.Standard
import BasicScript.Proofs.Control.Arrival
import BasicScript.Proofs.Numbers.Decimal
import BasicScript.Proofs.Numbers.Whole

/-! # Casts and their inverses

A whole number, a character and a truth value are read back from what they are
written as. A character comes back from its code point, and a whole number
from every kind that is no narrower than its own. To a narrower kind leads only
one way: what counts is the last width, whatever was passed before it.
-/

namespace BasicScript

/-- The keywords of values that have no fraction and no parts. -/
def Primitive.isDiscrete : Primitive → Bool
  | .bool | .char | .byte | .short | .int | .long => true
  | .any | .none | .float | .double | .string => false

/-- Casting to a keyword comes to an end and makes this of a value, whatever the store is. -/
def Value.CastsTo (v : Value) (p : Primitive) (w : Value) : Prop :=
  ∀ σ : Store, (Ty.prim p).castEnds σ v = true ∧ (Ty.prim p).cast σ v = some (w, σ)

/-- The expression `e as p`. -/
def Expr.as (e : Expr) (p : Primitive) : Expr :=
  .generated (.binary .as e (.generated (.type (.prim p))))

variable {v w : Value} {p : Primitive} {n : Number} {j k : NumericKind}

namespace Value.CastsTo

theorem of_primitive (hv : v.isMissing = false) (hends : ∀ σ : Store, σ.textEnds v = true)
    (h : ∀ σ, Ty.castPrimitive? σ p v = some w) : v.CastsTo p w := by
  intro σ
  constructor
  · cases p with
    | string => exact hends σ
    | _ => rfl
  · cases v with
    | empty => cases hv
    | _ => simp only [Ty.cast, h, Option.map_some]

/-- Everything has a text, and a scalar has the same one in every store. -/
theorem text {s : String} (hv : v.isMissing = false) (hends : ∀ σ : Store, σ.textEnds v = true)
    (h : ∀ σ : Store, σ.text v = s) : v.CastsTo .string (.string s) := by
  refine of_primitive hv hends fun σ => ?_
  rw [Ty.castPrimitive?, h]

theorem toNumber {m : Number} (hv : v.isMissing = false)
    (hends : ∀ σ : Store, σ.textEnds v = true) (h : Ty.castNumber? k v = some m) :
    v.CastsTo k.primitive (.number m) := by
  refine of_primitive hv hends fun σ => ?_
  cases k <;>
    simp only [NumericKind.primitive, Ty.castPrimitive?, Primitive.kind?, h, Option.map_some]

theorem number (n : Number) (k : NumericKind) :
    (Value.number n).CastsTo k.primitive (.number (n.convert k)) :=
  toNumber rfl (fun _ => rfl) rfl

end Value.CastsTo

namespace Store

variable (σ : Store)

theorem text_bool (b : Bool) : σ.text (.bool b) = if b then "true" else "false" := rfl

theorem text_char (c : Char) : σ.text (.char c) = String.singleton c := rfl

theorem text_number (n : Number) : σ.text (.number n) = n.text := rfl

end Store

theorem Number.text_whole (h : n.kind.isIntegral = true) : n.text = n.toInt.repr := by
  cases n <;> first | rfl | cases h

theorem readInt64?_text (h : n.kind.isIntegral = true) :
    readInt64? (trimBlank n.text.toList) = some n.toInt := by
  obtain ⟨hmin, hmax⟩ := Number.toInt_reach h
  have hreach := NumericKind.reach_mono (NumericKind.le_long h)
  have hlong : NumericKind.long.reach = Int.pow 2 63 := rfl
  rw [Number.text_whole h]
  exact readInt64?_repr (by omega) (by omega)

/-- A whole number is read back from its digits. -/
theorem number_castsBack (h : n.kind.isIntegral = true) :
    (Value.string n.text).CastsTo n.kind.primitive (.number n) := by
  refine .toNumber rfl (fun _ => rfl) ?_
  simp only [Ty.castNumber?, h, if_true, readInt64?_text h, Option.map_some, Number.ofInt_toInt h]

theorem Primitive.admits_discrete (hp : p.isDiscrete = true) (hv : p.admits v = true) :
    (∃ b, p = .bool ∧ v = .bool b) ∨ (∃ c, p = .char ∧ v = .char c) ∨
      ∃ n : Number, p = n.kind.primitive ∧ n.kind.isIntegral = true ∧ v = .number n := by
  cases v with
  | bool b => exact .inl ⟨b, by cases p <;> simp_all [admits, isDiscrete], rfl⟩
  | char c => exact .inr (.inl ⟨c, by cases p <;> simp_all [admits, isDiscrete], rfl⟩)
  | number n =>
    refine .inr (.inr ⟨n, ?_⟩)
    cases n <;> cases p <;>
      simp_all [admits, isDiscrete, kind?, Number.kind, NumericKind.isIntegral,
        NumericKind.primitive]
  | _ => cases p <;> simp_all [admits, isDiscrete]

/-- Each value of these keywords is read back from its text. -/
theorem castsBack (hp : p.isDiscrete = true) (hv : p.admits v = true) :
    ∃ text, v.CastsTo .string (.string text) ∧ (Value.string text).CastsTo p v := by
  obtain ⟨b, rfl, rfl⟩ | ⟨c, rfl, rfl⟩ | ⟨n, rfl, hn, rfl⟩ := Primitive.admits_discrete hp hv
  · refine ⟨_, .text rfl (fun _ => rfl) fun σ => σ.text_bool b,
      .of_primitive rfl (fun _ => rfl) fun σ => ?_⟩
    cases b <;> rfl
  · refine ⟨_, .text rfl (fun _ => rfl) fun σ => σ.text_char c,
      .of_primitive rfl (fun _ => rfl) fun σ => ?_⟩
    simp only [Ty.castPrimitive?, String.toList_singleton]
  · exact ⟨_, .text rfl (fun _ => rfl) fun σ => σ.text_number n, number_castsBack hn⟩

/-- A code point leads back to its character. -/
theorem charOfCode?_toNat (c : Char) : charOfCode? c.toNat = some c := by
  have hvalid : (c.toNat : Int).toNat.isValidChar := c.valid
  rw [charOfCode?, if_pos ⟨Int.natCast_nonneg _, hvalid⟩, Int.toNat_natCast, Char.ofNat_toNat]

theorem char_castsBack (c : Char) (hk : k = .int ∨ k = .long) :
    ∃ n : Number, n.kind = k ∧ n.toInt = c.toNat ∧ (Value.char c).CastsTo k.primitive (.number n) ∧
      (Value.number n).CastsTo .char (.char c) := by
  have hint : k.isIntegral = true := by rcases hk with rfl | rfl <;> rfl
  have hcode : (Number.ofInt c.toNat k).toInt = c.toNat := by
    have hmax : c.toNat < 1114112 := c.valid.elim (fun h => Nat.lt_trans h (by decide)) (·.2)
    have hreach : (1114112 : Int) ≤ k.reach := by rcases hk with rfl | rfl <;> decide
    exact Number.toInt_ofInt hint (by omega) (by omega)
  refine ⟨.ofInt c.toNat k, Number.kind_ofInt _ _, hcode, .toNumber rfl (fun _ => rfl) rfl,
    .of_primitive rfl (fun _ => rfl) fun σ => ?_⟩
  simp only [Ty.castPrimitive?, Number.integral?, Number.kind_ofInt, hint, if_true, hcode,
    charOfCode?_toNat, Option.map_some]

namespace Number

/-- The way back down from a wider kind ends where it began. -/
theorem convert_back (hk : k.isIntegral = true) (h : n.kind ≤ k) :
    (n.convert k).convert n.kind = n := by
  have hn := NumericKind.isIntegral_of_le h hk
  rw [convert_integral _ hn, toInt_convert h hk, ofInt_toInt hn]

/-- Where the way down is taken in two steps, only the last width counts. -/
theorem convert_narrow (hk : k.isIntegral = true) (h : j ≤ k) :
    (n.convert k).convert j = n.convert j := by
  have hj := NumericKind.isIntegral_of_le h hk
  have hwidth : j.width ≤ k.width := by
    cases j <;> cases k <;> first | decide | exact absurd h (by decide)
  apply ext_toInt
  · rwa [kind_convert]
  · rw [kind_convert, kind_convert]
  · rw [convert_integral _ hj, convert_integral _ hj, convert_integral _ hk, toInt_ofInt_bmod _ hj,
      toInt_ofInt_bmod _ hk, toInt_ofInt_bmod _ hj,
      Int.bmod_bmod_of_dvd (Nat.pow_dvd_pow 2 hwidth)]

end Number

namespace Evaluator

open Run (Arrives)

variable {library : Library} {s t : State} {e : Expr}

theorem arrives_as (hv : v.CastsTo p w)
    (he : Arrives (fun fuel => (ofFuel library fuel).eval none e) s v t) (hint : Option Ty) :
    Arrives (fun fuel => (ofFuel library fuel).eval hint (e.as p)) s w t := by
  apply arrives_eval
  show Arrives (fun fuel => (ofFuel library fuel).castExpr e (.generated (.type (.prim p)))) s w t
  filter_upwards [he] with fuel he
  have htype : (ofFuel library fuel).typeOperand .as (.generated (.type (.prim p))) t =
      .ok (.prim p) t := rfl
  refine (Run.bind_ok he _).trans ((Run.bind_ok htype _).trans ?_)
  exact Run.cast_ok (hv t.store).1 (hv t.store).2

/-- Casts come back. Every `bool`, `char`, `byte`, `short`, `int` and `long` is read back from its
text, and a character from its code point. A whole number is cut down to the one number of the
kind that differs from it by a multiple of two to the power of the width; so it comes back from
every kind that is no narrower, and passing such a kind on the way down makes no difference. An
expression with `as` has the value that the cast makes. -/
theorem casts_round_trip (library : Library) :
    (∀ (p : Primitive) (v : Value), p.isDiscrete = true → p.admits v = true →
      ∃ text, v.CastsTo .string (.string text) ∧ (Value.string text).CastsTo p v) ∧
    (∀ (c : Char) (k : NumericKind), k = .int ∨ k = .long →
      ∃ n : Number, n.kind = k ∧ n.toInt = c.toNat ∧
        (Value.char c).CastsTo k.primitive (.number n) ∧
        (Value.number n).CastsTo .char (.char c)) ∧
    (∀ (n : Number) (k : NumericKind), n.kind.isIntegral = true → k.isIntegral = true →
      ∃ m : Number, m.kind = k ∧ m.toInt = n.toInt.bmod (2 ^ k.width) ∧
        (Value.number n).CastsTo k.primitive (.number m) ∧
        (n.kind ≤ k → m.toInt = n.toInt ∧
          (Value.number m).CastsTo n.kind.primitive (.number n)) ∧
        ∀ j, j ≤ k → ∃ l, (Value.number n).CastsTo j.primitive (.number l) ∧
          (Value.number m).CastsTo j.primitive (.number l)) ∧
    (∀ (v w : Value) (p : Primitive), v.CastsTo p w → ∀ (s t : State) (e : Expr),
      Arrives (fun fuel => (ofFuel library fuel).eval none e) s v t → ∀ hint : Option Ty,
        Arrives (fun fuel => (ofFuel library fuel).eval hint (e.as p)) s w t) := by
  refine ⟨fun _ _ => castsBack, fun c _ => char_castsBack c, fun n k hn hk => ?_,
    fun _ _ _ hv _ _ _ he hint => arrives_as hv he hint⟩
  refine ⟨n.convert k, Number.kind_convert _ _, ?_, .number n k, fun hwide => ?_,
    fun j hnarrow => ?_⟩
  · rw [Number.convert_integral n hk, Number.toInt_ofInt_bmod _ hk]
  · have hback := Value.CastsTo.number (n.convert k) n.kind
    rw [Number.convert_back hk hwide] at hback
    exact ⟨Number.toInt_convert hwide hk, hback⟩
  · have hdown := Value.CastsTo.number (n.convert k) j
    rw [Number.convert_narrow hk hnarrow] at hdown
    exact ⟨n.convert j, .number n j, hdown⟩

/-- The least `long` is read back from its text. -/
theorem casts_round_trip_leastLong :
    let least : Expr := .generated (.literal (.long Int64.minValue))
    let s := State.initial ⟨false, none, true⟩
    Arrives (fun fuel => (ofFuel .standard fuel).eval none ((least.as .string).as .long)) s
      (.number (.long Int64.minValue)) s := by
  intro least s
  obtain ⟨hback, -, -, has⟩ := casts_round_trip .standard
  obtain ⟨text, hwritten, hread⟩ := hback .long (.number (.long Int64.minValue)) rfl rfl
  have hleast := arrives_literal .standard none .nowhere (.long Int64.minValue) s
  exact has _ _ _ hread _ _ _ (has _ _ _ hwritten _ _ _ hleast none) none

end Evaluator

end BasicScript
