import BasicScript.Proofs.Law.Composite

/-! # Statements under a law

A declaration obeys a law if what it declares is as the grammar of the law
says; any other form of statement, if its parts do.
-/

namespace BasicScript

/-- Loops that end by a test or by a signal alone. -/
def StmtKind.repeats : StmtKind → Bool
  | .whileLoop .. | .untilLoop .. | .forCount .. => true
  | _ => false

/-- The statements of the blocks of a form are smaller than the form. -/
theorem StmtKind.sizeOf_part {kind : StmtKind} {s : Stmt} (h : s ∈ kind.parts) :
    sizeOf s < sizeOf kind := by
  cases kind with
  | block body | doBlock _ body | whileLoop _ _ body | untilLoop _ _ body
  | forCount _ _ _ _ _ _ body | forEach _ _ _ _ body | forEachOf _ _ _ body =>
    have hsize := List.sizeOf_lt_of_mem (show s ∈ body from h)
    simp
    omega
  | ifElse branches otherwise =>
    rcases List.mem_append.mp h with hbranch | hother
    · obtain ⟨⟨test, body⟩, hb, hs⟩ := List.mem_flatMap.mp hbranch
      have hbody := List.sizeOf_lt_of_mem hb
      have hsize := List.sizeOf_lt_of_mem (show s ∈ body from hs)
      simp only [Branch.mk.sizeOf_spec, StmtKind.ifElse.sizeOf_spec] at hbody ⊢
      omega
    · cases otherwise with
      | none => exact nomatch hother
      | some body =>
        have hsize := List.sizeOf_lt_of_mem (show s ∈ body from hother)
        simp only [StmtKind.ifElse.sizeOf_spec, Option.some.sizeOf_spec]
        omega
  | switch label subject cases =>
    obtain ⟨⟨test, body⟩, hc, hs⟩ := List.mem_flatMap.mp h
    have hbody := List.sizeOf_lt_of_mem hc
    have hsize := List.sizeOf_lt_of_mem (show s ∈ body from hs)
    simp only [Case.mk.sizeOf_spec, StmtKind.switch.sizeOf_spec] at hbody ⊢
    omega
  | _ => exact nomatch h

namespace Law

variable {ι : Type} {L : Law ι} {r : ι → Evaluator} {room : Option Nat} {p : Site}

/-- What evaluators need besides the parts of a statement: natives, and values of all types. -/
structure Ready (L : Law ι) (r : ι → Evaluator) (room : Option Nat) : Prop where
  library : L.Stocked r
  makes : ∀ t, L.Makes r room t

open Holds (pure fail read of_local)

section Declarations

theorem bind (name : String) (type : Ty) (v : Value) (constant : Bool) :
    L.Runs room p fun _ => Evaluator.bind name type v constant := by
  refine (of_local (Evaluator.bindingType_local v type)).bind fun t _ => ?_
  refine (of_local (.conform t v)).bind fun w _ => ?_
  exact (Holds.declareVariable name _).bind fun _ _ => pure trivial

theorem bindEach (constant : Bool) {names : List (String × TypeExpr)} (vs : List Value)
    (h : ∀ n ∈ names, ∀ e ∈ n.2.sizes, L.Evals r room e) :
    L.Runs room p fun i => (r i).bindEach constant names vs := by
  induction names generalizing vs with
  | nil => exact pure trivial
  | cons n names ih =>
    rw [List.forall_mem_cons] at h
    cases vs with
    | nil => exact pure trivial
    | cons v vs =>
      refine (resolveType _ h.1).bind fun t _ => (bind n.1 t v constant).bind fun _ _ => ?_
      exact ih vs h.2

theorem bindAll {names : List (String × TypeExpr)} (vs : List Value) (constant : Bool)
    (h : ∀ n ∈ names, ∀ e ∈ n.2.sizes, L.Evals r room e) :
    L.Runs room p fun i => (r i).bindAll names vs constant :=
  .guarded rfl (bindEach constant vs h)

theorem declareVariable (hr : L.Ready r room) (name : String) {written : TypeExpr} {init : Expr}
    (constant : Bool) (hinit : L.Evals r room init)
    (hwritten : ∀ e ∈ written.sizes, L.Evals r room e) :
    L.Runs room p fun i => (r i).declareVariable name written init constant := by
  refine (resolveType _ hwritten).bind fun t _ => (hinit p t.hint?).bind fun v _ => ?_
  refine .ite (fun _ => .ite (fun _ => .atSpan _ (fail rfl)) fun _ => ?_) fun _ => ?_
  · exact ((hr.makes t).default p).bind fun w _ => bind name t w constant
  · exact bind name t v constant

theorem parameters {params : List Param}
    (h : ∀ q ∈ params, ∀ e ∈ q.type.sizes, L.Evals r room e) :
    L.Holds room p (fun i => (r i).parameters params)
      (List.Forall₂ (fun (q : Param) (p : Parameter) =>
        p.default = q.default ∧ q.type.Gives L.named p.type) params) :=
  Holds.mapM params fun q hq => (resolveType _ (h q hq)).bind fun _ ht => pure ⟨rfl, ht⟩

theorem returnType {written : TypeExpr}
    (h : ∀ e ∈ written.sizes, L.Evals r room e) :
    L.Runs room p fun i => (r i).returnType written := by
  cases written with
  | inferred => exact pure trivial
  | _ => exact (resolveType _ h).runs

theorem requireNative (hr : L.Ready r room) (signature : String) (returns : Ty) :
    L.Holds room p (fun i => (r i).requireNative signature returns)
      fun _ => Library.standard.Provides signature returns := by
  simp only [Evaluator.requireNative_eq, hr.library.returns]
  cases hlookup : Library.standard.lookup signature with
  | none => exact fail rfl
  | some native => exact .ite (fun h => pure ⟨native, hlookup, h⟩) fun _ => fail rfl

/-- The head of the current path is the current scope. -/
theorem head_path {id head : ScopeId} (hid : id = (L.path p).headD ⟨0⟩)
    (hhead : head ∈ (L.path p).head?) : head = id := by
  rw [hid, List.headD_eq_head?_getD, Option.mem_def.mp hhead, Option.getD_some]

theorem declareSub (hr : L.Ready r room) {d : SubDef} {span : Span}
    (hd : L.stmt (.mk (.sub d) span)) (hreturns : ∀ e ∈ d.returns.sizes, L.Evals r room e)
    (hparams : ∀ q ∈ d.params, ∀ e ∈ q.type.sizes, L.Evals r room e) :
    L.Runs room p fun i => (r i).declareSub d := by
  refine (parameters hparams).bind fun params hdefaults => (returnType hreturns).bind fun ty _ => ?_
  let signature := signatureText d.name (params.map (·.type))
  have hdeclare : (d.builtin = true → Library.standard.Provides signature ty) →
      L.Runs room p fun _ => (do
        let scope ← Run.read fun s => s.env.current
        let sub : Sub := ⟨d.name, params, ty, d.body, signature, scope, d.builtin⟩
        Run.declare .sub signature (·.takesSub d.name signature) (·.addSub sub) : Run Unit) := by
    intro hprovides
    refine Holds.current.bind fun scope hscope => Holds.declare
      (fun sc => !(sc.overloads d.name).any (·.signature == signature))
      fun id sc hid hsc => ⟨fun sub hsub => ?_, hsc.datas, hsc.names⟩
    rcases List.mem_append.mp hsub with hold | hnew
    · exact hsc.subs sub hold
    · rw [List.mem_singleton.mp hnew]
      refine ⟨L.ofSub hd hdefaults hprovides, fun head hhead => head_path hid ?_⟩
      rwa [← hscope]
  refine .ite (fun _ => (requireNative hr _ ty).bind fun _ hprovides => ?_) fun hbuiltin => ?_
  · exact hdeclare fun _ => hprovides
  · exact hdeclare fun h => absurd h hbuiltin

theorem declareData {name : String} {fields : List FieldDef} {span : Span}
    (hd : L.stmt (.mk (.data name fields) span))
    (hfields : ∀ f ∈ fields, ∀ e ∈ f.type.sizes, L.Evals r room e) :
    L.Runs room p fun i => (r i).declareData name fields := by
  refine (Holds.mapM (R := fun (f : FieldDef) (g : Field) =>
    g.default = f.default ∧ f.type.Gives L.named g.type) fields fun f hf => ?_).bind
      fun built hbuilt => ?_
  · exact (resolveType _ (hfields f hf)).bind fun t ht => pure ⟨rfl, ht⟩
  · refine Holds.current.bind fun scope hscope => Holds.declare
      (fun sc => (sc.data? name).isNone)
      fun id sc hid hsc => ⟨hsc.subs, fun d hmem => ?_, hsc.names⟩
    rcases List.mem_cons.mp hmem with rfl | hold
    · refine ⟨L.ofData hd hbuilt, fun head hhead => head_path hid ?_⟩
      rwa [← hscope]
    · exact hsc.datas d hold

theorem declareAlias {name : String} {written : TypeExpr} {span : Span}
    (hd : L.stmt (.mk (.alias name written) span))
    (hwritten : ∀ e ∈ written.sizes, L.Evals r room e) :
    L.Runs room p fun i => (r i).declareAlias name written := by
  refine (resolveType _ hwritten).bind fun t ht => Holds.declare
    (fun sc => (sc.aliases.lookup name).isNone)
    fun id sc _ hsc => ⟨hsc.subs, hsc.datas, fun a ha => ?_⟩
  rcases List.mem_cons.mp ha with rfl | hold
  · exact L.ofAlias hd ht
  · exact hsc.names a hold

theorem ordinalValue (hr : L.Ready r room) (t : Ty) (ordinal : Nat) :
    L.Runs room p fun i => (r i).ordinalValue t ordinal := by
  unfold Evaluator.ordinalValue
  cases t with
  | inferred => exact pure trivial
  | prim q =>
    simp only [Ty.kind?]
    cases q.kind? with
    | none => exact (hr.makes _).default p
    | some k => exact .ite (fun _ => pure trivial) fun _ => (hr.makes _).default p
  | _ => exact (hr.makes _).default p

theorem basicEntry (hr : L.Ready r room) (t : Ty) (ordinal : Nat) {elements : List Expr}
    (h : ∀ e ∈ elements, L.Evals r room e) :
    L.Runs room p fun i => (r i).basicEntry t ordinal elements := by
  have helement : L.Runs room p fun i => (r i).entryElement t ordinal elements := by
    cases elements with
    | nil => exact ordinalValue hr t ordinal
    | cons e rest => exact h e List.mem_cons_self p _
  refine helement.bind fun v _ => ?_
  cases t with
  | inferred => exact .ite (fun _ => fail rfl) fun _ => pure trivial
  | _ => exact of_local (.conform _ v)

theorem entryValues {value : ι → Nat → List Expr → Run Value} {entries : List EntryDef}
    (h : ∀ e ∈ entries, ∀ n, L.Runs room p fun i => value i n e.elements) (ordinal : Nat) :
    L.Runs room p fun i => Evaluator.entryValues (value i) ordinal entries := by
  induction entries generalizing ordinal with
  | nil => exact pure trivial
  | cons e rest ih =>
    rw [List.forall_mem_cons] at h
    exact (h.1 ordinal).bind fun v _ => (ih h.2 (ordinal + 1)).bind fun _ _ => pure trivial

theorem declareEnum (hr : L.Ready r room) {name : String} {kind : EnumKind}
    {entries : List EntryDef} {span : Span} (hd : L.stmt (.mk (.enum name kind entries) span))
    (hkind : ∀ written, kind = .basic written → ∀ e ∈ written.sizes, L.Evals r room e)
    (hentries : ∀ e ∈ entries, ∀ element ∈ e.elements, L.Evals r room element) :
    L.Runs room p fun i => (r i).declareEnum name kind entries := by
  have hbuilt : L.Runs room p fun i => (r i).enumEntries kind entries := by
    cases kind with
    | basic written =>
      refine (resolveType _ (hkind written rfl)).bind fun t _ => ?_
      refine (entryValues (fun e he n => ?_) 0).bind fun _ _ => pure trivial
      exact basicEntry hr t n (hentries e he)
    | data data =>
      refine (resolveType (.named data) fun _ he => nomatch he).bind fun t _ => ?_
      refine (entryValues (fun e he n => ?_) 0).bind fun _ _ => pure trivial
      exact instantiate (hr.makes t) (hentries e he)
  refine hbuilt.bind fun built _ => Holds.declare (fun sc => (sc.enum? name).isNone)
    fun id sc _ hsc => ⟨hsc.subs, hsc.datas, fun a ha => ?_⟩
  rcases List.mem_append.mp ha with halias | henum
  · exact hsc.names a (List.mem_append_left _ halias)
  · rcases List.mem_cons.mp henum with rfl | hold
    · exact L.ofEnumName hd
    · exact hsc.names a (List.mem_append_right _ hold)

end Declarations

section Control

variable {body : List Stmt} {e : Expr}

theorem test (h : L.Evals r room e) : L.Runs room p fun i => (r i).test e := by
  refine (h p none).bind fun v _ => ?_
  cases v with
  | bool b => exact pure trivial
  | _ => exact .atSpan _ ((of_local (.typeOf _)).bind fun _ _ => fail rfl)

theorem block (h : ∀ s ∈ body, L.Executes r room s) : L.Runs room p fun i => (r i).block body := by
  induction body with
  | nil => exact pure trivial
  | cons stmt rest ih =>
    rw [List.forall_mem_cons] at h
    refine (h.1 p).bind fun flow _ => ?_
    cases flow with
    | normal => exact ih h.2
    | signal s => exact pure trivial

theorem scopedBlock (h : ∀ s ∈ body, L.Executes r room s) :
    L.Runs room p fun i => (r i).scopedBlock body := .inScope fun _ => block h

theorem branches {otherwise : Option (List Stmt)} {bs : List Branch}
    (hotherwise : ∀ s ∈ otherwise.getD [], L.Executes r room s)
    (htests : ∀ test body, .mk test body ∈ bs → L.Evals r room test)
    (hbodies : ∀ test body, .mk test body ∈ bs → ∀ s ∈ body, L.Executes r room s) :
    L.Runs room p fun i => (r i).branches otherwise bs := by
  induction bs with
  | nil =>
    cases otherwise with
    | none => exact pure trivial
    | some body => exact scopedBlock hotherwise
  | cons branch rest ih =>
    obtain ⟨first, body⟩ := branch
    refine (test (htests first body List.mem_cons_self)).bind fun b _ => .ite (fun _ => ?_)
      fun _ => ih (fun t b hb => htests t b (List.mem_cons_of_mem _ hb))
        fun t b hb => hbodies t b (List.mem_cons_of_mem _ hb)
    exact scopedBlock (hbodies first body List.mem_cons_self)

theorem anyEqual (subject : Value) {values : List Expr} (h : ∀ e ∈ values, L.Evals r room e) :
    L.Runs room p fun i => (r i).anyEqual subject values := by
  induction values with
  | nil => exact pure trivial
  | cons e rest ih =>
    rw [List.forall_mem_cons] at h
    refine (h.1 p none).bind fun v _ => ?_
    refine (of_local (.equalEnds subject v)).bind fun _ _ =>
      (of_local (.read fun σ => σ.equal subject v)).bind fun equal _ => ?_
    exact .ite (fun _ => pure trivial) fun _ => ih h.2

theorem caseMatches (subject : Value) {test : CaseTest}
    (h : ∀ e, sizeOf e < sizeOf test → L.Evals r room e) :
    L.Runs room p fun i => (r i).caseMatches subject test := by
  cases test with
  | values values =>
    refine anyEqual subject fun e he => h e ?_
    have hsize := List.sizeOf_lt_of_mem he
    simp only [CaseTest.values.sizeOf_spec]
    omega
  | type written inverted =>
    refine (resolveType _ fun e he => h e ?_).bind fun t _ => ?_
    · have hsize := TypeExpr.sizeOf_size he
      simp only [CaseTest.type.sizeOf_spec]
      omega
    · exact of_local (.read fun σ => t.admits σ subject != inverted)
  | otherwise => exact pure trivial

theorem cases (label : Option String) (subject : Value) {cs : List Case}
    (htests : ∀ test body, .mk test body ∈ cs → ∀ e, sizeOf e < sizeOf test → L.Evals r room e)
    (hbodies : ∀ test body, .mk test body ∈ cs → ∀ s ∈ body, L.Executes r room s) :
    L.Runs room p fun i => (r i).cases label subject cs := by
  induction cs with
  | nil => exact pure trivial
  | cons first rest ih =>
    obtain ⟨test, body⟩ := first
    have hrest : L.Runs room p fun i => (r i).cases label subject rest :=
      ih (fun t b hb => htests t b (List.mem_cons_of_mem _ hb))
        fun t b hb => hbodies t b (List.mem_cons_of_mem _ hb)
    refine (caseMatches subject (htests test body List.mem_cons_self)).bind fun b _ =>
      .ite (fun _ => ?_) fun _ => hrest
    refine (scopedBlock (hbodies test body List.mem_cons_self)).bind fun flow _ => ?_
    cases flow.caseStep label with
    | done => exact pure trivial
    | onward => exact hrest
    | pass s => exact pure trivial

theorem whileStep (label : Option String) (htest : L.Evals r room e)
    (h : ∀ s ∈ body, L.Executes r room s) :
    L.Runs room p fun i => (r i).whileStep label e body :=
  (test htest).bind fun _ _ => .ite
    (fun _ => (scopedBlock h).bind fun _ _ => pure trivial) fun _ => pure trivial

theorem untilStep (label : Option String) (htest : L.Evals r room e)
    (h : ∀ s ∈ body, L.Executes r room s) :
    L.Runs room p fun i => (r i).untilStep label e body := by
  refine (scopedBlock h).bind fun flow _ => ?_
  cases flow.loopStep label with
  | again => exact (test htest).bind fun _ _ => pure trivial
  | _ => exact pure trivial

theorem countStep (label : Option String) {increment : Expr} (htest : L.Evals r room e)
    (hincrement : L.Evals r room increment) (h : ∀ s ∈ body, L.Executes r room s) :
    L.Runs room p fun i => (r i).countStep label e increment body := by
  refine (whileStep label htest h).bind fun step _ => ?_
  cases step with
  | again => exact (hincrement p none).bind fun _ _ => pure trivial
  | _ => exact pure trivial

theorem countLoop (label : Option String) (name : String) (type : TypeExpr) (start limit : Expr)
    (step : Option Expr) (hall : ∀ e, L.Evals r room e) (hexhausts : L.exhausts) {n : Nat}
    (hrounds : ∀ᶠ i in L.along, (r i).rounds = n) (h : ∀ s ∈ body, L.Executes r room s) :
    L.Runs room p fun i => (r i).countLoop label name type start limit step body := by
  refine .inScope fun q => (resolveType _ fun e _ => hall e).bind fun t _ => ?_
  refine (hall start q t.hint?).bind fun v _ => (bind name t v false).bind fun _ _ => ?_
  exact .loop n (countStep label (hall _) (hall _) h) hexhausts hrounds

theorem eachStep (label : Option String) (name : String) (t : Ty) (v : Value)
    (h : ∀ s ∈ body, L.Executes r room s) :
    L.Runs room p fun i => (r i).eachStep label name t body v := by
  have hround : L.Runs room p fun i => Run.inScope
      (Evaluator.bind name t v false >>= fun _ => (r i).block body) :=
    .inScope fun q => (bind name t v false).bind fun _ _ => block h
  exact hround.bind fun flow _ => pure trivial

theorem eachOfStep (label : Option String) {names : List (String × TypeExpr)} (v : Value)
    (hnames : ∀ n ∈ names, ∀ e ∈ n.2.sizes, L.Evals r room e)
    (h : ∀ s ∈ body, L.Executes r room s) :
    L.Runs room p fun i => (r i).eachOfStep label names body v := by
  refine (of_local (.elementsOf v)).bind fun vs _ => ?_
  have hround : L.Runs room p fun i => Run.inScope
      ((r i).bindAll names vs false >>= fun _ => (r i).block body) :=
    .inScope fun q => (bindAll vs false hnames).bind fun _ _ => block h
  exact hround.bind fun flow _ => pure trivial

end Control

/-- A form of statement obeys a law if its expressions and its blocks do; where it repeats, all
expressions must, those that it generates included. -/
theorem stmtKind (hr : L.Ready r room) {kind : StmtKind} {span : Span}
    (hkind : L.stmt (.mk kind span)) (heval : ∀ e, sizeOf e < sizeOf kind → L.Evals r room e)
    (hexec : ∀ s ∈ kind.parts, L.Executes r room s)
    (hrepeats : kind.repeats = true → (∀ e, L.Evals r room e) ∧ L.exhausts ∧
      ∃ n, ∀ᶠ i in L.along, (r i).rounds = n) :
    L.Runs room p fun i => (r i).stmtKind kind := by
  -- sizes in written types, wherever these stand
  have hsizes : ∀ written : TypeExpr, sizeOf written < sizeOf kind →
      ∀ e ∈ written.sizes, L.Evals r room e :=
    fun written hwritten e he => heval e ((TypeExpr.sizeOf_size he).trans hwritten)
  have hnames : ∀ names : List (String × TypeExpr), sizeOf names < sizeOf kind →
      ∀ n ∈ names, ∀ e ∈ n.2.sizes, L.Evals r room e := by
    intro names hnames n hn
    have hmem := List.sizeOf_lt_of_mem hn
    obtain ⟨name, written⟩ := n
    simp only [Prod.mk.sizeOf_spec] at hmem
    exact hsizes written (by omega)
  have hiterable : ∀ iterable : Expr, sizeOf iterable < sizeOf kind →
      ∀ written, iterable.kind = .type written → ∀ e ∈ written.sizes, L.Evals r room e := by
    intro iterable hlt written hkind
    cases iterable
    cases hkind
    simp only [Expr.mk.sizeOf_spec, ExprKind.type.sizeOf_spec] at hlt
    exact hsizes written (by omega)
  cases kind with
  | none | breakTo | nextTo | leave => exact pure trivial
  | expression e => exact (heval e (by simp) p _).bind fun _ _ => pure trivial
  | declare name type init constant =>
    refine (declareVariable hr name constant (heval init ?_) (hsizes type ?_)).bind
      fun _ _ => pure trivial
    · simp only [StmtKind.declare.sizeOf_spec]
      omega
    · simp only [StmtKind.declare.sizeOf_spec]
      omega
  | declareEach names init constant =>
    have hinit : sizeOf init < sizeOf (StmtKind.declareEach names init constant) := by
      simp only [StmtKind.declareEach.sizeOf_spec]
      omega
    have hlist : sizeOf names < sizeOf (StmtKind.declareEach names init constant) := by
      simp only [StmtKind.declareEach.sizeOf_spec]
      omega
    refine (heval init hinit p none).bind fun v _ => ?_
    refine (of_local (.elementsOf v)).bind fun vs _ => ?_
    exact (bindAll vs constant (hnames names hlist)).bind fun _ _ => pure trivial
  | block body => exact scopedBlock hexec
  | doBlock label body => exact (scopedBlock hexec).bind fun _ _ => pure trivial
  | ifElse bs otherwise =>
    refine branches (fun s hs => hexec s (List.mem_append_right _ hs)) (fun test body hb => ?_)
      fun test body hb s hs => hexec s (List.mem_append_left _ (List.mem_flatMap.mpr ⟨_, hb, hs⟩))
    have hmem := List.sizeOf_lt_of_mem hb
    refine heval test ?_
    simp only [Branch.mk.sizeOf_spec, StmtKind.ifElse.sizeOf_spec] at hmem ⊢
    omega
  | switch label subject cs =>
    have hsubject : sizeOf subject < sizeOf (StmtKind.switch label subject cs) := by
      simp only [StmtKind.switch.sizeOf_spec]
      omega
    refine (heval subject hsubject p none).bind fun v _ => ?_
    refine cases label v (fun test body hc e he => ?_)
      fun test body hc s hs => hexec s (List.mem_flatMap.mpr ⟨_, hc, hs⟩)
    have hmem := List.sizeOf_lt_of_mem hc
    refine heval e ?_
    simp only [Case.mk.sizeOf_spec, StmtKind.switch.sizeOf_spec] at hmem ⊢
    omega
  | whileLoop label test body =>
    obtain ⟨hall, hexhausts, n, hrounds⟩ := hrepeats rfl
    exact .loop n (whileStep label (hall test) hexec) hexhausts hrounds
  | untilLoop label test body =>
    obtain ⟨hall, hexhausts, n, hrounds⟩ := hrepeats rfl
    exact .loop n (untilStep label (hall test) hexec) hexhausts hrounds
  | forCount label name type start limit step body =>
    obtain ⟨hall, hexhausts, n, hrounds⟩ := hrepeats rfl
    exact countLoop label name type start limit step hall hexhausts hrounds hexec
  | forEach label name type iterable body =>
    have htype : sizeOf type < sizeOf (StmtKind.forEach label name type iterable body) := by
      simp only [StmtKind.forEach.sizeOf_spec]
      omega
    have hsize : sizeOf iterable < sizeOf (StmtKind.forEach label name type iterable body) := by
      simp only [StmtKind.forEach.sizeOf_spec]
      omega
    refine (resolveType _ (hsizes type htype)).bind fun t _ => ?_
    exact (iterationValues (heval iterable hsize) (hiterable iterable hsize)).bind
      fun vs _ => .forValues vs fun v => eachStep label name t v hexec
  | forEachOf label names iterable body =>
    have hsize : sizeOf iterable < sizeOf (StmtKind.forEachOf label names iterable body) := by
      simp only [StmtKind.forEachOf.sizeOf_spec]
      omega
    refine (iterationValues (heval iterable hsize) (hiterable iterable hsize)).bind
      fun vs _ => .forValues vs fun v => eachOfStep label v (hnames names ?_) hexec
    simp only [StmtKind.forEachOf.sizeOf_spec]
    omega
  | data name fields =>
    refine (declareData hkind fun f hf => hsizes f.type ?_).bind fun _ _ => pure trivial
    have hmem := List.sizeOf_lt_of_mem hf
    obtain ⟨fieldName, written, constant, default⟩ := f
    simp only [FieldDef.mk.sizeOf_spec, StmtKind.data.sizeOf_spec] at hmem ⊢
    omega
  | sub d =>
    obtain ⟨name, params, returns, body, builtin⟩ := d
    refine (declareSub hr hkind (hsizes returns ?_) fun q hq => hsizes q.type ?_).bind
      fun _ _ => pure trivial
    · simp only [StmtKind.sub.sizeOf_spec, SubDef.mk.sizeOf_spec]
      omega
    · have hmem : sizeOf q < sizeOf params := List.sizeOf_lt_of_mem hq
      obtain ⟨paramName, written, default⟩ := q
      simp only [Param.mk.sizeOf_spec, StmtKind.sub.sizeOf_spec, SubDef.mk.sizeOf_spec] at hmem ⊢
      omega
  | «alias» name written =>
    refine (declareAlias hkind (hsizes written ?_)).bind fun _ _ => pure trivial
    simp only [StmtKind.alias.sizeOf_spec]
    omega
  | enum name kind entries =>
    refine (declareEnum hr hkind (fun written hwritten => hsizes written ?_)
      fun entry he element hm => heval element ?_).bind fun _ _ => pure trivial
    · subst hwritten
      simp only [StmtKind.enum.sizeOf_spec, EnumKind.basic.sizeOf_spec]
      omega
    · have hentry := List.sizeOf_lt_of_mem he
      have helement := List.sizeOf_lt_of_mem hm
      obtain ⟨entryName, elements⟩ := entry
      simp only [EntryDef.mk.sizeOf_spec, StmtKind.enum.sizeOf_spec] at hentry helement ⊢
      omega
  | yield e =>
    refine (read (P := fun _ => True) fun s _ => ⟨rfl, trivial⟩).bind fun expected _ => ?_
    exact (heval e (by simp) p _).bind fun v _ => pure trivial

/-- A statement obeys a law as its form does. -/
theorem statement (hr : L.Ready r room) {s : Stmt} (hs : L.stmt s)
    (heval : ∀ e, sizeOf e < sizeOf s → L.Evals r room e)
    (hexec : ∀ t, sizeOf t < sizeOf s → L.stmt t → L.Executes r room t)
    (hrepeats : s.kind.repeats = true → (∀ e, L.Evals r room e) ∧ L.exhausts ∧
      ∃ n, ∀ᶠ i in L.along, (r i).rounds = n) :
    L.Runs room p fun i => (r i).stmt s := by
  obtain ⟨kind, span⟩ := s
  refine .traced _ _ (stmtKind hr hs (fun e he => heval e ?_) (fun t ht => hexec t ?_ ?_) hrepeats)
  · have he' : sizeOf e < sizeOf kind := he
    simp only [Stmt.mk.sizeOf_spec]
    omega
  · have hpart : sizeOf t < sizeOf kind := StmtKind.sizeOf_part ht
    simp only [Stmt.mk.sizeOf_spec]
    omega
  · exact L.parts hs t ht

end Law

end BasicScript
