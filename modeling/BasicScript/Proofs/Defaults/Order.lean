import BasicScript.Proofs.Calls.Ranking
import BasicScript.Proofs.Keeping.Program

/-! # The order of declarations

A data type names in its fields data types that were there before it: in its
own scope, or in one of the scopes around it. So it is in all scopes that are
in reach while programs run, whatever has been declared since.
-/

namespace BasicScript

namespace Environment

/-- A data type of the name is declared in a scope of the path. -/
def Knows (env : Environment) (path : ScopePath) (name : String) : Prop :=
  ∃ id ∈ path, ∃ d ∈ (env.scope id).datas, d.name = name

/-- Each data type of a table, the newest first, names in its fields older ones of the table, and
those that are known from elsewhere. -/
def Preceded (known : String → Prop) : List DataDecl → Prop
  | [] => True
  | d :: older => (∀ field ∈ d.fields, ∀ name ∈ field.type.names,
      (∃ d' ∈ older, d'.name = name) ∨ known name) ∧ Preceded known older

/-- What a scope declares belongs to it, and goes back to what was there before. -/
structure Ordered (env : Environment) (id : ScopeId) (rest : ScopePath) : Prop where
  subs : ∀ sub ∈ (env.scope id).subs, sub.scope = id :: rest
  datas : ∀ d ∈ (env.scope id).datas, d.scope = id :: rest
  distinct : ((env.scope id).datas.map DataDecl.name).Nodup
  fields : Preceded (env.Knows rest) (env.scope id).datas
  aliases : ∀ a ∈ (env.scope id).aliases, ∀ name ∈ a.2.names, env.Knows (id :: rest) name

/-- A path of ordered scopes, from newer ones to older ones. -/
def Rooted (env : Environment) : ScopePath → Prop
  | [] => True
  | id :: rest => id.index < env.scopes.size ∧ (∀ other ∈ rest, other.index < id.index) ∧
      env.Ordered id rest ∧ env.Rooted rest

/-- Two scopes have the same subs, data types and aliases. -/
structure Alike (env env' : Environment) (id : ScopeId) : Prop where
  subs : (env'.scope id).subs = (env.scope id).subs
  datas : (env'.scope id).datas = (env.scope id).datas
  aliases : (env'.scope id).aliases = (env.scope id).aliases

variable {env env' : Environment} {path rest : ScopePath} {id : ScopeId} {name : String}

theorem Alike.of_scope (h : env'.scope id = env.scope id) : env.Alike env' id := by
  constructor <;> rw [h]

/-- What is known stays so while tables grow. -/
theorem Knows.mono (hdatas : ∀ id ∈ path, (env.scope id).datas ⊆ (env'.scope id).datas)
    (h : env.Knows path name) : env'.Knows path name := by
  obtain ⟨id, hid, d, hd, hname⟩ := h
  exact ⟨id, hid, d, hdatas id hid hd, hname⟩

theorem Knows.alike (hsame : ∀ id ∈ path, env.Alike env' id) (h : env.Knows path name) :
    env'.Knows path name :=
  h.mono fun id hid _ hd => (hsame id hid).datas ▸ hd

/-- What is known here is known in the innermost scope or further out. -/
theorem knows_cons : env.Knows (id :: rest) name ↔
    (∃ d ∈ (env.scope id).datas, d.name = name) ∨ env.Knows rest name := by
  simp only [Knows, List.mem_cons, exists_eq_or_imp]

/-- A data type that is found is declared, under the name, in a scope that is in reach. -/
theorem exists_of_data? {d : DataDecl} (h : env.data? name = some d) :
    ∃ id ∈ env.current, d ∈ (env.scope id).datas ∧ d.name = name := by
  obtain ⟨id, hid, hfound⟩ := List.exists_of_findSome?_eq_some h
  have hfind : (env.scope id).datas.find? (·.name == name) = some d := hfound
  exact ⟨id, hid, List.mem_of_find?_eq_some hfind, by simpa using List.find?_some hfind⟩

theorem Knows.suffix (hpath : rest <:+ path) (h : env.Knows rest name) : env.Knows path name := by
  obtain ⟨other, hother, hd⟩ := h
  exact ⟨other, hpath.subset hother, hd⟩

theorem Preceded.mono {known known' : String → Prop} (hknown : ∀ name, known name → known' name)
    {datas : List DataDecl} (h : Preceded known datas) : Preceded known' datas := by
  induction datas with
  | nil => trivial
  | cons d older ih =>
    constructor
    · intro field hfield name hname
      exact (h.1 field hfield name hname).imp_right (hknown name)
    · exact ih h.2

theorem Ordered.alike (hsame : ∀ other ∈ id :: rest, env.Alike env' other)
    (h : env.Ordered id rest) : env'.Ordered id rest := by
  rw [List.forall_mem_cons] at hsame
  obtain ⟨hid, hrest⟩ := hsame
  constructor
  · rw [hid.subs]
    exact h.subs
  · rw [hid.datas]
    exact h.datas
  · rw [hid.datas]
    exact h.distinct
  · rw [hid.datas]
    exact h.fields.mono fun _ => Knows.alike hrest
  · rw [hid.aliases]
    intro a ha name hname
    exact (h.aliases a ha name hname).alike (List.forall_mem_cons.mpr ⟨hid, hrest⟩)

/-- Scopes that are there stay as they are when a fresh one is opened. -/
theorem scope_pushBelow (hid : id.index < env.scopes.size) :
    (env.pushBelow path).scope id = env.scope id := by
  simp [Environment.scope, pushBelow, Array.getElem?_push, hid.ne]

namespace Rooted

/-- What happens to other tables does not matter. -/
theorem alike (hsize : env.scopes.size ≤ env'.scopes.size)
    (hsame : ∀ other ∈ path, env.Alike env' other) (h : env.Rooted path) : env'.Rooted path := by
  induction path with
  | nil => trivial
  | cons id rest ih =>
    obtain ⟨hlt, hrest, hordered, hrooted⟩ := h
    refine ⟨by omega, hrest, hordered.alike hsame, ih (fun other hother => ?_) hrooted⟩
    exact hsame other (List.mem_cons_of_mem _ hother)

theorem exist (h : env.Rooted path) : ∀ id ∈ path, id.index < env.scopes.size := by
  induction path with
  | nil => simp
  | cons id rest ih => exact List.forall_mem_cons.mpr ⟨h.1, ih h.2.2.2⟩

theorem suffix (hpath : rest <:+ path) (h : env.Rooted path) : env.Rooted rest := by
  induction path with
  | nil => rwa [List.suffix_nil.mp hpath]
  | cons id path ih =>
    rcases List.suffix_cons_iff.mp hpath with rfl | hsuffix
    · exact h
    · exact ih hsuffix h.2.2.2

/-- A scope of the path, with the scopes around it. -/
theorem ordered (h : env.Rooted path) (hid : id ∈ path) :
    ∃ rest, id :: rest <:+ path ∧ env.Ordered id rest := by
  obtain ⟨before, rest, rfl⟩ := List.append_of_mem hid
  have hsuffix : id :: rest <:+ before ++ id :: rest := List.suffix_append _ _
  exact ⟨rest, hsuffix, (h.suffix hsuffix).2.2.1⟩

/-- A fresh scope has nothing to put in order. -/
theorem pushBelow (h : env.Rooted path) :
    (env.pushBelow path).Rooted (⟨env.scopes.size⟩ :: path) := by
  have hsize : (env.pushBelow path).scopes.size = env.scopes.size + 1 := Array.size_push _
  have hblank : (env.pushBelow path).scope ⟨env.scopes.size⟩ = .blank := by
    simp [Environment.scope, Environment.pushBelow]
  refine ⟨?_, h.exist, ?_, h.alike (by omega) fun other hother => ?_⟩
  · show env.scopes.size < _
    omega
  · constructor <;> simp [hblank, Scope.blank, Preceded]
  · exact .of_scope (scope_pushBelow (h.exist other hother))

/-- A sub that is found belongs to the scope in reach that declares it. -/
theorem exists_of_overloads (h : env.Rooted env.current) {sub : Sub}
    (hsub : sub ∈ env.overloads name) :
    ∃ id rest, id :: rest <:+ env.current ∧ sub.scope = id :: rest := by
  obtain ⟨id, hid, hmem⟩ := List.mem_flatMap.mp hsub
  obtain ⟨rest, hsuffix, hordered⟩ := h.ordered hid
  exact ⟨id, rest, hsuffix, hordered.subs sub (List.mem_filter.mp hmem).1⟩

theorem exists_of_data (h : env.Rooted env.current) {d : DataDecl} (hd : env.data? name = some d) :
    ∃ id rest, id :: rest <:+ env.current ∧ d.scope = id :: rest := by
  obtain ⟨id, hid, hmem, -⟩ := exists_of_data? hd
  obtain ⟨rest, hsuffix, hordered⟩ := h.ordered hid
  exact ⟨id, rest, hsuffix, hordered.datas d hmem⟩

/-- The scope of a sub that is found is a path outwards from here. -/
theorem sub_scope (h : env.Rooted env.current) {sub : Sub} (hsub : sub ∈ env.overloads name) :
    env.Rooted sub.scope := by
  obtain ⟨id, rest, hsuffix, hscope⟩ := h.exists_of_overloads hsub
  exact hscope ▸ h.suffix hsuffix

theorem data_scope (h : env.Rooted env.current) {d : DataDecl} (hd : env.data? name = some d) :
    env.Rooted d.scope := by
  obtain ⟨id, rest, hsuffix, hscope⟩ := h.exists_of_data hd
  exact hscope ▸ h.suffix hsuffix

/-- The data types in a type that a name stands for are known. -/
theorem named_known (h : env.Rooted env.current) {t : Ty} (ht : env.namedType? name = some t) :
    ∀ n ∈ t.names, env.Knows env.current n := by
  obtain ⟨id, hid, hfound⟩ := List.exists_of_findSome?_eq_some ht
  obtain ⟨rest, hsuffix, hordered⟩ := h.ordered hid
  have hnamed : (env.scope id).namedType? name = some t := hfound
  unfold Scope.namedType? at hnamed
  split at hnamed
  · next d hd =>
    cases hnamed
    intro n hn
    cases List.mem_singleton.mp hn
    exact ⟨id, hid, d, List.mem_of_find?_eq_some hd, rfl⟩
  · split at hnamed
    · cases hnamed
      intro n hn
      simp [Ty.names] at hn
    · obtain ⟨before, after, haliases, -⟩ := List.lookup_eq_some_iff.mp hnamed
      intro n hn
      have hmem : (name, t) ∈ (env.scope id).aliases := by simp [haliases]
      exact (hordered.aliases (name, t) hmem n hn).suffix hsuffix

end Rooted

/-- The current scope declares more, for itself, and with names that are known. -/
structure Continues (env : Environment) (sc' : Scope) : Prop where
  subs : ∀ sub ∈ sc'.subs, sub ∈ env.currentScope.subs ∨ sub.scope = env.current
  datas : sc'.datas = env.currentScope.datas ∨ ∃ d, sc'.datas = d :: env.currentScope.datas ∧
    d.scope = env.current ∧ env.takesData d.name = true ∧
      ∀ field ∈ d.fields, ∀ name ∈ field.type.names, env.Knows env.current name
  aliases : ∀ a ∈ sc'.aliases, a ∈ env.currentScope.aliases ∨
    ∀ name ∈ a.2.names, env.Knows env.current name

/-- Scopes other than the current one are as they were. -/
theorem scope_modifyCurrent_of_ne {f : Scope → Scope} (h : id.index ≠ env.currentId.index) :
    (env.modifyCurrent f).scope id = env.scope id := by
  simp only [Environment.scope, modifyCurrent, Array.getElem?_modify, if_neg (Ne.symm h)]

theorem scope_modifyCurrent (h : env.currentId.index < env.scopes.size) (f : Scope → Scope) :
    (env.modifyCurrent f).scope env.currentId = f env.currentScope := by
  simp only [Environment.scope, modifyCurrent, currentScope, Array.getElem?_modify, if_true,
    Array.getElem?_eq_getElem h, Option.map_some, Option.getD_some]

namespace Continues

variable {f : Scope → Scope}

theorem datas_subset (hf : env.Continues (f env.currentScope)) :
    env.currentScope.datas ⊆ (f env.currentScope).datas := by
  rcases hf.datas with hsame | ⟨d, hnew, -⟩
  · rw [hsame]
    exact List.Subset.refl _
  · rw [hnew]
    exact List.subset_cons_self _ _

/-- The data types of the scope are in order with the new one. -/
theorem datas_ordered (hf : env.Continues (f env.currentScope))
    (hcurrent : env.current = env.currentId :: rest) (h : env.Ordered env.currentId rest) :
    (∀ d ∈ (f env.currentScope).datas, d.scope = env.currentId :: rest) ∧
      ((f env.currentScope).datas.map DataDecl.name).Nodup ∧
        Preceded (env.Knows rest) (f env.currentScope).datas := by
  rcases hf.datas with hsame | ⟨d, hnew, hscope, htakes, hfields⟩
  · rw [hsame]
    exact ⟨h.datas, h.distinct, h.fields⟩
  · have hnone : ∀ d' ∈ env.currentScope.datas, d'.name ≠ d.name := by
      simpa [takesData, Scope.data?] using htakes
    rw [hnew, List.forall_mem_cons, List.map_cons, List.nodup_cons]
    refine ⟨⟨hscope.trans hcurrent, h.datas⟩, ⟨?_, h.distinct⟩, ?_, h.fields⟩
    · intro hmem
      obtain ⟨d', hd', hname⟩ := List.mem_map.mp hmem
      exact hnone d' hd' hname
    · intro field hfield name hname
      have hknown := hfields field hfield name hname
      rwa [hcurrent, knows_cons] at hknown

/-- The scope is in order with what it declares in addition. -/
theorem ordered (hf : env.Continues (f env.currentScope))
    (hcurrent : env.current = env.currentId :: rest)
    (hlt : env.currentId.index < env.scopes.size)
    (hrest : ∀ other ∈ rest, other.index < env.currentId.index)
    (h : env.Ordered env.currentId rest) : (env.modifyCurrent f).Ordered env.currentId rest := by
  have hnew := scope_modifyCurrent hlt f
  have houter : ∀ other ∈ rest, env.Alike (env.modifyCurrent f) other :=
    fun other hother => .of_scope (scope_modifyCurrent_of_ne (hrest other hother).ne)
  have hknows : ∀ name, env.Knows env.current name →
      (env.modifyCurrent f).Knows (env.currentId :: rest) name := by
    intro name hname
    rw [hcurrent] at hname
    refine hname.mono fun other hother => ?_
    rcases List.mem_cons.mp hother with rfl | hother
    · rw [hnew]
      exact hf.datas_subset
    · rw [(houter other hother).datas]
      exact List.Subset.refl _
  obtain ⟨hdatas, hdistinct, hfields⟩ := hf.datas_ordered hcurrent h
  constructor
  · rw [hnew]
    intro sub hsub
    rcases hf.subs sub hsub with hold | hscope
    · exact h.subs sub hold
    · exact hscope.trans hcurrent
  · rwa [hnew]
  · rwa [hnew]
  · rw [hnew]
    exact hfields.mono fun _ => Knows.alike houter
  · rw [hnew]
    intro a ha name hname
    rcases hf.aliases a ha with hold | hnames
    · have hknown := h.aliases a hold name hname
      rw [← hcurrent] at hknown
      exact hknows name hknown
    · exact hknows name (hnames name hname)

/-- All scopes in reach stay in order. -/
theorem rooted (hf : env.Continues (f env.currentScope)) (h : env.Rooted env.current) :
    (env.modifyCurrent f).Rooted (env.modifyCurrent f).current := by
  show (env.modifyCurrent f).Rooted env.current
  cases hcurrent : env.current with
  | nil => trivial
  | cons id rest =>
    obtain rfl : env.currentId = id := by
      simp only [currentId, hcurrent, List.headD_cons]
    rw [hcurrent] at h
    obtain ⟨hlt, hrest, hordered, hrooted⟩ := h
    have hsize : (env.modifyCurrent f).scopes.size = env.scopes.size := Array.size_modify
    refine ⟨by omega, hrest, hf.ordered hcurrent hlt hrest hordered, ?_⟩
    refine hrooted.alike hsize.ge fun other hother => .of_scope ?_
    exact scope_modifyCurrent_of_ne (hrest other hother).ne

end Continues

end Environment

/-- What declares nothing leaves the scopes of a path as they are. -/
theorem Environment.Rooted.frame_alike {s t : State} {path : ScopePath} (h : s.env.Rooted path)
    (hframe : Frame False s t) : ∀ id ∈ path, s.env.Alike t.env id := by
  intro id hid
  have htable := hframe.tables id.index (h.exist id hid) False.elim
  exact .of_scope (by simp only [Environment.scope, htable])

theorem Environment.Rooted.frame {s t : State} {path : ScopePath} (h : s.env.Rooted path)
    (hframe : Frame False s t) : t.env.Rooted path :=
  h.alike hframe.grows.scopes.size_le (h.frame_alike hframe)

/-- All scopes that are in reach are in order. -/
abbrev State.InOrder (s : State) : Prop := s.env.Rooted s.env.current

namespace State.InOrder

variable {s t : State}

theorem stays (h : s.InOrder) (hframe : Frame False s t) : t.InOrder := by
  rw [State.InOrder, hframe.current]
  exact Environment.Rooted.frame h hframe

/-- What is known stays known while nothing is declared. -/
theorem known (h : s.InOrder) (hframe : Frame False s t) {name : String}
    (hknown : s.env.Knows s.env.current name) : t.env.Knows t.env.current name := by
  rw [hframe.current]
  exact hknown.alike (Environment.Rooted.frame_alike h hframe)

/-- The order is kept by what changes no declaration before something that keeps it. -/
theorem bind {α β : Type} {x : Run α} {f : α → Run β} (h : s.InOrder)
    (hx : Run.Tracks none False False x x)
    (hf : ∀ a t, x s = .ok a t → t.InOrder → ((f a).state t).InOrder) :
    ((x >>= f).state s).InOrder := by
  have hafter : (x.state s).InOrder := h.stays (hx.frame s)
  cases hrun : x s with
  | ok a t =>
    rw [Run.state_ok hrun] at hafter
    rw [Run.state_bind_ok hrun]
    exact hf a t hrun hafter
  | error e t =>
    rw [Run.state_error hrun] at hafter
    rw [Run.state_error (Run.bind_error hrun f)]
    exact hafter

theorem declare (h : s.InOrder) (entity : Entity) (name : String) (takes : Environment → Bool)
    {f : Scope → Scope} (hf : takes s.env = true → s.env.Continues (f s.env.currentScope)) :
    ((Run.declare entity name takes fun env => env.modifyCurrent f).state s).InOrder := by
  rcases Run.declare_cases entity name takes (fun env => env.modifyCurrent f) s with
    ⟨htakes, hrun⟩ | ⟨e, hrun⟩
  · rw [Run.state_ok hrun]
    exact (hf htakes).rooted h
  · rw [Run.state_error hrun]
    exact h

/-- The data types in a type that has been looked up are known. -/
theorem resolveType_known (h : s.InOrder) (r : Evaluator) (written : TypeExpr) :
    ∀ {type : Ty} {t : State}, r.resolveType written s = .ok type t →
      ∀ name ∈ type.names, s.env.Knows s.env.current name := by
  fun_induction Evaluator.resolveType r written with
  | case1 | case2 p =>
    intro type t hrun
    cases hrun
    simp [Ty.names]
  | case3 element ih =>
    intro type t hrun
    obtain ⟨inner, u, hinner, hrest⟩ := Run.exists_of_bind_ok hrun
    cases hrest
    exact fun name hname => ih hinner name hname
  | case4 element size ih =>
    intro type t hrun
    obtain ⟨inner, u, hinner, hrest⟩ := Run.exists_of_bind_ok hrun
    obtain ⟨n, v, -, hrest⟩ := Run.exists_of_bind_ok hrest
    cases hrest
    exact fun name hname => ih hinner name hname
  | case5 element ih =>
    intro type t hrun
    obtain ⟨inner, u, hinner, hrest⟩ := Run.exists_of_bind_ok hrun
    cases hrest
    exact fun name hname => ih hinner name hname
  | case6 name =>
    intro type t hrun
    have hrequire : Run.require (.undeclared .type name) (s.env.namedType? name) s =
      .ok type t := hrun
    cases hfound : s.env.namedType? name with
    | none =>
      rw [hfound] at hrequire
      cases hrequire
    | some type' =>
      rw [hfound] at hrequire
      cases hrequire
      exact h.named_known hfound

end State.InOrder

namespace Evaluator.Precedes

open Run.Tracks (read require)

variable {r : Evaluator} {s t : State}

/-- The data types in the types of fields that have been looked up are known. -/
theorem fields_known (h : r.Precedes none False r) (hs : s.InOrder) {written : List FieldDef}
    {fields : List Field}
    (hrun : (written.mapM fun f => do
      return ⟨f.name, ← r.resolveType f.type, f.constant, f.default⟩ : Run (List Field)) s =
        .ok fields t) :
    ∀ field ∈ fields, ∀ name ∈ field.type.names, t.env.Knows t.env.current name := by
  have hfield : ∀ f : FieldDef, Run.Tracks none False False
      (do return ⟨f.name, ← r.resolveType f.type, f.constant, f.default⟩ : Run Field)
      (do return ⟨f.name, ← r.resolveType f.type, f.constant, f.default⟩ : Run Field) :=
    fun f => (h.resolveType f.type).bind fun _ => .pure _
  induction written generalizing s fields with
  | nil =>
    cases hrun
    exact fun _ hmem => nomatch hmem
  | cons f written ih =>
    have hframe := (Run.Tracks.mapM hfield (f :: written)).frame_ok hrun
    rw [List.mapM_cons] at hrun
    obtain ⟨field, u, hfirst, hrest⟩ := Run.exists_of_bind_ok hrun
    obtain ⟨fields, v, hfields, hrest⟩ := Run.exists_of_bind_ok hrest
    cases hrest
    have hu := (hfield f).frame s
    rw [Run.state_ok hfirst] at hu
    obtain ⟨type, w, htype, hrest⟩ := Run.exists_of_bind_ok hfirst
    cases hrest
    rw [List.forall_mem_cons]
    constructor
    · exact fun name hname => hs.known hframe (hs.resolveType_known r f.type htype name hname)
    · exact ih (hs.stays hu) hfields

theorem declareData_inOrder (h : r.Precedes none False r) (hs : s.InOrder) (name : String)
    (fields : List FieldDef) : ((r.declareData name fields).state s).InOrder := by
  refine hs.bind (.mapM (fun f => (h.resolveType f.type).bind fun _ => .pure _) fields)
    fun known t hknown ht => ?_
  have hnames := h.fields_known hs hknown
  refine ht.bind (read _) fun scope u hread hu => ?_
  cases hread
  refine hu.declare .data name _ fun htakes => ?_
  constructor
  · exact fun _ hsub => .inl hsub
  · exact .inr ⟨⟨name, known, t.env.current⟩, rfl, rfl, htakes, hnames⟩
  · exact fun _ ha => .inl ha

theorem declareSub_inOrder (h : r.Precedes none False r) (hs : s.InOrder) (d : SubDef) :
    ((r.declareSub d).state s).InOrder := by
  have hadd : ∀ (params : List Parameter) (returns : Ty) (signature : String) (t : State),
      t.InOrder → (Run.state (do
        let scope ← Run.read fun s => s.env.current
        let sub : Sub := ⟨d.name, params, returns, d.body, signature, scope, d.builtin⟩
        Run.declare .sub signature (·.takesSub d.name signature) (·.addSub sub)) t).InOrder := by
    intro params returns signature t ht
    refine ht.bind (read _) fun scope u hread hu => ?_
    cases hread
    refine hu.declare .sub signature _ fun _ => ?_
    constructor
    · intro sub hsub
      refine (List.mem_append.mp hsub).imp_right fun hnew => ?_
      rw [List.mem_singleton.mp hnew]
    · exact .inl rfl
    · exact fun _ ha => .inl ha
  refine hs.bind (h.parameters d.params) fun params t _ ht => ?_
  refine ht.bind (h.returnType d.returns) fun returns u _ hu => ?_
  by_cases hbuiltin : d.builtin = true
  · rw [if_pos hbuiltin]
    exact hu.bind (h.requireNative _ _) fun _ v _ hv => hadd params returns _ v hv
  · rw [if_neg hbuiltin]
    exact hadd params returns _ u hu

theorem declareAlias_inOrder (h : r.Precedes none False r) (hs : s.InOrder) (name : String)
    (written : TypeExpr) : ((r.declareAlias name written).state s).InOrder := by
  refine hs.bind (h.resolveType written) fun type t htype ht => ?_
  have hframe := (h.resolveType (o := False) written).frame_ok htype
  refine ht.declare .alias name _ fun _ => ?_
  constructor
  · exact fun _ hsub => .inl hsub
  · exact .inl rfl
  · intro a ha
    rcases List.mem_cons.mp ha with rfl | hold
    · exact .inr fun n hn => hs.known hframe (hs.resolveType_known r written htype n hn)
    · exact .inl hold

end Evaluator.Precedes

namespace Environment

/-- What adds neither subs nor data types nor aliases keeps the order. -/
theorem Rooted.modifyCurrent {env : Environment} (h : env.Rooted env.current) {f : Scope → Scope}
    (hf : ∀ sc, (f sc).subs = sc.subs ∧ (f sc).datas = sc.datas ∧ (f sc).aliases = sc.aliases) :
    (env.modifyCurrent f).Rooted env.current := by
  obtain ⟨hsubs, hdatas, haliases⟩ := hf env.currentScope
  refine Continues.rooted ?_ h
  constructor
  · exact fun _ hsub => .inl (hsubs ▸ hsub)
  · exact .inl hdatas
  · exact fun _ ha => .inl (haliases ▸ ha)

/-- Scopes that are in order stay so, whatever programs do. -/
theorem Rooted.lasting : Lasting Rooted where
  stays hframe h := h.frame hframe
  opens h := h.pushBelow
  subScope h hsub := h.sub_scope hsub
  dataScope h hd := h.data_scope hd
  addVariable _ _ h := h.modifyCurrent fun _ => ⟨rfl, rfl, rfl⟩
  addEnum _ h := h.modifyCurrent fun _ => ⟨rfl, rfl, rfl⟩
  declareSub hr ht h := ht ▸ hr.declareSub_inOrder h _
  declareData hr ht h := ht ▸ hr.declareData_inOrder h _ _
  declareAlias hr ht h := ht ▸ hr.declareAlias_inOrder h _ _

theorem Rooted.global : Environment.fresh.Rooted globalPath := by
  have hblank : Environment.fresh.scope ⟨0⟩ = .blank := rfl
  refine ⟨Nat.zero_lt_one, ?_, ?_, trivial⟩
  · simp
  · constructor <;> simp [hblank, Scope.blank, Preceded]

end Environment

/-- In all states that programs reach or come by, each scope in reach declares data types in terms
of older ones, and of such as are declared further out. -/
theorem Reaches.inOrder {settings : Settings} {s t : State}
    (h : Reaches .standard (.initial settings) s) (ht : t = s ∨ Visits .standard s t) :
    t.InOrder := by
  have hs : s.InOrder := h.lasting Environment.Rooted.lasting Environment.Rooted.global
  rcases ht with rfl | hvisits
  · exact hs
  · exact hvisits.lasting Environment.Rooted.lasting hs

end BasicScript
