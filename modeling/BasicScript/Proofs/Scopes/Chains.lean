import BasicScript.Proofs.Defaults.Order

/-! # Chains of scopes

Scopes are there as long as they lie on the chain of an active path, or are
global. All chains stay in order while programs run: declarations are made in
the innermost scope, which is newer than those on the chains that wait.
-/

namespace BasicScript

namespace Environment

/-- The chains of the scopes that are there, the current one first and the global one last. -/
def chains (env : Environment) : List ScopePath := env.active ++ [globalPath]

/-- All chains are in order, as is a path, and those below the current one are made of older
scopes. -/
structure Standing (env : Environment) (path : ScopePath) : Prop where
  here : env.Rooted path
  chains : ∀ chain ∈ env.chains, env.Rooted chain
  older : ∀ chain ∈ env.chains.tail, ∀ id ∈ chain, id.index < env.currentId.index

variable {env env' : Environment} {path : ScopePath}

theorem chains_eq (env : Environment) : env.chains = env.current :: env.chains.tail := by
  unfold chains current
  cases env.active <;> rfl

theorem chains_congr (h : env'.active = env.active) : env'.chains = env.chains := by
  simp only [chains, h]

namespace Standing

theorem current (h : env.Standing path) : env.Rooted env.current :=
  h.chains _ (env.chains_eq ▸ List.mem_cons_self)

theorem fresh : Environment.fresh.Standing globalPath where
  here := Rooted.global
  chains chain hchain := by
    obtain rfl : chain = globalPath := List.mem_singleton.mp hchain
    exact Rooted.global
  older _ hchain := nomatch hchain

theorem stays {s t : State} (hframe : Frame False s t) (h : s.env.Standing path) :
    t.env.Standing path := by
  have hchains := chains_congr hframe.active
  refine ⟨h.here.frame hframe, fun chain hchain => ?_, fun chain hchain id hid => ?_⟩
  · exact (h.chains chain (hchains ▸ hchain)).frame hframe
  · rw [hframe.currentId]
    exact h.older chain (hchains ▸ hchain) id hid

/-- A fresh scope is newer than all that are there. -/
theorem pushBelow (h : env.Standing path) :
    (env.pushBelow path).Standing (⟨env.scopes.size⟩ :: path) := by
  have hpath : (env.pushBelow path).Rooted (⟨env.scopes.size⟩ :: path) := h.here.pushBelow
  have hsize : (env.pushBelow path).scopes.size = env.scopes.size + 1 := Array.size_push _
  refine ⟨hpath, fun chain hchain => ?_, fun chain hchain => (h.chains chain hchain).exist⟩
  rcases List.mem_cons.mp hchain with rfl | hwaits
  · exact hpath
  · have hrooted := h.chains chain hwaits
    exact hrooted.alike (by omega) fun id hid => .of_scope (scope_pushBelow (hrooted.exist id hid))

/-- Declarations in the innermost scope leave the chains that wait alone. -/
theorem declared (h : env.Standing env.current) (hactive : env'.active = env.active)
    (hsize : env.scopes.size ≤ env'.scopes.size)
    (hothers : ∀ id : ScopeId, id.index < env.scopes.size → id.index ≠ env.currentId.index →
      env.Alike env' id) (hhere : env'.Rooted env'.current) : env'.Standing env'.current := by
  have hchains := chains_congr hactive
  have hcurrent : env'.currentId = env.currentId := by
    simp only [currentId, Environment.current, hactive]
  refine ⟨hhere, fun chain hchain => ?_, fun chain hchain id hid => ?_⟩
  · rw [chains_eq] at hchain
    rcases List.mem_cons.mp hchain with rfl | hwaits
    · exact hhere
    · rw [hchains] at hwaits
      have hrooted := h.chains chain (List.mem_of_mem_tail hwaits)
      exact hrooted.alike hsize fun id hid =>
        hothers id (hrooted.exist id hid) (h.older chain hwaits id hid).ne
  · rw [hcurrent]
    exact h.older chain (hchains ▸ hchain) id hid

theorem modifyCurrent (h : env.Standing env.current) {f : Scope → Scope}
    (hf : ∀ sc, (f sc).subs = sc.subs ∧ (f sc).datas = sc.datas ∧ (f sc).aliases = sc.aliases) :
    (env.modifyCurrent f).Standing env.current := by
  have hsize : (env.modifyCurrent f).scopes.size = env.scopes.size := Array.size_modify
  have hothers : ∀ id : ScopeId, id.index < env.scopes.size → id.index ≠ env.currentId.index →
      env.Alike (env.modifyCurrent f) id :=
    fun _ _ hne => .of_scope (scope_modifyCurrent_of_ne hne)
  exact h.declared rfl hsize.ge hothers (h.here.modifyCurrent hf)

theorem opened {s t : State} (h : s.env.Standing s.env.current) (hframe : Frame True s t)
    (ht : t.InOrder) : t.env.Standing t.env.current :=
  h.declared hframe.active hframe.grows.scopes.size_le
    (fun id hid hne => .of_scope (by
      simp only [Environment.scope, hframe.tables id.index hid fun _ => hne])) ht

/-- The chains stand, whatever programs do. -/
theorem lasting : Lasting Standing where
  stays hframe h := h.stays hframe
  opens h := h.pushBelow
  subScope h hsub := { h with here := h.here.sub_scope hsub }
  dataScope h hd := { h with here := h.here.data_scope hd }
  addVariable _ _ h := h.modifyCurrent fun _ => ⟨rfl, rfl, rfl⟩
  addEnum _ h := h.modifyCurrent fun _ => ⟨rfl, rfl, rfl⟩
  declareSub hr ht h := ht ▸ h.opened ((hr.declareSub _).frame _) (hr.declareSub_inOrder h.here _)
  declareData hr ht h :=
    ht ▸ h.opened ((hr.declareData _ _).frame _) (hr.declareData_inOrder h.here _ _)
  declareAlias hr ht h :=
    ht ▸ h.opened ((hr.declareAlias _ _).frame _) (hr.declareAlias_inOrder h.here _ _)

end Standing

end Environment

/-- In all states that programs reach or come by, all chains are in order. -/
theorem Reaches.standing {settings : Settings} {s t : State}
    (h : Reaches .standard (.initial settings) s) (ht : t = s ∨ Visits .standard s t) :
    t.env.Standing t.env.current := by
  have hs : s.env.Standing s.env.current := h.lasting Environment.Standing.lasting .fresh
  rcases ht with rfl | hvisits
  · exact hs
  · exact hvisits.lasting Environment.Standing.lasting hs

end BasicScript
