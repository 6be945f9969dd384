import BuildServer.Proofs.Server.Effects
import BuildServer.Proofs.Server.Run
import BuildServer.Proofs.Store.Sharing

namespace BuildServer

def Store.Mirrors (Known : List String → Prop) (m : MemoryStore) : Store → Prop
  | .memory m' => m' = m
  | .database db => Database.Refines Known db m ∧ Database.Distinct Known
  | .failing _ => False

namespace Store

variable {Known : List String → Prop} {m : MemoryStore} {store : Store}

theorem Mirrors.update {arguments : ArgumentsByPath} (h : store.Mirrors Known m)
    (known : ∀ as ∈ arguments.values, Known as) (scope : String) :
    ∃ store', store.update arguments scope = .ok store' ∧
      store'.Mirrors Known (m.update arguments scope) := by
  cases store with
  | memory m' =>
    obtain rfl : m' = m := h
    exact ⟨_, rfl, rfl⟩
  | database db =>
    refine ⟨_, rfl, h.1.update (fun e he => known e.2 (List.mem_map_of_mem he)) scope, h.2⟩
  | failing message => exact h.elim

theorem Mirrors.fetch (h : store.Mirrors Known m) (path scope : String) :
    store.fetch path scope = m.fetch path scope := by
  cases store with
  | memory m' =>
    obtain rfl : m' = m := h
    rfl
  | database db => exact h.1.fetch h.2 path scope
  | failing message => exact h.elim

end Store

namespace Server

def stored? : Event → Option (ArgumentsByPath × String)
  | .did _ (.store arguments scope) => some (arguments, scope)
  | _ => none

def storedIn (m : MemoryStore) (es : List Event) : MemoryStore :=
  (es.filterMap stored?).foldl (fun m u => m.update u.1 u.2) m

theorem storedIn_append (m : MemoryStore) (es fs : List Event) :
    storedIn m (es ++ fs) = storedIn (storedIn m es) fs := by
  simp only [storedIn, List.filterMap_append, List.foldl_append]

variable {κ : Type} {client : Client κ} {service : Service} {site : κ} {store : Store}
  {es x y : List Event} {s : Server κ} {Known : List String → Prop} {m : MemoryStore} {who : Actor}
  {arguments : ArgumentsByPath} {scope : String}

def StoresKnown (Known : List String → Prop) (es : List Event) : Prop :=
  ∀ who arguments scope, .did who (.store arguments scope) ∈ es → ∀ as ∈ arguments.values, Known as

theorem StoresKnown.mono (h : StoresKnown Known y) (hsub : x ⊆ y) : StoresKnown Known x :=
  fun who arguments scope hmem => h who arguments scope (hsub hmem)

theorem mirrors_run (mirrors : store.Mirrors Known m) (known : StoresKnown Known es)
    (run : Run client service (.initial site store) es s) :
    s.shared.store.Mirrors Known (storedIn m es) := by
  induction run with
  | start => exact mirrors
  | @move es u v before move hm ih =>
    have here := ih (known.mono (List.subset_append_left _ _))
    rw [storedIn_append]
    have step := step_of_move hm
    generalize u.event? move = e at step known ⊢
    rcases step.effect with ⟨other, accepted, shared⟩ | ⟨who, _, a, _, answer, rfl, -, answered⟩
    · have nothing : e.toList.filterMap stored? = [] := by
        rcases e with _ | (_ | _ | ⟨who, a⟩)
        · rfl
        · rfl
        · rfl
        · exact absurd rfl (other who a)
      rw [shared, storedIn, nothing]
      exact here
    · have after := Shared.perform_store answered
      cases a with
      | store arguments scope =>
        obtain ⟨store', updated, mirrors'⟩ :=
          here.update (known who arguments scope (List.mem_append_right _ List.mem_cons_self)) scope
        dsimp only at after
        rw [after, updated]
        exact mirrors'
      | _ =>
        rw [after]
        exact here

theorem scope_storedIn (h : m.scope scope = arguments)
    (last : ∀ w other, .did w (.store other scope) ∈ es → other = arguments) :
    (storedIn m es).scope scope = arguments := by
  -- The first event leaves a store that still holds the scope, whatever it stores elsewhere.
  induction es generalizing m with
  | nil => exact h
  | cons e es ih =>
    have hes := fun w other hmem => last w other (List.mem_cons_of_mem e hmem)
    have hcons : storedIn m (e :: es) = storedIn (storedIn m [e]) es := storedIn_append m [e] es
    rw [hcons]
    apply ih _ hes
    cases he : stored? e with
    | none =>
      rw [storedIn, List.filterMap_cons_none he]
      exact h
    | some u =>
      obtain ⟨other, scope'⟩ := u
      rw [storedIn, List.filterMap_cons_some he]
      change (m.update other scope').scope scope = arguments
      rw [Database.scope_update]
      split
      · rename_i hscope
        subst hscope
        cases e with
        | did w a =>
          cases a with
          | store _ _ =>
            cases he
            exact last w other List.mem_cons_self
          | _ => cases he
        | _ => cases he
      · exact h

theorem fetch_stored (mirrors : store.Mirrors Known m)
    (run : Run client service (.initial site store) (x ++ .did who (.store arguments scope) :: y) s)
    (known : StoresKnown Known (x ++ .did who (.store arguments scope) :: y))
    (last : ∀ w other, .did w (.store other scope) ∈ y → other = arguments) {path : String}
    {as : List String} (h : arguments.get? path = some as) :
    s.shared.store.fetch path scope = .ok as := by
  have stored : (storedIn m (x ++ .did who (.store arguments scope) :: y)).scope scope = arguments := by
    rw [List.append_cons, storedIn_append, storedIn_append]
    apply scope_storedIn _ last
    change ((storedIn m x).update arguments scope).scope scope = arguments
    rw [Database.scope_update, if_pos rfl]
  rw [(mirrors_run mirrors known run).fetch, MemoryStore.fetch, stored, h]

end Server

end BuildServer
