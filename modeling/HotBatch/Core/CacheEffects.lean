import HotBatch.Core.Model

/-!
# Effects of model passes on the cache

Rules for computations in `KvM`. A computation is confined to some handles when, successful or not,
it changes nothing but what is stored for them; the rules for confinement follow the structure of
the program. `Fits` says when a write is accepted, and `Stores` what an accepted write does.
-/

namespace HotBatch

/-- What the cache stores for one handle, by layer. -/
abbrev KvStore (α : Type) := ℕ → Option (KvTensor α × KvTensor α)

/-! ## Lists of fallible steps -/

section MapM

variable {β γ ε : Type} {f : β → Except ε γ}

theorem mapM_eq_ok_of_forall {g : β → γ} {values : List β}
    (hok : ∀ value ∈ values, f value = .ok (g value)) : values.mapM f = .ok (values.map g) := by
  induction values with
  | nil => rfl
  | cons value values ih =>
      rw [List.mapM_cons, hok value List.mem_cons_self,
        ih fun other hother ↦ hok other (List.mem_cons_of_mem _ hother)]
      rfl

theorem mapM_eq_error_of_exists {values : List β}
    (herr : ∃ value ∈ values, ∃ err, f value = .error err) : ∃ err, values.mapM f = .error err := by
  induction values with
  | nil =>
      obtain ⟨_, hmem, -⟩ := herr
      cases hmem
  | cons value values ih =>
      rw [List.mapM_cons]
      cases hfirst : f value with
      | error err => exact ⟨err, rfl⟩
      | ok result =>
          obtain ⟨bad, hbad, err, hbadErr⟩ := herr
          rcases List.mem_cons.mp hbad with rfl | hrest
          · rw [hfirst] at hbadErr
            cases hbadErr
          · obtain ⟨err, hrest⟩ := ih ⟨bad, hrest, err, hbadErr⟩
            exact ⟨err, by rw [hrest]; rfl⟩

end MapM

/-! ## Effects on the cache -/

/-- `after` differs from `before` at most in what is stored for the given handles. -/
structure ConfinedTo {α : Type} [Zero α] (handles : List KvHandle)
    (before after : SlabKvCache (KvTensor α)) : Prop where
  frame : after = { before with layers := after.layers }
  wf : after.Wf
  stored_eq : ∀ other ∉ handles, after.stored other = before.stored other

namespace ConfinedTo

variable {α : Type} [Zero α] {handles : List KvHandle}
  {before middle after : SlabKvCache (KvTensor α)}

theorem refl (hwf : before.Wf) : ConfinedTo handles before before := ⟨rfl, hwf, fun _ _ ↦ rfl⟩

theorem trans (hleft : ConfinedTo handles before middle)
    (hright : ConfinedTo handles middle after) : ConfinedTo handles before after where
  frame := by
    rw [hright.frame, hleft.frame]
  wf := hright.wf
  stored_eq := fun other hother ↦ by rw [hright.stored_eq other hother, hleft.stored_eq other hother]

theorem mono {more : List KvHandle} (hconfined : ConfinedTo handles before after)
    (hsubset : handles ⊆ more) : ConfinedTo more before after :=
  { hconfined with stored_eq := fun other hother ↦
      hconfined.stored_eq other fun hmem ↦ hother (hsubset hmem) }

theorem isCurrentHandle_iff (hconfined : ConfinedTo handles before after) (handle : KvHandle) :
    after.IsCurrentHandle handle ↔ before.IsCurrentHandle handle := by
  rw [hconfined.frame]
  rfl

theorem shape_eq (hconfined : ConfinedTo handles before after) :
    after.numLayers = before.numLayers ∧ after.nHeads = before.nHeads ∧
      after.headDim = before.headDim ∧ after.maxSeqs = before.maxSeqs ∧
      after.maxSeqLen = before.maxSeqLen := by
  rw [hconfined.frame]
  exact ⟨rfl, rfl, rfl, rfl, rfl⟩

end ConfinedTo

theorem ConfinedTo.sameShape {α : Type} [Zero α] {handles : List KvHandle}
    {before after : SlabKvCache (KvTensor α)} (hconfined : ConfinedTo handles before after) :
    SlabKvCache.SameShape after before := by
  obtain ⟨hlayers, hheads, hdim, hseqs, hlen⟩ := hconfined.shape_eq
  exact ⟨hseqs, hlen, hlayers, hheads, hdim⟩

/-- A write of `tokens` tokens through the handle at this layer is accepted. -/
structure Fits {α : Type} (cache : SlabKvCache (KvTensor α)) (heads headDim layer : ℕ)
    (handle : KvHandle) (tokens : ℕ) : Prop where
  layer_lt : layer < cache.numLayers
  heads_eq : heads = cache.nHeads
  headDim_eq : headDim = cache.headDim
  tokens_le : tokens ≤ handle.capacityTokens

theorem ConfinedTo.fits_iff {α : Type} [Zero α] {handles : List KvHandle}
    {before after : SlabKvCache (KvTensor α)} (hconfined : ConfinedTo handles before after)
    (heads headDim layer : ℕ) (handle : KvHandle) (tokens : ℕ) :
    Fits after heads headDim layer handle tokens ↔ Fits before heads headDim layer handle tokens := by
  obtain ⟨hlayers, hheads, hdim, -, -⟩ := hconfined.shape_eq
  constructor
  · rintro ⟨hlt, rfl, rfl, hle⟩
    exact ⟨hlayers ▸ hlt, hheads, hdim, hle⟩
  · rintro ⟨hlt, rfl, rfl, hle⟩
    exact ⟨hlayers ▸ hlt, hheads.symm, hdim.symm, hle⟩

/-- Number of tokens stored at one layer. -/
def storedTokens {α : Type} (store : KvStore α) (layer : ℕ) : ℕ :=
  ((store layer).map fun entry ↦ entry.1.rows.length).getD 0

namespace KvM

variable {α β γ : Type} [Zero α]

omit [Zero α] in
theorem bind_ok {x : KvM α β} {f : β → KvM α γ} {cache cache' : SlabKvCache (KvTensor α)}
    {value : β} (hx : x cache = (.ok value, cache')) : (x >>= f) cache = f value cache' := by
  change (match x cache with | (result, cache) => ExceptT.bindCont f result cache) = _
  rw [hx]
  rfl

omit [Zero α] in
theorem bind_error {x : KvM α β} {f : β → KvM α γ} {cache cache' : SlabKvCache (KvTensor α)}
    {err : ModelError} (hx : x cache = (.error err, cache')) :
    (x >>= f) cache = (.error err, cache') := by
  change (match x cache with | (result, cache) => ExceptT.bindCont f result cache) = _
  rw [hx]
  rfl

/-- The computation touches nothing but what is stored for the given handles. -/
def Confined (handles : List KvHandle) (x : KvM α β) : Prop :=
  ∀ cache, cache.Wf → ConfinedTo handles cache (x cache).2

variable {handles : List KvHandle}

theorem confined_pure (value : β) : Confined handles (pure value : KvM α β) := fun _ hwf ↦ .refl hwf

theorem confined_throw (err : ModelError) : Confined handles (throw err : KvM α β) :=
  fun _ hwf ↦ .refl hwf

theorem confined_ofExcept (result : Except ModelError β) :
    Confined handles (ofExcept result : KvM α β) := fun _ hwf ↦ .refl hwf

theorem confined_read (handle : KvHandle) (layer : ℕ) :
    Confined handles (read handle layer : KvM α _) := fun _ hwf ↦ .refl hwf

theorem confined_write {handle : KvHandle} (hmem : handle ∈ handles) (layer : ℕ)
    (k v : KvTensor α) : Confined handles (write handle layer k v) := by
  intro cache hwf
  change ConfinedTo handles cache (cache.write handle layer k v).2
  refine ⟨cache.write_frame handle layer k v, SlabKvCache.wf_write hwf handle layer k v, ?_⟩
  intro other hother
  funext index
  have hne : other ≠ handle := fun heq ↦ hother (heq ▸ hmem)
  cases hresult : (cache.write handle layer k v).1 with
  | error err => rw [SlabKvCache.write_error hresult]
  | ok _ =>
      rw [SlabKvCache.stored_write hwf (Prod.ext hresult rfl), if_neg fun hboth ↦ hne hboth.1]

theorem confined_bind {x : KvM α β} {f : β → KvM α γ} (hx : Confined handles x)
    (hf : ∀ value, Confined handles (f value)) : Confined handles (x >>= f) := by
  intro cache hwf
  have hfirst := hx cache hwf
  cases hresult : x cache with
  | mk result cache' =>
      rw [hresult] at hfirst
      cases result with
      | error err =>
          rw [bind_error hresult]
          exact hfirst
      | ok value =>
          rw [bind_ok hresult]
          exact hfirst.trans (hf value cache' hfirst.wf)

/-- What a successful write leaves behind. -/
structure Stores (before after : SlabKvCache (KvTensor α)) (handle : KvHandle) (layer : ℕ)
    (entry : KvTensor α × KvTensor α) : Prop where
  confined : ConfinedTo [handle] before after
  stored_eq : after.stored handle = Function.update (before.stored handle) layer (some entry)

variable {cache : SlabKvCache (KvTensor α)} {handle : KvHandle} {layer heads headDim : ℕ}
  {k v : List (Row α)}

/-- A fitting write through a current handle succeeds. -/
theorem write_of_fits (hwf : cache.Wf) (hcurrent : cache.IsCurrentHandle handle)
    (hlen : v.length = k.length) (hfits : Fits cache heads headDim layer handle k.length) :
    ∃ cache', write handle layer ⟨heads, headDim, k⟩ ⟨heads, headDim, v⟩ cache = (.ok (), cache') ∧
      Stores cache cache' handle layer (⟨heads, headDim, k⟩, ⟨heads, headDim, v⟩) := by
  obtain ⟨hlayer, rfl, rfl, htokens⟩ := hfits
  have hshape : cache.FitsShape handle
      ((⟨cache.nHeads, cache.headDim, k⟩, ⟨cache.nHeads, cache.headDim, v⟩) :
        KvTensor α × KvTensor α) := by
    refine ⟨k.length, htokens, rfl, ?_⟩
    rw [← hlen]
    rfl
  obtain ⟨cache', hwrite⟩ := SlabKvCache.exists_write hwf hcurrent hlayer hshape
  have hrun : write handle layer ⟨cache.nHeads, cache.headDim, k⟩ ⟨cache.nHeads, cache.headDim, v⟩
      cache = (.ok (), cache') := by
    unfold write
    rw [hwrite]
    rfl
  refine ⟨cache', hrun, ?_, ?_⟩
  · have hconfined := confined_write (List.mem_singleton_self handle) layer
      (⟨cache.nHeads, cache.headDim, k⟩ : KvTensor α) ⟨cache.nHeads, cache.headDim, v⟩ cache hwf
    rwa [hrun] at hconfined
  · funext index
    rw [SlabKvCache.stored_write hwf hwrite, Function.update_apply]
    simp

/-- A write that does not fit is refused. -/
theorem write_of_not_fits (hfits : ¬ Fits cache heads headDim layer handle k.length) :
    ∃ err, write handle layer ⟨heads, headDim, k⟩ ⟨heads, headDim, v⟩ cache = (.error err, cache) := by
  cases hresult : (cache.write handle layer (⟨heads, headDim, k⟩ : KvTensor α)
      ⟨heads, headDim, v⟩).1 with
  | error err =>
      refine ⟨.kv err, ?_⟩
      have hwrite : cache.write handle layer (⟨heads, headDim, k⟩ : KvTensor α) ⟨heads, headDim, v⟩ =
          (.error err, cache) := Prod.ext hresult (SlabKvCache.write_error hresult)
      unfold write
      rw [hwrite]
      rfl
  | ok _ =>
      refine absurd ?_ hfits
      obtain ⟨-, hlayer, ⟨tokens, htokens, hk, -⟩, -⟩ :=
        SlabKvCache.write_eq_ok (Prod.ext hresult rfl)
      simp only [CacheTensor.dims, List.cons.injEq, and_true] at hk
      exact ⟨hlayer, hk.1, hk.2.2, hk.2.1 ▸ htokens⟩

end KvM

end HotBatch
