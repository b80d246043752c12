import StellarRwa.Lib.Visit
import StellarRwa.Registry.Walks

/-!
# Paging while assets are registered

The indexes are append-only, so a client that pages through the assets of an issuer or a type, or through all ids,
misses nothing and reads nothing twice, also when assets are registered, deactivated or revalued between its questions:
in the end it has read the list as it is at its last question (`visits_exact`). What it has read of an asset may be out
of date in the flag and the valuation only.
-/

namespace StellarRwa.Registry

open Lib Lib.Paging

variable {Address X : Type} [DecidableEq Address] {assetAdmin : X → Address → Option Address} {s s' : State Address}

/-! ## The lists grow -/

/-- The ids of all entries. -/
def allIds (s : State Address) : List U64 := (entries s).map AssetEntry.id

omit [DecidableEq Address] in
theorem Totalled.length_allIds (ht : Totalled s) : (allIds s).length = (assetCount s).val.toNat := by
  rw [allIds, List.length_map, ht.length_entries]

omit [DecidableEq Address] in
theorem Totalled.getElem?_allIds (ht : Totalled s) {j : ℕ} {id : U64} (hid : (allIds s)[j]? = some id) :
    id.val = j + 1 := by
  rw [allIds, List.getElem?_map] at hid
  obtain ⟨e, he, rfl⟩ := Option.map_eq_some_iff.1 hid
  exact ht.id_of_getElem? he

omit [DecidableEq Address] in
theorem Totalled.allIds_ascending (ht : Totalled s) : (allIds s).Pairwise fun id id' => id < id' :=
  List.pairwise_map.2 ht.entries_ascending

omit [DecidableEq Address] in
/-- Counting further. -/
theorem Totalled.allIds_prefix (ht : Totalled s) (ht' : Totalled s') (hle : (assetCount s).val ≤ (assetCount s').val) :
    allIds s <+: allIds s' := by
  have hlen := ht.length_allIds
  have hlen' := ht'.length_allIds
  rw [List.prefix_iff_getElem?]
  intro j hj
  obtain ⟨id', hid'⟩ : ∃ id', (allIds s')[j]? = some id' := ⟨_, List.getElem?_eq_getElem (by omega)⟩
  have hid : (allIds s)[j]? = some (allIds s)[j] := List.getElem?_eq_getElem hj
  rw [hid', ← MInt.val_inj.1 ((ht.getElem?_allIds hid).trans (ht'.getElem?_allIds hid').symm)]

/-- What a call does to the lists. -/
structure Grown (s s' : State Address) : Prop where
  issuer : ∀ i, indexIds s.issuerIndex i <+: indexIds s'.issuerIndex i
  type : ∀ k, indexIds s.typeIndex k <+: indexIds s'.typeIndex k
  count : (assetCount s).val ≤ (assetCount s').val

theorem Change.grown (hchange : Change s s') (ht : Totalled s) : Grown s s' := by
  have hpush : ∀ {K : Type} [DecidableEq K] (index : Storage K (List U64)) (key : K) (id : U64) (k : K),
      indexIds index k <+: indexIds (pushId index key id) k := by
    intro K _ index key id k
    rw [indexIds_pushId]
    split
    · exact List.prefix_append _ _
    · exact List.prefix_rfl
  have hkept : ∀ {id : U64} {e : AssetEntry Address} {count : Option U64} {tvl : Option I128},
      Grown s (s.rewritten id e count tvl) :=
    ⟨fun _ => List.prefix_rfl, fun _ => List.prefix_rfl, le_refl _⟩
  cases hchange with
  | none => exact ⟨fun _ => List.prefix_rfl, fun _ => List.prefix_rfl, le_refl _⟩
  | roles => exact ⟨fun _ => List.prefix_rfl, fun _ => List.prefix_rfl, le_refl _⟩
  | initialized hadmin =>
    have hempty := ht.fresh hadmin
    have hzero : (assetCount s).val = 0 := Numbered.val_eq_zero (hempty ▸ ht.ids)
    exact ⟨fun _ => List.prefix_rfl, fun _ => List.prefix_rfl, le_of_eq hzero⟩
  | @registered entry _ _ _ _ hid =>
    refine ⟨fun i => hpush _ _ _ i, fun k => hpush _ _ _ k, ?_⟩
    show (assetCount s).val ≤ entry.id.val
    omega
  | deactivated => exact hkept
  | reactivated => exact hkept
  | revalued => exact hkept

/-! ## The pages -/

/-- What holds of every reachable registry. -/
structure Sound (h : Contract Address X) : Prop where
  totalled : Totalled h.storage
  indexed : Indexed h.storage

variable {h h' t : Contract Address X} {l : Label Address X} {r : Ret}

theorem Sound.step (hs : Sound h) (hstep : (registry assetAdmin).step h l = some (r, h')) : Sound h' :=
  ⟨hs.totalled.step (step_change hstep), hs.indexed.step hs.totalled (step_change hstep)⟩

omit [DecidableEq Address] in
/-- What a view returned. -/
theorem returned_of_ask {hi : Int} {α : Type} {view : MInt 0 hi → M Address X α} {p : ℕ} {a : α}
    (hask : ask view h p = some a) : ∃ i : MInt 0 hi, i.val = p ∧ ∃ h', view i h = .ok (a, h') := by
  simp only [ask, Option.bind_eq_bind, Option.bind_eq_some_iff, Option.pure_def, Option.some.injEq] at hask
  obtain ⟨i, hi, ⟨a', h'⟩, hreturned, rfl⟩ := hask
  exact ⟨i, MInt.ofNat?_eq_some.1 hi, h', Call.returned_eq_some.1 hreturned⟩

variable {n : U32}

omit [DecidableEq Address] in
theorem Totalled.get_of_mem_entries (ht : Totalled s) {e : AssetEntry Address} (he : e ∈ entries s) :
    s.asset.get e.id = some e := by
  obtain ⟨id, -, hget⟩ := List.mem_filterMap.1 he
  rwa [ht.entry_id id e hget]

/-- The page shows the stored entries of a slice of `ids`. -/
structure PageOf (ids : List U64) (k n : ℕ) (h : Contract Address X) (page : List (AssetEntry Address)) : Prop where
  ids : page.map AssetEntry.id = slice ids k n
  stored : ∀ e ∈ page, h.storage.asset.get e.id = some e

omit [DecidableEq Address] in
theorem indexPage {K : Type} [DecidableEq K] {index : State Address → Storage K (List U64)}
    {field : AssetEntry Address → K} (ht : Totalled h.storage)
    (hx : Index.Exact (indexIds (index h.storage)) field h.storage.asset) {key : K} (hn : n.val ≤ 100) {p : ℕ}
    {page : List (AssetEntry Address)} (hpage : ask (fetchIndexPage index key · n) h p = some page) :
    PageOf (indexIds (index h.storage) key) (p * n.val.toNat) n.val.toNat h page := by
  obtain ⟨i, hi, h', hview⟩ := returned_of_ask hpage
  have hcap : min n.val.toNat 100 = n.val.toNat := by omega
  rw [fetchIndexPage_eq ht hx, hcap] at hview
  split at hview
  · cases hview
    refine ⟨?_, fun e he => ?_⟩
    · rw [hi, Int.toNat_natCast, ← filterMap_indexIds ht hx, slice, slice, List.map_take, List.map_drop,
        hx.map_entries ht.entry_id]
    · apply ht.get_of_mem_entries
      exact (List.mem_filter.1 (List.mem_of_mem_drop (List.mem_of_mem_take he))).1
  · cases hview

omit [DecidableEq Address] in
theorem allPage (ht : Totalled h.storage) (hn : n.val ≤ 100) {p : ℕ} {page : List (AssetEntry Address)}
    (hpage : ask (getAllAssets · n) h (1 + p * n.val.toNat) = some page) :
    PageOf (allIds h.storage) (p * n.val.toNat) n.val.toNat h page := by
  obtain ⟨i, hi, h', hview⟩ := returned_of_ask hpage
  have hcap : min n.val.toNat 100 = n.val.toNat := by omega
  by_cases hfits : (assetCount h.storage).val < 2 ^ 64 - 1
  · have hstart : i.val.toNat - 1 = p * n.val.toNat := by omega
    rw [getAllAssets_from ht hfits (by omega), hcap, hstart] at hview
    cases hview
    refine ⟨?_, fun e he => ?_⟩
    · rw [slice, slice, List.map_take, List.map_drop, allIds]
    · apply ht.get_of_mem_entries
      exact List.mem_of_mem_drop (List.mem_of_mem_take he)
  · have hhi := (assetCount h.storage).le_hi
    rw [getAllAssets_trap (by omega)] at hview
    cases hview

/-! ## Visits -/

/-- What a client has read when it stops in state `t`: the ids of a list as it is then, each once and in their order,
and what identifies each asset. -/
structure Told (ids : List U64) (t : Contract Address X) (out : List (AssetEntry Address)) : Prop where
  ids : out.map AssetEntry.id = ids
  ascending : out.Pairwise fun e e' => e.id < e'.id
  entries : ∀ e ∈ out, ∃ e', t.storage.asset.get e.id = some e' ∧ Identity e e'

theorem Sound.visit {view : Contract Address X → ℕ → Option (List (AssetEntry Address))}
    {f : State Address → List U64} {out : List (AssetEntry Address)} {size : ℕ}
    (hgrown : ∀ s s', Totalled s → Totalled s' → Grown s s' → f s <+: f s')
    (hpage : ∀ h p page, Sound h → view h p = some page → PageOf (f h.storage) (p * size) size h page)
    (hascending : ∀ h : Contract Address X, Sound h → (f h.storage).Pairwise fun id id' => id < id')
    (hs : Sound h) (hvisit : Visit (registry assetAdmin) view size h 0 t out) : Told (f t.storage) t out := by
  have hids : out.map AssetEntry.id = f t.storage := by
    have hall := hvisit.reads_all (I := Sound) (f := fun h : Contract Address X => f h.storage)
      (g := AssetEntry.id) ?_ (fun h p page hs hview => (hpage h p page hs hview).ids) hs (by omega)
    · rw [hall.2, Nat.zero_mul, List.drop_zero]
    · intro h l r h' hs hstep
      have hs' := hs.step hstep
      exact ⟨hs', hgrown _ _ hs.totalled hs'.totalled ((step_change hstep).grown hs.totalled)⟩
  have hread : ∀ (h : Contract Address X) p page, Sound h → view h p = some page →
      ∀ e ∈ page, ∃ e', h.storage.asset.get e.id = some e' ∧ Identity e e' :=
    fun h p page hs hview e he => ⟨e, (hpage h p page hs hview).stored e he, .refl e⟩
  have hstays : ∀ (h : Contract Address X) l r h' (e : AssetEntry Address), Sound h →
      (∃ e', h.storage.asset.get e.id = some e' ∧ Identity e e') → (registry assetAdmin).step h l = some (r, h') →
      ∃ e', h'.storage.asset.get e.id = some e' ∧ Identity e e' := by
    rintro h l r h' e hs ⟨e₁, he₁, hsame⟩ hstep
    obtain ⟨e₂, he₂, hsame'⟩ := (step_change hstep).identity hs.totalled he₁
    exact ⟨e₂, he₂, hsame.trans hsame'⟩
  obtain ⟨ht, -, hentries⟩ := hvisit.rule (fun _ _ _ _ hs hstep => hs.step hstep) hread hstays hs
  have hordered := hascending t ht
  rw [← hids, List.pairwise_map] at hordered
  exact ⟨hids, hordered, hentries⟩

/-- **Paging is safe while assets are registered.** From every reachable state, with pages of at most 100 assets and any
calls between two questions: whoever counts the pages of an issuer or of a type, or goes through the ids in steps of the
page size, until a page is shorter, has read exactly the assets in the list of the last question, each once and in the
order of their ids, and with the issuer, type, token, name and date that they have for good. -/
theorem visits_exact (assetAdmin : X → Address → Option Address) (x : X) (ls : List (Label Address X)) (n : U32)
    (hn : n.val ≤ 100) :
    let h := (registry assetAdmin).run (Contract.fresh Address x) ls
    let size := n.val.toNat
    (∀ issuer t out,
        Visit (registry assetAdmin) (fun h p => ask (getAssetsByIssuerPage issuer · n) h p) size h 0 t out →
          Told (indexIds t.storage.issuerIndex issuer) t out) ∧
      (∀ assetType t out,
        Visit (registry assetAdmin) (fun h p => ask (getAssetsByTypePage assetType · n) h p) size h 0 t out →
          Told (indexIds t.storage.typeIndex assetType) t out) ∧
      ∀ t out, Visit (registry assetAdmin) (fun h p => ask (getAllAssets · n) h (1 + p * size)) size h 0 t out →
        Told (allIds t.storage) t out := by
  intro h size
  have hs : Sound h := ⟨run_totalled assetAdmin x ls, run_indexed assetAdmin x ls⟩
  refine ⟨fun issuer t out hvisit => ?_, fun assetType t out hvisit => ?_, fun t out hvisit => ?_⟩
  · apply hs.visit (f := fun s => indexIds s.issuerIndex issuer) (fun _ _ _ _ hg => hg.issuer issuer) ?_
      (fun _ hs => hs.indexed.issuer.ascending issuer) hvisit
    intro h p page hs hview
    exact indexPage hs.totalled hs.indexed.issuer hn hview
  · apply hs.visit (f := fun s => indexIds s.typeIndex assetType) (fun _ _ _ _ hg => hg.type assetType) ?_
      (fun _ hs => hs.indexed.type.ascending assetType) hvisit
    intro h p page hs hview
    exact indexPage hs.totalled hs.indexed.type hn hview
  · apply hs.visit (fun _ _ ht ht' hg => ht.allIds_prefix ht' hg.count) ?_ (fun _ hs => hs.totalled.allIds_ascending)
      hvisit
    intro h p page hs hview
    exact allPage hs.totalled hn hview

/-- Issuer 5 registers a bond. -/
def registerBond (token : ℕ) : Label ℕ Unit :=
  .call (.signed 1) (.registerAsset 5 token [65] [98, 111, 110, 100] 100)

/-- Between the first and the second question the first bond is delisted and a second one registered. -/
theorem visits_exact_growing :
    let h := (registry fun _ _ => none).run (Contract.fresh ℕ ())
      [.call (.signed 0) (.initializeRegistry 1), registerBond 20]
    ∃ (t : Contract ℕ Unit) (out : List (AssetEntry ℕ)),
      Visit (registry fun _ _ => none) (fun h p => ask (getAssetsByIssuerPage 5 · 1) h p) 1 h 0 t out ∧
        Told (indexIds t.storage.issuerIndex 5) t out ∧ out.map AssetEntry.id = [1, 2] := by
  intro h
  let t := (registry fun _ _ => none).run h [.call (.signed 1) (.deactivateAsset 1 1), registerBond 21]
  have hpages : (ask (getAssetsByIssuerPage 5 · 1) h 0).map (·.map AssetEntry.id) = some [1] ∧
      (ask (getAssetsByIssuerPage 5 · 1) t 1).map (·.map AssetEntry.id) = some [2] ∧
      (ask (getAssetsByIssuerPage 5 · 1) t 2).map (·.map AssetEntry.id) = some [] := by decide +kernel
  obtain ⟨hfirst, hsecond, hlast⟩ := hpages
  obtain ⟨p₀, hview₀, hids₀⟩ := Option.map_eq_some_iff.1 hfirst
  obtain ⟨p₁, hview₁, hids₁⟩ := Option.map_eq_some_iff.1 hsecond
  obtain ⟨p₂, hview₂, hids₂⟩ := Option.map_eq_some_iff.1 hlast
  have hlen₀ := congrArg List.length hids₀
  have hlen₁ := congrArg List.length hids₁
  have hlen₂ := congrArg List.length hids₂
  simp only [List.length_map, List.length_cons, List.length_nil] at hlen₀ hlen₁ hlen₂
  have hvisit : Visit (registry fun _ _ => none) (fun h p => ask (getAssetsByIssuerPage 5 · 1) h p) 1 h 0 t
      (p₀ ++ (p₁ ++ p₂)) :=
    .next _ hview₀ (by omega) (.next [] hview₁ (by omega) (.last hview₂ (by omega)))
  refine ⟨t, _, hvisit, (visits_exact (fun _ _ => none) () _ 1 (by decide)).1 5 t _ hvisit, ?_⟩
  rw [List.map_append, List.map_append, hids₀, hids₁, hids₂]
  rfl

end StellarRwa.Registry
