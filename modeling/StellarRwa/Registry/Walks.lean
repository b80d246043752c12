import StellarRwa.Registry.Pages

/-!
# The paging walks

The documentation of the paged views tells a client how to read all of a list: count `page` up until a page is shorter
than the size asked for, or raise `start_id` by the limit asked for until it passes the asset count. The views clamp the
size to 100 and the client does not know, so a walk is complete exactly when the size is at most 100 or 100 entries are
all there are (`walks_complete_iff`).
-/

namespace StellarRwa.Registry

open Lib Lib.Paging

variable {Address X : Type} {s : State Address} {h : Contract Address X}

/-- The walk over numbered pages: `page` is incremented until a page is shorter than `pageSize`. -/
def PageWalk (view : U32 → M Address X (List (AssetEntry Address))) (h : Contract Address X) (pageSize : U32) :
    List (AssetEntry Address) → Prop :=
  Walk (ask view h) 1 (fun _ page => pageSize.val.toNat ≤ page.length) 0

/-- The walk over ids: from `start_id` 1 on, again with `start_id + limit`, until the id passes the asset count. -/
def IdWalk (h : Contract Address X) (limit : U32) : List (AssetEntry Address) → Prop :=
  Walk (ask (getAllAssets · limit) h) limit.val.toNat
    (fun startId _ => startId + limit.val.toNat ≤ (assetCount h.storage).val.toNat) 1

/-! ## Views that fail -/

theorem ask_eq_none {hi : Int} {α : Type} {view : MInt 0 hi → M Address X α} {p : ℕ}
    (hview : ∀ i, ∃ f, view i h = .error f) : ask view h p = none := by
  unfold ask
  cases MInt.ofNat? p with
  | none => rfl
  | some i =>
    have hreturned : (view i).returned h = none := Call.returned_eq_none.2 (hview i)
    simp [hreturned]

/-- A walk over a view that fails does not return. -/
theorem not_walk_of_fails {hi : Int} {view : MInt 0 hi → M Address X (List (AssetEntry Address))}
    {stride p : ℕ} {More : ℕ → List (AssetEntry Address) → Prop} {out : List (AssetEntry Address)}
    (hview : ∀ i, ∃ f, view i h = .error f) : ¬ Walk (ask view h) stride More p out := by
  intro hwalk
  obtain ⟨page, hpage⟩ := hwalk.answered
  rw [ask_eq_none hview] at hpage
  cases hpage

/-- The next id does not fit. -/
theorem getAllAssets_trap (hfull : (assetCount h.storage).val = 2 ^ 64 - 1) (startId : U64) (limit : U32) :
    (getAllAssets startId limit : M Address X _) h = .error .trap := by
  simp [getAllAssets, hfull]

/-! ## When a walk is complete -/

theorem pageWalk_iff {K : Type} [DecidableEq K] {index : State Address → Storage K (List U64)}
    {field : AssetEntry Address → K} (ht : Totalled h.storage)
    (hx : Index.Exact (indexIds (index h.storage)) field h.storage.asset) (key : K) {pageSize : U32}
    (hsize : 1 ≤ pageSize.val) :
    (∃ out, PageWalk (fetchIndexPage index key · pageSize) h pageSize out ∧
        out.Perm ((entries h.storage).filter (field · = key))) ↔
      ((entries h.storage).filter (field · = key)).length < 2 ^ 32 ∧
        (pageSize.val ≤ 100 ∨ ((entries h.storage).filter (field · = key)).length ≤ 100) := by
  by_cases hlen : ((entries h.storage).filter (field · = key)).length < 2 ^ 32
  · have hview : ∀ p, p * min pageSize.val.toNat 100 ≤ ((entries h.storage).filter (field · = key)).length →
        ask (fetchIndexPage index key · pageSize) h p =
          some (slice ((entries h.storage).filter (field · = key)) (p * min pageSize.val.toNat 100)
            (min pageSize.val.toNat 100)) := by
      intro p hp
      have hle := Nat.le_mul_of_pos_right p (show 0 < min pageSize.val.toNat 100 by omega)
      refine ask_eq (by omega) fun i hval => ?_
      rw [fetchIndexPage_eq ht hx, if_pos hlen, hval, Int.toNat_natCast]
    refine (short_walk_iff (by omega) hview).trans ?_
    rw [and_iff_right hlen]
    exact or_congr (by omega) Iff.rfl
  · refine iff_of_false ?_ fun hboth => hlen hboth.1
    rintro ⟨out, hwalk, -⟩
    refine not_walk_of_fails (fun i => ⟨.trap, ?_⟩) hwalk
    rw [fetchIndexPage_eq ht hx, if_neg hlen]

theorem idWalk_iff (ht : Totalled h.storage) {limit : U32} (hlimit : 1 ≤ limit.val) :
    (∃ out, IdWalk h limit out ∧ out.Perm (entries h.storage)) ↔
      (assetCount h.storage).val < 2 ^ 64 - 1 ∧ (limit.val ≤ 100 ∨ (assetCount h.storage).val ≤ 100) := by
  have hcount := (assetCount h.storage).le_hi
  have hlen := ht.length_entries
  by_cases hfits : (assetCount h.storage).val < 2 ^ 64 - 1
  · have hnodup : (entries h.storage).Nodup := ht.entries_ascending.imp fun hlt => by
      rintro rfl
      exact Int.lt_irrefl _ hlt
    have hview : ∀ p, p = 1 ∨ 1 < p ∧ p ≤ (entries h.storage).length →
        ask (getAllAssets · limit) h p = some (slice (entries h.storage) (p - 1) (min limit.val.toNat 100)) := by
      intro p hp
      refine ask_eq (by omega) fun i hval => ?_
      rw [getAllAssets_from ht hfits (by omega), hval, Int.toNat_natCast]
    have hiff := stride_walk_iff (by omega) hnodup hview
    rw [hlen] at hiff
    refine hiff.trans ?_
    rw [and_iff_right hfits]
    exact or_congr (by omega) (by omega)
  · refine iff_of_false ?_ fun hboth => hfits hboth.1
    rintro ⟨out, hwalk, -⟩
    exact not_walk_of_fails (fun i => ⟨.trap, getAllAssets_trap (by omega) i limit⟩) hwalk

variable [DecidableEq Address]

/-- **The documented walks are complete exactly when the clamp does not matter**, in every reachable state: the walk
over the pages of an issuer or a type, and the walk over all ids, return every entry of their list once if and only if
the size asked for is at most 100 or the list holds at most 100 entries, as long as the list fits a host vector and the
next id fits a `u64`. -/
theorem walks_complete_iff (assetAdmin : X → Address → Option Address) (x : X) (ls : List (Label Address X)) :
    let h := (registry assetAdmin).run (Contract.fresh Address x) ls
    let l := entries h.storage
    (∀ issuer (pageSize : U32), 1 ≤ pageSize.val →
      ((∃ out, PageWalk (getAssetsByIssuerPage issuer · pageSize) h pageSize out ∧
          out.Perm (l.filter (·.issuer = issuer))) ↔
        (l.filter (·.issuer = issuer)).length < 2 ^ 32 ∧
          (pageSize.val ≤ 100 ∨ (l.filter (·.issuer = issuer)).length ≤ 100))) ∧
      (∀ assetType (pageSize : U32), 1 ≤ pageSize.val →
        ((∃ out, PageWalk (getAssetsByTypePage assetType · pageSize) h pageSize out ∧
            out.Perm (l.filter (·.assetType = assetType))) ↔
          (l.filter (·.assetType = assetType)).length < 2 ^ 32 ∧
            (pageSize.val ≤ 100 ∨ (l.filter (·.assetType = assetType)).length ≤ 100))) ∧
      ∀ limit : U32, 1 ≤ limit.val → ((∃ out, IdWalk h limit out ∧ out.Perm l) ↔
        (assetCount h.storage).val < 2 ^ 64 - 1 ∧ (limit.val ≤ 100 ∨ (assetCount h.storage).val ≤ 100)) := by
  intro h l
  have ht : Totalled h.storage := run_totalled assetAdmin x ls
  have hi : Indexed h.storage := run_indexed assetAdmin x ls
  exact ⟨fun issuer _ hsize => pageWalk_iff ht hi.issuer issuer hsize,
    fun assetType _ hsize => pageWalk_iff ht hi.type assetType hsize, fun _ hlimit => idWalk_iff ht hlimit⟩

/-- Issuer 5 registers 101 bonds. -/
def manyBonds : List (Label ℕ Unit) :=
  .call (.signed 0) (.initializeRegistry 1) ::
    (List.range 101).map fun i => .call (.signed 1) (.registerAsset 5 (20 + i) [65] [98, 111, 110, 100] 100)

/-- With the size 101 no walk returns all of them: the first page has 100 entries and is the last one, and the second
id asked for is 102. -/
theorem walks_incomplete :
    let h := (registry fun _ _ => none).run (Contract.fresh ℕ ()) manyBonds
    (¬ ∃ out, PageWalk (getAssetsByIssuerPage 5 · 101) h 101 out ∧
        out.Perm ((entries h.storage).filter (·.issuer = 5))) ∧
      (¬ ∃ out, PageWalk (getAssetsByTypePage [98, 111, 110, 100] · 101) h 101 out ∧
        out.Perm ((entries h.storage).filter (·.assetType = [98, 111, 110, 100]))) ∧
      ¬ ∃ out, IdWalk h 101 out ∧ out.Perm (entries h.storage) := by
  intro h
  have ht : Totalled h.storage := run_totalled _ () manyBonds
  have hi : Indexed h.storage := run_indexed _ () manyBonds
  obtain ⟨hissuer, htype, hcount⟩ : (indexIds h.storage.issuerIndex 5).length = 101 ∧
      (indexIds h.storage.typeIndex [98, 111, 110, 100]).length = 101 ∧ (assetCount h.storage).val = 101 := by
    decide +kernel
  rw [length_indexIds ht hi.issuer] at hissuer
  rw [length_indexIds ht hi.type] at htype
  have hsize : (101 : U32).val = 101 := rfl
  refine ⟨fun hwalk => ?_, fun hwalk => ?_, fun hwalk => ?_⟩
  · have := ((pageWalk_iff ht hi.issuer 5 (by decide)).1 hwalk).2
    omega
  · have := ((pageWalk_iff ht hi.type [98, 111, 110, 100] (by decide)).1 hwalk).2
    omega
  · have := ((idWalk_iff ht (by decide)).1 hwalk).2
    omega

end StellarRwa.Registry
