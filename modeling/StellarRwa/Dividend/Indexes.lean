import StellarRwa.Lib.Index
import StellarRwa.Dividend.Lifecycle

/-!
# The distributions of an asset

The index of an asset is written when a distribution is created and never again, while claims, reclaims and
cancellations rewrite the records. They keep the asset and the id of a record (`Indexed.written`), so the index stays
exact; `distributions_for_asset_exact` is the result over runs.
-/

namespace StellarRwa.Dividend

open Lib

variable {Address X A : Type} [DecidableEq Address] {s s' : State Address}

/-- The ids listed for an asset. -/
def idsFor (s : State Address) (assetToken : Address) : List U64 := (s.assetIds.get assetToken).getD []

/-- The records carry their ids, and the index lists them by asset. -/
structure Indexed (s : State Address) : Prop where
  record_id : ∀ id d, s.dist.get id = some d → d.id = id
  asset : Index.Exact (idsFor s) Distribution.assetToken s.dist

theorem indexed_fresh : Indexed (State.fresh Address) where
  record_id id d h := by simp [State.fresh] at h
  asset := .empty _

/-- A call that touches neither the records nor the index. -/
theorem Indexed.kept (hi : Indexed s) (hdist : s'.dist = s.dist) (hids : s'.assetIds = s.assetIds) : Indexed s' := by
  have hasset := hi.asset
  refine ⟨hdist ▸ hi.record_id, ?_⟩
  unfold idsFor at hasset ⊢
  rw [hdist, hids]
  exact hasset

/-- A new record is listed last for its asset. -/
theorem Indexed.opened {d : Distribution Address} {eligible : List (Address × I128)} {sum : I128} (hi : Indexed s)
    (hnum : Numbered s.dist (s.counter.getD 0)) (hid : d.id.val = (s.counter.getD 0).val + 1) :
    Indexed (s.opened d eligible sum) := by
  have hmax : ∀ id d', s.dist.get id = some d' → id < d.id := fun id d' hd' => by
    have := hnum.le_of_get hd'
    rw [MInt.lt_def]
    omega
  refine ⟨fun id d' hd' => ?_, hi.asset.push (hnum.get_next hid) hmax fun a => ?_⟩
  · have hget : (s.opened d eligible sum).dist.get id = if id = d.id then some d else s.dist.get id :=
      Storage.get_set _ _ _ _
    rw [hget] at hd'
    split at hd'
    · rename_i heq
      cases hd'
      exact heq.symm
    · exact hi.record_id id d' hd'
  · show ((s.assetIds.set d.assetToken (idsFor s d.assetToken ++ [d.id])).get a).getD [] = _
    rw [Storage.get_set]
    split
    · rename_i ha
      rw [ha, Option.getD_some]
    · rfl

/-- A record is rewritten with the same id and asset. -/
theorem Indexed.written {id : U64} {d d' : Distribution Address} (hi : Indexed s) (hd : s.dist.get id = some d)
    (hid : d'.id = d.id) (hasset : d'.assetToken = d.assetToken) : Indexed (s.written id d') := by
  refine ⟨fun id' d₁ hd₁ => ?_, hi.asset.replace hd hasset⟩
  rw [written_dist] at hd₁
  split at hd₁
  · rename_i heq
    cases hd₁
    rw [hid, hi.record_id id d hd, heq]
  · exact hi.record_id id' d₁ hd₁

variable {w : World Address X A} {this : Address} {h h' : Contract Address X} {l : Label Address A} {u : Ret}

theorem Indexed.call {env : Env Address} {op : Op Address} (hi : Indexed h.storage)
    (hnum : Numbered h.storage.dist (h.storage.counter.getD 0))
    (heffect : Effect w this env h.storage h.outside op u h'.storage h'.outside) : Indexed h'.storage := by
  obtain ⟨s', x', events'⟩ := h'
  cases heffect with
  | handover _ _ _ => exact hi.kept rfl rfl
  | initialized _ => exact hi.kept rfl rfl
  | opened _ _ _ _ _ _ hid _ => exact hi.opened hnum hid
  | @claimed id holder _ _ _ _ _ hd _ _ _ _ _ _ =>
    have hmarked : Indexed (h.storage.marked id holder) := hi.kept rfl rfl
    exact hmarked.written hd rfl rfl
  | reclaimed _ _ hd _ _ _ _ => exact hi.written hd rfl rfl
  | cancelled _ _ hd _ _ _ => exact hi.written hd rfl rfl

theorem Indexed.step (hi : Indexed h.storage) (hnum : Numbered h.storage.dist (h.storage.counter.getD 0))
    (hstep : (dividend w this).step h l = some (u, h')) : Indexed h'.storage := by
  cases l with
  | call env op => exact hi.call hnum (call_effect (Call.returned_eq_some.1 hstep))
  | others a =>
    obtain ⟨x, -, hx⟩ := Option.map_eq_some_iff.1 hstep
    cases hx
    exact hi

theorem run_indexed (w : World Address X A) (this : Address) (x : X) (ls : List (Label Address A)) :
    Indexed ((dividend w this).run (Contract.fresh Address x) ls).storage := by
  suffices hboth : Lifecycle ((dividend w this).trace (Contract.fresh Address x) ls)
      ((dividend w this).run (Contract.fresh Address x) ls).storage ∧
      Indexed ((dividend w this).run (Contract.fresh Address x) ls).storage from hboth.2
  refine System.run_rule (P := fun tr (h : Contract Address X) => Lifecycle tr h.storage ∧ Indexed h.storage)
    ⟨lifecycle_fresh, indexed_fresh⟩ ?_ ls
  rintro tr h l u h' ⟨hl, hi⟩ hstep
  exact ⟨hl.step hstep, hi.step hl.ids hstep⟩

/-- **The distributions of an asset are listed exactly**, in every reachable state: `get_distributions_for_asset`
returns the stored records with that asset and no others, as they are now, in strictly ascending order of their ids; and
each id up to the counter is in the result for one asset, once. -/
theorem distributions_for_asset_exact (w : World Address X A) (this : Address) (x : X) (ls : List (Label Address A)) :
    let s := ((dividend w this).run (Contract.fresh Address x) ls).storage
    (∀ a d, d ∈ getDistributionsForAsset s a ↔ ∃ id, s.dist.get id = some d ∧ d.assetToken = a) ∧
      (∀ a, (getDistributionsForAsset s a).Pairwise fun d d' => d.id < d'.id) ∧
      (∀ id d, s.dist.get id = some d → d.id = id) ∧
      ∀ id : U64, 1 ≤ id.val ∧ id.val ≤ (s.counter.getD 0).val → ∃ d, s.dist.get id = some d ∧
        ∀ a, ((getDistributionsForAsset s a).map Distribution.id).count id = if d.assetToken = a then 1 else 0 := by
  intro s
  have hi : Indexed s := run_indexed w this x ls
  have hids : ∀ a, (getDistributionsForAsset s a).map Distribution.id = idsFor s a := hi.asset.map_entries hi.record_id
  refine ⟨fun a d => hi.asset.mem_entries, fun a => ?_, hi.record_id, fun id hid => ?_⟩
  · rw [← List.pairwise_map, hids]
    exact hi.asset.ascending a
  · obtain ⟨d, hd⟩ := ((run_lifecycle w this x ls).ids id).2 hid
    refine ⟨d, hd, fun a => ?_⟩
    rw [hids]
    exact hi.asset.count (fun i => lt_irrefl i.val) hd a

end StellarRwa.Dividend
