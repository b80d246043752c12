import StellarRwa.Lib.Numbering
import StellarRwa.Registry.Spec

/-!
# The running totals

The ids in use are `1..=asset_count`, and the two running cells are the sums they stand for: the total value locked is
the sum of the valuations of the active entries and the active count is their number (`running_totals`). Each change
of the storage moves a cell by the difference of the weights of one entry.
-/

namespace StellarRwa.Registry

open Lib

variable {Address X : Type} {assetAdmin : X → Address → Option Address} {s s' : State Address}

/-- What an entry adds to the total value locked. -/
def worth (e : AssetEntry Address) : Int := if e.active = true then e.valuation.val else 0

/-- What an entry adds to the active count. -/
def counted (e : AssetEntry Address) : Int := if e.active = true then 1 else 0

theorem counted_nonneg (e : AssetEntry Address) : 0 ≤ counted e := by
  unfold counted
  split <;> decide

/-- The ids and the totals, against the entries. -/
structure Totalled (s : State Address) : Prop where
  ids : Numbered s.asset (assetCount s)
  entry_id : ∀ id e, s.asset.get id = some e → e.id = id
  valuation : ∀ id e, s.asset.get id = some e → 0 ≤ e.valuation.val
  tvl : (totalValueLocked s).val = s.asset.sum fun _ e => worth e
  count : (activeCount s).val = s.asset.sum fun _ e => counted e
  fresh : s.roles.admin = none → s.asset = ∅

theorem totalled_fresh : Totalled (State.fresh Address) where
  ids := numbered_empty rfl
  entry_id id e h := by simp [State.fresh] at h
  valuation id e h := by simp [State.fresh] at h
  tvl := rfl
  count := rfl
  fresh _ := rfl

theorem Totalled.initialized {admin : Address} (ht : Totalled s) (hadmin : s.roles.admin = none) :
    Totalled { s with
      roles := { s.roles with admin := some admin }
      counter := some 0
      activeCount := some 0
      totalValuation := some 0 } := by
  have hempty := ht.fresh hadmin
  refine ⟨?_, ht.entry_id, ht.valuation, ?_, ?_, fun h => by cases h⟩
  · show Numbered s.asset _
    rw [hempty]
    exact numbered_empty rfl
  · simp [hempty, totalValueLocked]
  · simp [hempty, activeCount]

variable [DecidableEq Address]

theorem Totalled.registered {entry : AssetEntry Address} {count : U64} {tvl : I128} (ht : Totalled s)
    (hadmin : s.roles.admin ≠ none) (hid : entry.id.val = (assetCount s).val + 1) (hval : 0 ≤ entry.valuation.val)
    (hact : entry.active = true) (hcount : count.val = (activeCount s).val + 1)
    (htvl : tvl.val = (totalValueLocked s).val + entry.valuation.val) : Totalled (s.registered entry count tvl) := by
  have hnew := ht.ids.get_next hid
  have hget : ∀ id,
      (s.registered entry count tvl).asset.get id = if id = entry.id then some entry else s.asset.get id :=
    fun id => Storage.get_set _ _ _ _
  refine ⟨ht.ids.push hid entry, ?_, ?_, ?_, ?_, fun h => absurd h hadmin⟩
  · intro id e he
    rw [hget] at he
    split at he
    · rename_i heq
      cases he
      exact heq.symm
    · exact ht.entry_id id e he
  · intro id e he
    rw [hget] at he
    split at he
    · cases he
      exact hval
    · exact ht.valuation id e he
  · show tvl.val = (s.asset.set entry.id entry).sum _
    rw [Storage.sum_set_of_none _ _ hnew, ← ht.tvl, htvl, worth, if_pos hact]
  · show count.val = (s.asset.set entry.id entry).sum _
    rw [Storage.sum_set_of_none _ _ hnew, ← ht.count, hcount, counted, if_pos hact]

omit [DecidableEq Address] in
/-- An entry is replaced, and the cells move by the differences of its weights. -/
theorem Totalled.rewritten {id : U64} {e e' : AssetEntry Address} {count : Option U64} {tvl : Option I128}
    (ht : Totalled s) (he : s.asset.get id = some e) (hid : e'.id = e.id) (hval : 0 ≤ e'.valuation.val)
    (hcount : (count.getD 0).val = (activeCount s).val - counted e + counted e')
    (htvl : (tvl.getD 0).val = (totalValueLocked s).val - worth e + worth e') :
    Totalled (s.rewritten id e' count tvl) := by
  have hget : ∀ id', (s.rewritten id e' count tvl).asset.get id' = if id' = id then some e' else s.asset.get id' :=
    fun id' => Storage.get_set _ _ _ _
  refine ⟨ht.ids.replace he e', ?_, ?_, ?_, ?_, ?_⟩
  · intro id' e₁ he₁
    rw [hget] at he₁
    split at he₁
    · rename_i heq
      cases he₁
      rw [hid, ht.entry_id id e he, heq]
    · exact ht.entry_id id' e₁ he₁
  · intro id' e₁ he₁
    rw [hget] at he₁
    split at he₁
    · cases he₁
      exact hval
    · exact ht.valuation id' e₁ he₁
  · show (tvl.getD 0).val = (s.asset.set id e').sum _
    rw [Storage.sum_set_of_some _ _ he, ← ht.tvl, htvl]
  · show (count.getD 0).val = (s.asset.set id e').sum _
    rw [Storage.sum_set_of_some _ _ he, ← ht.count, hcount]
  · intro h
    have hempty := ht.fresh h
    rw [hempty] at he
    cases he

omit [DecidableEq Address] in
/-- An active entry is counted, so the decrement never saturates. -/
theorem Totalled.activeCount_pos {id : U64} {e : AssetEntry Address} (ht : Totalled s) (he : s.asset.get id = some e)
    (hact : e.active = true) : 1 ≤ (activeCount s).val := by
  have hafter := Storage.sum_set_of_some (fun _ e => counted e) { e with active := false } he
  have hnonneg : 0 ≤ (s.asset.set id { e with active := false }).sum fun _ e => counted e :=
    Storage.sum_nonneg fun _ e _ => counted_nonneg e
  rw [hafter, ← ht.count] at hnonneg
  simp [counted, hact] at hnonneg
  omega

theorem Totalled.step (ht : Totalled s) (hchange : Change s s') : Totalled s' := by
  cases hchange with
  | none => exact ht
  | roles hadmin hadmin' => exact ⟨ht.ids, ht.entry_id, ht.valuation, ht.tvl, ht.count, fun h => absurd h hadmin'⟩
  | initialized hadmin => exact ht.initialized hadmin
  | registered hadmin _ hid hval hact hcount htvl => exact ht.registered hadmin hid hval hact hcount htvl
  | deactivated hentry hact htvl =>
    have hpos := ht.activeCount_pos hentry hact
    have hhi := (activeCount s).le_hi
    have hval := ht.valuation _ _ hentry
    refine ht.rewritten hentry rfl hval ?_ ?_
    · rw [Option.getD_some, MInt.val_saturatingSub, MInt.val_one]
      simp [counted, hact]
      omega
    · rw [Option.getD_some, htvl]
      simp [worth, hact]
  | reactivated hentry hact hcount htvl =>
    have hval := ht.valuation _ _ hentry
    refine ht.rewritten hentry rfl hval ?_ ?_
    · rw [Option.getD_some, hcount]
      simp [counted, hact]
    · rw [Option.getD_some, htvl]
      simp [worth, hact]
  | @revalued _ entry v _ hentry hv htvl =>
    refine ht.rewritten hentry rfl hv ?_ ?_
    · show (activeCount s).val = _ - counted entry + counted entry
      omega
    · rw [htvl]
      by_cases hact : entry.active = true <;> simp [worth, hact]

theorem run_totalled (assetAdmin : X → Address → Option Address) (x : X) (ls : List (Label Address X)) :
    Totalled ((registry assetAdmin).run (Contract.fresh Address x) ls).storage := by
  refine System.invariant (I := fun h : Contract Address X => Totalled h.storage) totalled_fresh ?_ ls
  intro h l r h' ht hstep
  exact ht.step (step_change hstep)

/-- **The running totals are exact** in every reachable state: the ids in use are `1..=asset_count` and each entry
carries its id, every valuation is non-negative, the total value locked is the sum of the valuations of the active
entries, and the active count is their number. -/
theorem running_totals (assetAdmin : X → Address → Option Address) (x : X) (ls : List (Label Address X)) :
    let s := ((registry assetAdmin).run (Contract.fresh Address x) ls).storage
    (∀ id, (∃ e, s.asset.get id = some e) ↔ 1 ≤ id.val ∧ id.val ≤ (assetCount s).val) ∧
      (∀ id e, s.asset.get id = some e → e.id = id ∧ 0 ≤ e.valuation.val) ∧
      (totalValueLocked s).val = s.asset.sum (fun _ e => if e.active = true then e.valuation.val else 0) ∧
      (activeCount s).val = s.asset.sum (fun _ e => if e.active = true then 1 else 0) := by
  intro s
  have ht : Totalled s := run_totalled assetAdmin x ls
  exact ⟨ht.ids, fun id e he => ⟨ht.entry_id id e he, ht.valuation id e he⟩, ht.tvl, ht.count⟩

end StellarRwa.Registry
