import StellarRwa.Notices
import StellarRwa.Registry.Totals

/-!
# Following the registry by its events

The events of the registry tell an indexer the admin, the ids in use, who registered each of them and whether it is
active, and the valuation from its first update on. The indexer reads strictly: it stops at a registration out of order,
a deactivation of an inactive asset, or an update whose old valuation is not the one it knows. It never stops, and what
it has is what the views return (`registry_followed`).
-/

namespace StellarRwa.Registry

open Lib

variable {Address X : Type}

/-! ## The indexer -/

/-- What the events say about an asset. The valuation is not known before its first update. -/
structure Line (Address : Type) where
  issuer : Address
  active : Bool
  valuation : Option I128
deriving DecidableEq

/-- What the events say about the registry. -/
structure Picture (Address : Type) where
  roles : Roles Address
  count : Int
  active : Int
  lines : Storage U64 (Line Address)
  byIssuer : Storage Address (List U64)

namespace Picture

variable [DecidableEq Address]

def notice (p : Picture Address) (n : Notice Address) : Option (Picture Address) :=
  (p.roles.read n).map fun roles => { p with roles }

/-- A new line, under the next id. -/
def enter (p : Picture Address) (issuer : Address) (id : U64) : Option (Picture Address) :=
  if id.val = p.count + 1 then
    some { p with
      count := p.count + 1
      active := p.active + 1
      lines := p.lines.set id ⟨issuer, true, none⟩
      byIssuer := pushId p.byIssuer issuer id }
  else none

/-- The flag of a line that does not have it yet. -/
def flag (p : Picture Address) (id : U64) (active : Bool) : Option (Picture Address) :=
  (p.lines.get id).bind fun l =>
    if l.active = active then none
    else some { p with active := p.active + (if active then 1 else -1), lines := p.lines.set id { l with active } }

/-- The valuation of a line, from the old one if that is known. -/
def revalue (p : Picture Address) (id : U64) (oldValuation newValuation : I128) : Option (Picture Address) :=
  (p.lines.get id).bind fun l =>
    if (l.valuation = none ∨ l.valuation = some oldValuation) ∧ 0 ≤ newValuation.val then
      some { p with lines := p.lines.set id { l with valuation := some newValuation } }
    else none

def read (p : Picture Address) : Event Address → Option (Picture Address)
  | .init admin => p.notice (.init admin)
  | .register issuer id => p.enter issuer id
  | .deactvate assetId => p.flag assetId false
  | .reactvate assetId => p.flag assetId true
  | .valuation assetId oldValuation newValuation => p.revalue assetId oldValuation newValuation
  | .proposed admin newAdmin => p.notice (.proposed admin newAdmin)
  | .cancelled admin => p.notice (.cancelled admin)
  | .setAdmin oldAdmin newAdmin => p.notice (.setAdmin oldAdmin newAdmin)

end Picture

/-- The indexer of the registry. -/
def indexer (Address : Type) [DecidableEq Address] : Indexer (Picture Address) (Event Address) where
  blank := ⟨⟨none, none⟩, 0, 0, ∅, ∅⟩
  read := Picture.read

/-! ## Pictures of the registry -/

/-- The line says what is so of the entry. -/
structure Line.Shows (l : Line Address) (e : AssetEntry Address) : Prop where
  issuer : l.issuer = e.issuer
  active : l.active = e.active
  valuation : ∀ v, l.valuation = some v → v = e.valuation

variable [DecidableEq Address]

/-- The picture says what is so of the storage. -/
structure Picture.Shows (p : Picture Address) (s : State Address) : Prop where
  roles : p.roles = s.roles
  count : p.count = (assetCount s).val
  active : p.active = (activeCount s).val
  lines : Storage.Related Line.Shows p.lines s.asset
  byIssuer : p.byIssuer = s.issuerIndex

variable {p : Picture Address} {s : State Address}

theorem shows_fresh : (indexer Address).blank.Shows (State.fresh Address) where
  roles := rfl
  count := rfl
  active := rfl
  lines := Storage.related_empty
  byIssuer := rfl

/-- The roles alone have changed. -/
theorem Picture.Shows.notice (hp : p.Shows s) {n : Notice Address} {r : Roles Address} (hr : s.roles.read n = some r) :
    ∃ p', p.notice n = some p' ∧ p'.Shows { s with roles := r } :=
  ⟨{ p with roles := r }, by rw [Picture.notice, hp.roles, hr, Option.map_some], rfl, hp.count, hp.active, hp.lines,
    hp.byIssuer⟩

theorem Picture.Shows.init (hp : p.Shows s) (ht : Totalled s) {admin : Address} (hadmin : s.roles.admin = none) :
    ∃ p', p.notice (.init admin) = some p' ∧ p'.Shows { s with
      roles := { s.roles with admin := some admin }
      counter := some 0
      activeCount := some 0
      totalValuation := some 0 } := by
  have hempty := ht.fresh hadmin
  obtain ⟨p', hread, hp'⟩ := hp.notice (Roles.read_init hadmin)
  refine ⟨p', hread, hp'.roles, ?_, ?_, hp'.lines, hp'.byIssuer⟩
  · rw [hp'.count]
    exact Numbered.val_eq_zero (hempty ▸ ht.ids)
  · rw [hp'.active]
    exact ht.count.trans (by rw [hempty]; rfl)

/-- A registration enters a line. -/
theorem Picture.Shows.enter (hp : p.Shows s) (entry : AssetEntry Address) {count : U64} {tvl : I128}
    (hid : entry.id.val = (assetCount s).val + 1) (hact : entry.active = true)
    (hcount : count.val = (activeCount s).val + 1) :
    ∃ p', p.enter entry.issuer entry.id = some p' ∧ p'.Shows (s.registered entry count tvl) := by
  have hnext : entry.id.val = p.count + 1 := by rw [hp.count, hid]
  refine ⟨_, if_pos hnext, hp.roles, hnext.symm, ?_, ?_, ?_⟩
  · show p.active + 1 = count.val
    rw [hp.active, hcount]
  · apply hp.lines.set
    exact ⟨rfl, hact.symm, fun v hv => by cases hv⟩
  · show pushId p.byIssuer _ _ = _
    rw [hp.byIssuer]
    rfl

omit [DecidableEq Address] in
/-- A flag is changed. -/
theorem Picture.Shows.flag (hp : p.Shows s) {id : U64} {e : AssetEntry Address} {active : Bool} {count : U64}
    {tvl : I128} (he : s.asset.get id = some e) (hact : e.active ≠ active)
    (hcount : count.val = (activeCount s).val + if active then 1 else -1) :
    ∃ p', p.flag id active = some p' ∧ p'.Shows (s.rewritten id { e with active } (some count) (some tvl)) := by
  obtain ⟨l, hl, hshows⟩ := hp.lines.of_get he
  have hne : l.active ≠ active := hshows.active ▸ hact
  have hread : p.flag id active = some { p with
      active := p.active + (if active then 1 else -1)
      lines := p.lines.set id { l with active } } := by
    rw [Picture.flag, hl, Option.bind_some, if_neg hne]
  refine ⟨_, hread, hp.roles, hp.count, ?_, ?_, hp.byIssuer⟩
  · show p.active + _ = count.val
    rw [hp.active, hcount]
  · apply hp.lines.set
    exact ⟨hshows.issuer, rfl, hshows.valuation⟩

omit [DecidableEq Address] in
/-- A valuation is changed. -/
theorem Picture.Shows.revalue (hp : p.Shows s) {id : U64} {e : AssetEntry Address} {v : I128} {tvl : Option I128}
    (he : s.asset.get id = some e) (hv : 0 ≤ v.val) :
    ∃ p', p.revalue id e.valuation v = some p' ∧
      p'.Shows (s.rewritten id { e with valuation := v } s.activeCount tvl) := by
  obtain ⟨l, hl, hshows⟩ := hp.lines.of_get he
  have hold : l.valuation = none ∨ l.valuation = some e.valuation := by
    cases hval : l.valuation with
    | none => exact .inl rfl
    | some w => exact .inr (congrArg some (hshows.valuation w hval))
  have hread : p.revalue id e.valuation v =
      some { p with lines := p.lines.set id { l with valuation := some v } } := by
    rw [Picture.revalue, hl, Option.bind_some, if_pos ⟨hold, hv⟩]
  refine ⟨_, hread, hp.roles, hp.count, hp.active, ?_, hp.byIssuer⟩
  apply hp.lines.set
  exact ⟨hshows.issuer, hshows.active, fun w hw => (Option.some.inj hw).symm⟩

/-! ## Runs -/

section Runs

variable {assetAdmin : X → Address → Option Address} {env : Env Address} {h h' : Contract Address X}

/-- The picture of a state, and the events of a call, give a picture of the state after it. -/
theorem Picture.Shows.call (hp : p.Shows h.storage) (ht : Totalled h.storage) {op : Op Address} {r : Ret}
    (hrun : call assetAdmin env op h = .ok (r, h')) :
    (indexer Address).Follows Host.events (fun p (h : Contract Address X) => p.Shows h.storage) p h h' := by
  cases op <;> simp only [Registry.call, Call.bind_ok, Call.pure_ok] at hrun <;> obtain ⟨x, h₁, hop, hr⟩ := hrun <;>
    cases hr
  case initializeRegistry =>
    obtain ⟨hnone, -, hr⟩ := initializeRegistry_ok.1 hop
    cases hr
    obtain ⟨p', hread, hp'⟩ := hp.init ht hnone
    exact .one rfl hread hp'
  case registerAsset issuer tokenContract name assetType valuation =>
    obtain ⟨-, -, -, -, -, -, -, id, hid, count, hcount, tvl, -, hr⟩ := registerAsset_ok.1 hop
    cases hr
    obtain ⟨p', hread, hp'⟩ :=
      hp.enter ⟨x, tokenContract, issuer, name, assetType, valuation, env.sequence, true⟩ hid rfl hcount
    exact .one rfl hread hp'
  case deactivateAsset =>
    obtain ⟨e, he, -, ⟨-, hr⟩ | ⟨hact, tvl, -, hr⟩⟩ := deactivateAsset_ok.1 hop
    · cases hr
      exact .silent rfl hp
    · cases hr
      have hpos := ht.activeCount_pos he hact
      have hcount : ((activeCount h.storage).saturatingSub 1).val = (activeCount h.storage).val + -1 := by
        have hhi := (activeCount h.storage).le_hi
        rw [MInt.val_saturatingSub, MInt.val_one]
        omega
      have hne : e.active ≠ false := by simp [hact]
      obtain ⟨p', hread, hp'⟩ := hp.flag he hne hcount
      exact .one rfl hread hp'
  case updateValuation =>
    obtain ⟨-, -, hv, e, he, tvl, -, hr⟩ := updateValuation_ok.1 hop
    cases hr
    obtain ⟨p', hread, hp'⟩ := hp.revalue he hv
    exact .one rfl hread hp'
  case reactivateAsset =>
    obtain ⟨e, he, -, ⟨-, hr⟩ | ⟨hact, count, hcount, tvl, -, hr⟩⟩ := reactivateAsset_ok.1 hop
    · cases hr
      exact .silent rfl hp
    · cases hr
      have hne : e.active ≠ true := by simp [hact]
      obtain ⟨p', hread, hp'⟩ := hp.flag he hne hcount
      exact .one rfl hread hp'
  case proposeAdmin =>
    obtain ⟨hadmin, -, hr⟩ := Administered.proposeAdmin_ok.1 hop
    cases hr
    obtain ⟨p', hread, hp'⟩ := hp.notice (Roles.read_proposed hadmin)
    exact .one rfl hread hp'
  case cancelAdminProposal =>
    obtain ⟨hadmin, -, hpending, hr⟩ := Administered.cancelAdminProposal_ok.1 hop
    cases hr
    obtain ⟨p', hread, hp'⟩ := hp.notice (Roles.read_cancelled hadmin hpending)
    exact .one rfl hread hp'
  case acceptAdmin =>
    obtain ⟨-, hpending, oldAdmin, hadmin, hr⟩ := Administered.acceptAdmin_ok.1 hop
    cases hr
    obtain ⟨p', hread, hp'⟩ := hp.notice (Roles.read_setAdmin hadmin hpending)
    exact .one rfl hread hp'

/-- What the views return, from the picture. -/
structure Picture.Tells (p : Picture Address) (h : Contract Address X) : Prop where
  admin : ∀ a, (getAdmin : M Address X Address) h = .ok (a, h) ↔ p.roles.admin = some a
  pendingAdmin : getPendingAdmin h.storage = p.roles.pendingAdmin
  assetCount : (assetCount h.storage).val = p.count
  totalAssetCount : (getTotalAssetCount h.storage).val = p.count % 2 ^ 32
  activeCount : (activeCount h.storage).val = p.active
  asset : ∀ id l, p.lines.get id = some l → ∃ e, (getAsset id : M Address X _) h = .ok (e, h) ∧ e.id = id ∧ l.Shows e
  noAsset : ∀ id, p.lines.get id = none → (getAsset id : M Address X _) h = .error (.error .assetNotFound)
  issuerIds : ∀ a, indexIds h.storage.issuerIndex a = indexIds p.byIssuer a

theorem Picture.Shows.tells (hp : p.Shows h.storage) (ht : Totalled h.storage) : p.Tells h where
  admin a := by
    rw [hp.roles]
    simp [getAdmin]
  pendingAdmin := (congrArg Roles.pendingAdmin hp.roles).symm
  assetCount := hp.count.symm
  totalAssetCount := by
    rw [hp.count, getTotalAssetCount, U64.val_toU32]
    rfl
  activeCount := hp.active.symm
  asset id l hl := by
    obtain ⟨e, he, hshows⟩ := hp.lines.get_of hl
    exact ⟨e, loadAsset_ok.2 ⟨e, he, rfl⟩, ht.entry_id id e he, hshows⟩
  noAsset id hl := loadAsset_error.2 ⟨(hp.lines.none_iff id).1 hl, rfl⟩
  issuerIds a := by rw [hp.byIssuer]

/-- **The events tell what the registry holds.** In every run the indexer reads the whole log, so registrations are
logged in the order of their ids, the flag of an asset is only logged when it changes, and each logged old valuation is
the last new one; and from the picture that it has then, it can answer for the views. -/
theorem registry_followed (assetAdmin : X → Address → Option Address) (x : X) (ls : List (Label Address X)) :
    let h := (registry assetAdmin).run (Contract.fresh Address x) ls
    ∃ p, (indexer Address).readAll (indexer Address).blank h.events = some p ∧ p.Tells h := by
  intro h
  have hrun : ∃ p, (indexer Address).readAll (indexer Address).blank h.events = some p ∧
      p.Shows h.storage ∧ Totalled h.storage := by
    refine Indexer.run_followed (Q := fun (p : Picture Address) (h : Contract Address X) =>
      p.Shows h.storage ∧ Totalled h.storage) rfl ⟨shows_fresh, totalled_fresh⟩ ?_ ls
    rintro p h l r h' ⟨hp, ht⟩ hstep
    cases l with
    | call env op =>
      obtain ⟨es, p', hlog, hread, hp'⟩ := hp.call ht (Call.returned_eq_some.1 hstep)
      exact ⟨es, p', hlog, hread, hp', ht.step (step_change hstep)⟩
    | others x =>
      cases hstep
      exact .silent rfl ⟨hp, ht⟩
  obtain ⟨p, hread, hp, ht⟩ := hrun
  exact ⟨p, hread, hp.tells ht⟩

end Runs

end StellarRwa.Registry
