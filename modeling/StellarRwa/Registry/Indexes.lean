import StellarRwa.Lib.Index
import StellarRwa.Registry.Totals

/-!
# The indexes

The three secondary indexes are written at registration only, while the entries are rewritten by three other calls;
they stay exact because no rewriting changes the fields they index (`Identity`). `indexes_exact` is the result over
runs.
-/

namespace StellarRwa.Registry

open Lib

variable {Address X : Type} [DecidableEq Address] {assetAdmin : X → Address → Option Address}
  {s s' : State Address}

/-- The fields of an entry that are fixed at registration. -/
structure Identity (e e' : AssetEntry Address) : Prop where
  id : e'.id = e.id
  tokenContract : e'.tokenContract = e.tokenContract
  issuer : e'.issuer = e.issuer
  name : e'.name = e.name
  assetType : e'.assetType = e.assetType
  createdAt : e'.createdAt = e.createdAt

omit [DecidableEq Address] in
theorem Identity.refl (e : AssetEntry Address) : Identity e e := ⟨rfl, rfl, rfl, rfl, rfl, rfl⟩

omit [DecidableEq Address] in
theorem Identity.trans {e₁ e₂ e₃ : AssetEntry Address} (h : Identity e₁ e₂) (h' : Identity e₂ e₃) :
    Identity e₁ e₃ :=
  ⟨h'.id.trans h.id, h'.tokenContract.trans h.tokenContract, h'.issuer.trans h.issuer, h'.name.trans h.name,
    h'.assetType.trans h.assetType, h'.createdAt.trans h.createdAt⟩

/-- The indexes against the entries. -/
structure Indexed (s : State Address) : Prop where
  token : ∀ t id, s.tokenContractIndex.get t = some id ↔ ∃ e, s.asset.get id = some e ∧ e.tokenContract = t
  issuer : Index.Exact (indexIds s.issuerIndex) AssetEntry.issuer s.asset
  type : Index.Exact (indexIds s.typeIndex) AssetEntry.assetType s.asset

theorem indexed_fresh : Indexed (State.fresh Address) where
  token t id := by simp [State.fresh]
  issuer := .empty _
  type := .empty _

theorem indexIds_pushId {K : Type} [DecidableEq K] (index : Storage K (List U64)) (key : K) (id : U64) (k : K) :
    indexIds (pushId index key id) k = if k = key then indexIds index k ++ [id] else indexIds index k := by
  rw [indexIds, pushId, Storage.get_set]
  split
  · rename_i hk
    rw [hk, Option.getD_some]
  · rfl

theorem Indexed.registered {entry : AssetEntry Address} {count : U64} {tvl : I128} (hi : Indexed s)
    (ht : Totalled s) (hnew : s.tokenContractIndex.get entry.tokenContract = none)
    (hid : entry.id.val = (assetCount s).val + 1) : Indexed (s.registered entry count tvl) := by
  have hmax : ∀ id e, s.asset.get id = some e → id < entry.id := by
    intro id e he
    have hle := ht.ids.le_of_get he
    rw [MInt.lt_def]
    omega
  have hfree := ht.ids.get_next hid
  refine ⟨fun t id => ?_, hi.issuer.push hfree hmax fun k => indexIds_pushId _ _ _ _,
    hi.type.push hfree hmax fun k => indexIds_pushId _ _ _ _⟩
  show (s.tokenContractIndex.set entry.tokenContract entry.id).get t = some id ↔
    ∃ e, (s.asset.set entry.id entry).get id = some e ∧ e.tokenContract = t
  rw [Storage.get_set, Storage.get_set]
  by_cases hid' : id = entry.id
  · subst hid'
    by_cases htok : t = entry.tokenContract
    · simp [htok]
    · have hno : s.tokenContractIndex.get t ≠ some entry.id := fun h => by
        obtain ⟨e, he, -⟩ := (hi.token t _).1 h
        rw [hfree] at he
        cases he
      simp [htok, Ne.symm htok, hno]
  · by_cases htok : t = entry.tokenContract
    · have hno : ¬ ∃ e, s.asset.get id = some e ∧ e.tokenContract = t := fun h => by
        have := (hi.token t id).2 h
        rw [htok, hnew] at this
        cases this
      rw [if_pos htok, if_neg hid']
      simp only [Option.some.injEq, eq_comm, hid', false_iff]
      simpa [eq_comm] using hno
    · rw [if_neg htok, if_neg hid', hi.token]

/-- An entry is replaced by one with the same identity. -/
theorem Indexed.rewritten {id : U64} {e e' : AssetEntry Address} {count : Option U64} {tvl : Option I128}
    (hi : Indexed s) (he : s.asset.get id = some e) (hsame : Identity e e') :
    Indexed (s.rewritten id e' count tvl) := by
  refine ⟨fun t id' => ?_, hi.issuer.replace he hsame.issuer, hi.type.replace he hsame.assetType⟩
  refine (hi.token t id').trans ?_
  show _ ↔ ∃ e₁, (s.asset.set id e').get id' = some e₁ ∧ e₁.tokenContract = t
  rw [Storage.get_set]
  split
  · rename_i hid
    subst hid
    simp [he, hsame.tokenContract]
  · rfl

/-- No call changes the identity of a registered entry. -/
theorem Change.identity (hchange : Change s s') (ht : Totalled s) {id : U64} {e : AssetEntry Address}
    (he : s.asset.get id = some e) : ∃ e', s'.asset.get id = some e' ∧ Identity e e' := by
  have hset : ∀ {id' : U64} {e₁ e₂ : AssetEntry Address}, s.asset.get id' = some e₁ → Identity e₁ e₂ →
      ∃ e', (s.asset.set id' e₂).get id = some e' ∧ Identity e e' := by
    intro id' e₁ e₂ he₁ hsame
    rw [Storage.get_set]
    split
    · rename_i hid
      subst hid
      rw [he] at he₁
      cases he₁
      exact ⟨e₂, rfl, hsame⟩
    · exact ⟨e, he, .refl e⟩
  cases hchange with
  | none => exact ⟨e, he, .refl e⟩
  | roles => exact ⟨e, he, .refl e⟩
  | initialized => exact ⟨e, he, .refl e⟩
  | @registered entry _ _ _ _ hid =>
    have hne : id ≠ entry.id := by
      rintro rfl
      cases (ht.ids.get_next hid).symm.trans he
    exact ⟨e, (Storage.get_set_of_ne _ _ hne).trans he, .refl e⟩
  | deactivated hentry => exact hset hentry ⟨rfl, rfl, rfl, rfl, rfl, rfl⟩
  | reactivated hentry => exact hset hentry ⟨rfl, rfl, rfl, rfl, rfl, rfl⟩
  | revalued hentry => exact hset hentry ⟨rfl, rfl, rfl, rfl, rfl, rfl⟩

theorem Indexed.step (hi : Indexed s) (ht : Totalled s) (hchange : Change s s') : Indexed s' := by
  cases hchange with
  | none => exact hi
  | roles => exact ⟨hi.token, hi.issuer, hi.type⟩
  | initialized => exact ⟨hi.token, hi.issuer, hi.type⟩
  | registered _ hnew hid => exact hi.registered ht hnew hid
  | deactivated hentry => exact hi.rewritten hentry ⟨rfl, rfl, rfl, rfl, rfl, rfl⟩
  | reactivated hentry => exact hi.rewritten hentry ⟨rfl, rfl, rfl, rfl, rfl, rfl⟩
  | revalued hentry => exact hi.rewritten hentry ⟨rfl, rfl, rfl, rfl, rfl, rfl⟩

theorem run_indexed (assetAdmin : X → Address → Option Address) (x : X) (ls : List (Label Address X)) :
    Indexed ((registry assetAdmin).run (Contract.fresh Address x) ls).storage := by
  suffices hboth : Totalled ((registry assetAdmin).run (Contract.fresh Address x) ls).storage ∧
      Indexed ((registry assetAdmin).run (Contract.fresh Address x) ls).storage from hboth.2
  refine System.invariant (I := fun h : Contract Address X => Totalled h.storage ∧ Indexed h.storage)
    ⟨totalled_fresh, indexed_fresh⟩ ?_ ls
  intro h l r h' hinv hstep
  exact ⟨hinv.1.step (step_change hstep), hinv.2.step hinv.1 (step_change hstep)⟩

/-- A registered entry keeps its identity for the rest of the run. -/
theorem run_identity {x : X} {ls : List (Label Address X)} (ls' : List (Label Address X)) {id : U64}
    {e : AssetEntry Address}
    (he : ((registry assetAdmin).run (Contract.fresh Address x) ls).storage.asset.get id = some e) :
    ∃ e', ((registry assetAdmin).run (Contract.fresh Address x) (ls ++ ls')).storage.asset.get id = some e' ∧
      Identity e e' := by
  rw [System.run_append]
  generalize hstart : (registry assetAdmin).run (Contract.fresh Address x) ls = h₀ at he ⊢
  have htotalled : Totalled h₀.storage := hstart ▸ run_totalled assetAdmin x ls
  suffices hboth : Totalled ((registry assetAdmin).run h₀ ls').storage ∧
      ∃ e', ((registry assetAdmin).run h₀ ls').storage.asset.get id = some e' ∧ Identity e e' from hboth.2
  refine System.invariant
    (I := fun h : Contract Address X => Totalled h.storage ∧ ∃ e', h.storage.asset.get id = some e' ∧ Identity e e')
    ⟨htotalled, e, he, .refl e⟩ ?_ ls'
  rintro h l r h' ⟨ht, e₁, he₁, hsame⟩ hstep
  obtain ⟨e₂, he₂, hsame'⟩ := (step_change hstep).identity ht he₁
  exact ⟨ht.step (step_change hstep), e₂, he₂, hsame.trans hsame'⟩

/-- **The indexes are exact** in every reachable state: the token index gives the one id of each token contract, the
issuer and type indexes list the ids of each issuer and type in strictly ascending order, so every id is in one list of
each kind, once; and what an entry was registered with never changes. -/
theorem indexes_exact (assetAdmin : X → Address → Option Address) (x : X) (ls : List (Label Address X)) :
    let s := ((registry assetAdmin).run (Contract.fresh Address x) ls).storage
    (∀ t id, s.tokenContractIndex.get t = some id ↔ ∃ e, s.asset.get id = some e ∧ e.tokenContract = t) ∧
      (∀ id id' e e', s.asset.get id = some e → s.asset.get id' = some e' → e.tokenContract = e'.tokenContract →
        id = id') ∧
      (∀ i, (indexIds s.issuerIndex i).Pairwise (· < ·) ∧
        ∀ id, id ∈ indexIds s.issuerIndex i ↔ ∃ e, s.asset.get id = some e ∧ e.issuer = i) ∧
      (∀ k, (indexIds s.typeIndex k).Pairwise (· < ·) ∧
        ∀ id, id ∈ indexIds s.typeIndex k ↔ ∃ e, s.asset.get id = some e ∧ e.assetType = k) ∧
      (∀ id e, s.asset.get id = some e →
        (∀ i, (indexIds s.issuerIndex i).count id = if e.issuer = i then 1 else 0) ∧
          ∀ k, (indexIds s.typeIndex k).count id = if e.assetType = k then 1 else 0) ∧
      ∀ ls' id e, s.asset.get id = some e →
        ∃ e', ((registry assetAdmin).run (Contract.fresh Address x) (ls ++ ls')).storage.asset.get id = some e' ∧
          Identity e e' := by
  intro s
  have hi : Indexed s := run_indexed assetAdmin x ls
  have hirrefl : ∀ i : U64, ¬ i < i := fun i => lt_irrefl i.val
  refine ⟨hi.token, fun id id' e e' he he' htok => ?_, fun i => ⟨hi.issuer.ascending i, hi.issuer.mem i⟩,
    fun k => ⟨hi.type.ascending k, hi.type.mem k⟩,
    fun id e he => ⟨hi.issuer.count hirrefl he, hi.type.count hirrefl he⟩, fun ls' id e he => run_identity ls' he⟩
  have h := (hi.token _ id).2 ⟨e, he, rfl⟩
  rw [(hi.token _ id').2 ⟨e', he', htok.symm⟩] at h
  exact (Option.some.inj h).symm

end StellarRwa.Registry
