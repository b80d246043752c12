import StellarRwa.Notices
import StellarRwa.Compliance.Blocked
import StellarRwa.Compliance.Pruning

/-!
# Following the compliance contract by its events

The events of the compliance contract tell an indexer the records, the blocked codes in their order, the holding periods
and the acquisitions. One thing they do not tell: an expiry is logged in the same way by `is_allowed`, which leaves the
record, and by `prune_expired`, which deletes it. So the indexer marks an approved record that is logged as expired as
`lost`, until a later event shows that it was still there. Otherwise what it has is what is stored, but for the ledgers
at which records were verified (`compliance_followed`).
-/

namespace StellarRwa.Compliance

open Lib

variable {Address : Type} [DecidableEq Address]

/-! ## The indexer -/

/-- What the events say about a record. A lost record may have been pruned. -/
structure Sight where
  suspended : Bool
  jurisdiction : Bytes
  expiresAt : U32
  lost : Bool
deriving DecidableEq

/-- What the events say about the contract. -/
structure Picture (Address : Type) where
  roles : Roles Address
  sights : Storage Address Sight
  blocked : List Bytes
  minHolding : Storage Address U64
  firstAcquired : Storage Address U64

/-- The previous record in an approval is the one in sight; a lost one may have been deleted before. -/
def Sight.previous (o : Option Sight) (jurisdiction prevJurisdiction : Bytes) (prevExpiresAt : U32)
    (wasSuspended : Bool) : Bool :=
  let first : Bool := prevJurisdiction = jurisdiction ∧ prevExpiresAt = 0 ∧ wasSuspended = false
  match o with
  | none => first
  | some t =>
    (t.lost && first) ||
      decide (prevJurisdiction = t.jurisdiction ∧ prevExpiresAt = t.expiresAt ∧ wasSuspended = t.suspended)

namespace Picture

def notice (p : Picture Address) (n : Notice Address) : Option (Picture Address) :=
  (p.roles.read n).map fun roles => { p with roles }

/-- A record is in sight and is changed. -/
def amend (p : Picture Address) (a : Address) (f : Sight → Option Sight) : Option (Picture Address) :=
  (p.sights.get a).bind fun t => (f t).map fun t' => { p with sights := p.sights.set a t' }

/-- A record that expired: pruned for sure when it was suspended, since the gate does not look at its expiry then. -/
def expire (p : Picture Address) (a : Address) (expiresAt : U32) : Option (Picture Address) :=
  (p.sights.get a).bind fun t =>
    if t.expiresAt = expiresAt ∧ expiresAt ≠ 0 then
      some { p with sights := if t.suspended then p.sights.remove a else p.sights.set a { t with lost := true } }
    else none

def read (p : Picture Address) : Event Address → Option (Picture Address)
  | .init admin => p.notice (.init admin)
  | .approved a jurisdiction expiresAt prevJurisdiction prevExpiresAt wasSuspended =>
    if Sight.previous (p.sights.get a) jurisdiction prevJurisdiction prevExpiresAt wasSuspended then
      some { p with sights := p.sights.set a ⟨false, jurisdiction, expiresAt, false⟩ }
    else none
  | .suspend a => p.amend a fun t => some { t with suspended := true, lost := false }
  | .reinstat a => p.amend a fun t => if t.suspended then some { t with suspended := false, lost := false } else none
  | .removed a => (p.sights.get a).map fun _ => { p with sights := p.sights.remove a }
  | .expired a expiresAt => p.expire a expiresAt
  | .hldfail a firstAcquired minLedgers now =>
    if p.firstAcquired.get a = some firstAcquired ∧ p.minHolding.get a = some minLedgers ∧
        now.val < firstAcquired.val + minLedgers.val then
      p.amend a fun t => if t.suspended then none else some { t with lost := false }
    else none
  | .blockjur jurisdiction =>
    some (if p.blocked.any (· = jurisdiction) then p else { p with blocked := p.blocked ++ [jurisdiction] })
  | .unblkjur jurisdiction => some { p with blocked := p.blocked.filter (· ≠ jurisdiction) }
  | .proposed admin newAdmin => p.notice (.proposed admin newAdmin)
  | .cancelled admin => p.notice (.cancelled admin)
  | .setAdmin oldAdmin newAdmin => p.notice (.setAdmin oldAdmin newAdmin)
  | .minhld holder minLedgers =>
    some { p with minHolding :=
      if minLedgers = 0 then p.minHolding.remove holder else p.minHolding.set holder minLedgers }
  | .acquired holder ledger =>
    if p.firstAcquired.get holder = none then some { p with firstAcquired := p.firstAcquired.set holder ledger }
    else none

end Picture

/-- The indexer of the compliance contract. -/
def indexer (Address : Type) [DecidableEq Address] : Indexer (Picture Address) (Event Address) where
  blank := ⟨⟨none, none⟩, ∅, [], ∅, ∅⟩
  read := Picture.read

/-! ## Pictures of the contract -/

/-- The sight says what is so of the record of `a`. -/
structure Sight.Shows (t : Sight) (a : Address) (r : KycRecord Address) : Prop where
  address : r.address = a
  status : r.status = if t.suspended then .suspended else .approved
  jurisdiction : r.jurisdiction = t.jurisdiction
  expiresAt : r.expiresAt = t.expiresAt
  code : Canonical r.jurisdiction

/-- What is in sight of `a`, against its record. -/
inductive Sees (a : Address) : Option Sight → Option (KycRecord Address) → Prop
  | absent : Sees a none none
  | held {t : Sight} {r : KycRecord Address} (ht : t.Shows a r) : Sees a (some t) (some r)
  | pruned {t : Sight} (ht : t.lost = true) : Sees a (some t) none

/-- The sights against the records. -/
def Shown (sights : Storage Address Sight) (record : Storage Address (KycRecord Address)) : Prop :=
  ∀ a, Sees a (sights.get a) (record.get a)

section Sights

variable {T : Storage Address Sight} {R : Storage Address (KycRecord Address)} {a : Address} {t : Sight}
  {r : KycRecord Address}

/-- A stored record is in sight. -/
theorem Shown.held (h : Shown T R) (hr : R.get a = some r) : ∃ t, T.get a = some t ∧ t.Shows a r := by
  have ha := h a
  rw [hr] at ha
  generalize T.get a = o at ha ⊢
  cases ha with
  | held ht => exact ⟨_, rfl, ht⟩

theorem Shown.set (h : Shown T R) (ht : t.Shows a r) : Shown (T.set a t) (R.set a r) := by
  intro b
  rw [Storage.get_set, Storage.get_set]
  split
  · rename_i hb
    rw [hb]
    exact .held ht
  · exact h b

/-- A sight is changed, and still shows the record. -/
theorem Shown.set_left (h : Shown T R) (hr : R.get a = some r) (ht : t.Shows a r) : Shown (T.set a t) R := by
  have hset := h.set ht
  rwa [Storage.set_of_get hr] at hset

theorem Shown.remove (h : Shown T R) (a : Address) : Shown (T.remove a) (R.remove a) := by
  intro b
  rw [Storage.get_remove, Storage.get_remove]
  split
  · exact .absent
  · exact h b

/-- A record is deleted, and its sight is marked as lost. -/
theorem Shown.lose (h : Shown T R) (ht : t.lost = true) : Shown (T.set a t) (R.remove a) := by
  intro b
  rw [Storage.get_set, Storage.get_remove]
  split
  · exact .pruned ht
  · exact h b

end Sights

/-- The picture says what is so of the storage. -/
structure Picture.Shows (p : Picture Address) (s : State Address) : Prop where
  roles : p.roles = s.roles
  sights : Shown p.sights s.record
  blocked : p.blocked = blockedList s
  minHolding : p.minHolding = s.minHoldingPeriod
  firstAcquired : p.firstAcquired = s.firstAcquiredLedger

/-! ## One call -/

section Calls

variable {env : Env Address} {h h' : Contract Address} {p : Picture Address} {s s' : State Address} {a : Address}
  {t : Sight} {r : KycRecord Address}

/-- The log of a call takes the picture `p` along. -/
abbrev Followed (p : Picture Address) (h h' : Contract Address) : Prop :=
  (indexer Address).Follows Host.events (fun p (h : Contract Address) => p.Shows h.storage) p h h'

/-- The roles alone have changed. -/
theorem Picture.Shows.notice (hp : p.Shows s) {n : Notice Address} {roles : Roles Address}
    (hr : s.roles.read n = some roles) : ∃ p', p.notice n = some p' ∧ p'.Shows { s with roles := roles } :=
  ⟨{ p with roles }, by rw [Picture.notice, hp.roles, hr, Option.map_some], rfl, hp.sights, hp.blocked, hp.minHolding,
    hp.firstAcquired⟩

/-- The sights alone have changed. -/
theorem Picture.Shows.sight (hp : p.Shows s) {T : Storage Address Sight} {R : Storage Address (KycRecord Address)}
    (hT : Shown T R) : ({ p with sights := T } : Picture Address).Shows { s with record := R } :=
  ⟨hp.roles, hT, hp.blocked, hp.minHolding, hp.firstAcquired⟩

/-- A record is amended. -/
theorem Picture.Shows.amend (hp : p.Shows s) {f : Sight → Option Sight} (r' : KycRecord Address)
    (hr : s.record.get a = some r) (hf : ∀ t : Sight, t.Shows a r → ∃ t', f t = some t' ∧ t'.Shows a r') :
    ∃ p', p.amend a f = some p' ∧ p'.Shows (s.withRecord a r') := by
  obtain ⟨t, ht, hshows⟩ := hp.sights.held hr
  obtain ⟨t', ht', hshows'⟩ := hf t hshows
  refine ⟨_, ?_, hp.sight (hp.sights.set hshows')⟩
  rw [Picture.amend, ht, Option.bind_some, ht', Option.map_some]

omit [DecidableEq Address] in
/-- The previous record that an approval logs is the one in sight. -/
theorem Sees.previous {o : Option Sight} {prev : Option (KycRecord Address)} (ho : Sees a o prev) (j : Bytes)
    (e : U32) :
    ∃ pj pe ws, approvedEvent a j e prev = .approved a (canon j) e pj pe ws ∧
      Sight.previous o (canon j) pj pe ws = true := by
  cases ho with
  | absent => exact ⟨_, _, _, rfl, by simp [Sight.previous]⟩
  | @held t r ht =>
    refine ⟨_, _, _, rfl, ?_⟩
    have hstatus := ht.status
    cases hsus : t.suspended <;> simp [Sight.previous, ht.jurisdiction, ht.expiresAt, hstatus, hsus]
  | pruned ht => exact ⟨_, _, _, rfl, by simp [Sight.previous, ht]⟩

theorem approveAddress_followed {now : U32} {j : Bytes} {e : U32} {u : Unit} (hp : p.Shows h.storage)
    (hrun : approveAddress now a j e h = .ok (u, h')) : Followed p h h' := by
  obtain ⟨-, hj, s, hs, hr⟩ := approveAddress_ok.1 hrun
  obtain ⟨pj, pe, ws, hevent, hprevious⟩ := (hp.sights a).previous j e
  rw [hevent] at hr
  have hshows : (⟨false, canon j, e, false⟩ : Sight).Shows a (approvedRecord now a j e) :=
    ⟨rfl, rfl, rfl, rfl, canonical_canon hj⟩
  have hp' := hp.sight (hp.sights.set hshows)
  cases hr
  refine .one rfl (if_pos hprevious) ?_
  obtain ⟨-, p, n, count, -, -, rfl⟩ | ⟨prev, -, rfl⟩ := hs
  · exact ⟨hp'.roles, hp'.sights, hp'.blocked, hp'.minHolding, hp'.firstAcquired⟩
  · exact hp'

theorem remove_followed {admin : Address} {u : Unit} (hp : p.Shows h.storage)
    (hrun : remove env admin a h = .ok (u, h')) : Followed p h h' := by
  obtain ⟨-, -, ⟨r, hrec⟩, s, hs, hr⟩ := remove_ok.1 hrun
  obtain ⟨t, ht, -⟩ := hp.sights.held hrec
  have hp' := hp.sight (hp.sights.remove a)
  have hread : p.read (.removed a) = some { p with sights := p.sights.remove a } := by
    rw [Picture.read, ht, Option.map_some]
  cases hr
  refine .one rfl hread ?_
  obtain ⟨-, rfl⟩ | ⟨p, -, rfl⟩ := hs
  · exact hp'
  · exact ⟨hp'.roles, hp'.sights, hp'.blocked, hp'.minHolding, hp'.firstAcquired⟩

/-! ## The gate -/

/-- When the gate refuses an expired record, that record is approved. -/
theorem isAllowed_expired {b : Bool} (hrun : isAllowed env a h = .ok (b, h')) (hevents : h'.events ≠ h.events)
    (hr : h.storage.record.get a = some r) : r.status = .approved := by
  by_contra hne
  rw [isAllowed, Call.bind_ok] at hrun
  obtain ⟨_, _, hs, hrun⟩ := hrun
  cases hs
  simp only [hr, if_pos hne, Call.pure_ok] at hrun
  cases hrun
  exact hevents rfl

/-- What the gate logs of a holding period that runs. -/
theorem holdingPeriodOver_logs {b : Bool} (hrun : holdingPeriodOver env a h = .ok (b, h')) :
    h' = h ∨ ∃ m f : U64, h.storage.minHoldingPeriod.get a = some m ∧ h.storage.firstAcquiredLedger.get a = some f ∧
      env.sequence.val < f.val + m.val ∧
      h' = { h with events := h.events ++ [.hldfail a f m env.sequence.toU64] } := by
  rw [holdingPeriodOver, Call.bind_ok] at hrun
  obtain ⟨_, _, hs, hrun⟩ := hrun
  cases hs
  cases hm : h.storage.minHoldingPeriod.get a with
  | none =>
    simp only [hm, Call.pure_ok] at hrun
    cases hrun
    exact .inl rfl
  | some m =>
    cases hf : h.storage.firstAcquiredLedger.get a with
    | none =>
      simp only [hm, hf, Call.pure_ok] at hrun
      cases hrun
      exact .inl rfl
    | some f =>
      simp only [hm, hf, Call.ite_ok, Call.bind_ok, Call.publish_ok, Call.pure_ok, lt_saturatingAdd] at hrun
      rcases hrun with ⟨hlock, _, _, hu, hr⟩ | ⟨-, hr⟩
      · cases hu
        cases hr
        exact .inr ⟨m, f, rfl, rfl, hlock.2, rfl⟩
      · cases hr
        exact .inl rfl

omit [DecidableEq Address] in
/-- An approved record is not in sight as suspended. -/
theorem Sight.Shows.not_suspended (ht : t.Shows a r) (hr : r.status = .approved) : t.suspended = false := by
  cases hsus : t.suspended with
  | false => rfl
  | true =>
    have hstatus := ht.status
    rw [hr, hsus] at hstatus
    cases hstatus

omit [DecidableEq Address] in
theorem Sight.Shows.suspended (ht : t.Shows a r) (hr : r.status = .suspended) : t.suspended = true := by
  cases hsus : t.suspended with
  | true => rfl
  | false =>
    have hstatus := ht.status
    rw [hr, hsus] at hstatus
    cases hstatus

theorem isAllowed_followed {b : Bool} (hp : p.Shows h.storage) (hrun : isAllowed env a h = .ok (b, h')) :
    Followed p h h' := by
  obtain ⟨-, -, rfl⟩ | ⟨r, hr, hne, -, -, rfl⟩ | ⟨r, hr, happroved, -, -, -, hhold⟩ := isAllowed_cases hrun
  · exact .silent rfl hp
  · obtain ⟨t, ht, hshows⟩ := hp.sights.held hr
    have happroved := isAllowed_expired hrun (by simp) hr
    have hread : p.read (.expired a r.expiresAt) =
        some { p with sights := p.sights.set a { t with lost := true } } := by
      simp [Picture.read, Picture.expire, ht, hshows.expiresAt.symm, hne, hshows.not_suspended happroved]
    refine .one rfl hread (hp.sight (hp.sights.set_left hr ?_))
    exact ⟨hshows.address, hshows.status, hshows.jurisdiction, hshows.expiresAt, hshows.code⟩
  · obtain rfl | ⟨m, f, hm, hf, hlt, rfl⟩ := holdingPeriodOver_logs hhold
    · exact .silent rfl hp
    · obtain ⟨t, ht, hshows⟩ := hp.sights.held hr
      have hread : p.read (.hldfail a f m env.sequence.toU64) =
          some { p with sights := p.sights.set a { t with lost := false } } := by
        simp [Picture.read, Picture.amend, hp.firstAcquired, hp.minHolding, hf, hm, hlt, ht,
          hshows.not_suspended happroved]
      refine .one rfl hread (hp.sight (hp.sights.set_left hr ?_))
      exact ⟨hshows.address, hshows.status, hshows.jurisdiction, hshows.expiresAt, hshows.code⟩

/-! ## Pruning -/

/-- The expiries that a pruning logs take a picture along, one record at a time. -/
theorem readAll_expired {D : List Address} (hD : D.Nodup) {p : Picture Address}
    {R : Storage Address (KycRecord Address)} (hp : Shown p.sights R) {expiry : Address → U32}
    (hexpired : ∀ a ∈ D, ∃ r, R.get a = some r ∧ r.expiresAt = expiry a ∧ expiry a ≠ 0) :
    ∃ T, (indexer Address).readAll p (D.map fun a => .expired a (expiry a)) = some { p with sights := T } ∧
      Shown T (R.removeAll D) := by
  induction D generalizing p R with
  | nil => exact ⟨p.sights, rfl, hp⟩
  | cons a D ih =>
    obtain ⟨hnot, hnd⟩ := List.nodup_cons.1 hD
    obtain ⟨⟨r, hr, hexpiry, hne⟩, hrest⟩ := List.forall_mem_cons.1 hexpired
    obtain ⟨t, ht, hshows⟩ := hp.held hr
    -- a suspended record goes out of sight, an approved one is lost
    have hone : ∃ T, p.expire a (expiry a) = some { p with sights := T } ∧ Shown T (R.remove a) := by
      have hfits : t.expiresAt = expiry a ∧ expiry a ≠ 0 := ⟨hshows.expiresAt.symm.trans hexpiry, hne⟩
      refine ⟨_, by rw [Picture.expire, ht, Option.bind_some, if_pos hfits], ?_⟩
      split
      · exact hp.remove a
      · exact hp.lose rfl
    obtain ⟨T, hread, hT⟩ := hone
    have hlater : ∀ b ∈ D, ∃ r, (R.remove a).get b = some r ∧ r.expiresAt = expiry b ∧ expiry b ≠ 0 := by
      intro b hb
      have hba : b ≠ a := fun e => hnot (e ▸ hb)
      rw [Storage.get_remove_of_ne R hba]
      exact hrest b hb
    obtain ⟨T', hread', hT'⟩ := ih hnd (p := { p with sights := T }) hT hlater
    refine ⟨T', ?_, hT'⟩
    rw [List.map_cons, Indexer.readAll_cons]
    show (p.expire a (expiry a)).bind _ = _
    rw [hread, Option.bind_some, hread']

theorem pruneExpired_followed {admin : Address} {maxRecords n : U32} (hw : WellPaged h.storage) (hp : p.Shows h.storage)
    (hrun : pruneExpired env admin maxRecords h = .ok (n, h')) : Followed p h h' := by
  obtain ⟨-, -, -, hhost, -⟩ := pruneExpired_ok hw hrun
  set D := pruned h.storage env.sequence maxRecords with hD
  have hhas : ∀ a ∈ D, h.storage.record.has a = true := fun a ha => hw.mem_getAllowlist_iff_record.1 (mem_of_pruned ha)
  have hexpired : ∀ a ∈ D, ∃ r, h.storage.record.get a = some r ∧ r.expiresAt = expiryOf h.storage a ∧
      expiryOf h.storage a ≠ 0 := by
    intro a ha
    obtain ⟨r, hr⟩ := Storage.has_iff.1 (hhas a ha)
    have hexp : expiredAt h.storage env.sequence a = true := (List.mem_filter.1 ha).2
    have hexpiry : expiryOf h.storage a = r.expiresAt := by
      rw [expiryOf, hr]
      rfl
    simp only [expiredAt, hr, decide_eq_true_eq] at hexp
    exact ⟨r, hr, hexpiry.symm, hexpiry ▸ hexp.1⟩
  obtain ⟨T, hread, hT⟩ := readAll_expired (pruned_nodup hw env.sequence maxRecords) hp.sights hexpired
  rw [hhost]
  refine ⟨expiredEvents h.storage D, { p with sights := T }, rfl, by rw [expiredEvents_eq hhas]; exact hread, ?_⟩
  exact ⟨hp.roles, hT, hp.blocked, hp.minHolding, hp.firstAcquired⟩

/-! ## Jurisdictions -/

theorem blockJurisdiction_followed {tr : History Address} {admin : Address} {j : Bytes} {u : Unit}
    (hb : BlockedOver tr h.storage) (hp : p.Shows h.storage)
    (hrun : blockJurisdiction env admin j h = .ok (u, h')) : Followed p h h' := by
  obtain ⟨-, -, -, hr⟩ := blockJurisdiction_ok.1 hrun
  have hmem : p.blocked.any (· = canon j) = true ↔ (h.storage.blocked.get (canon j)).getD false = true := by
    rw [hp.blocked]
    refine Iff.trans ?_ (hb.mem (canon j))
    simp
  cases hr
  refine .one rfl rfl ?_
  cases hflag : (h.storage.blocked.get (canon j)).getD false with
  | true =>
    rw [if_pos (hmem.2 hflag)]
    exact ⟨hp.roles, hp.sights, hp.blocked, hp.minHolding, hp.firstAcquired⟩
  | false =>
    rw [if_neg fun hin => by simpa [hflag] using hmem.1 hin]
    exact ⟨hp.roles, hp.sights, congrArg (· ++ [canon j]) hp.blocked, hp.minHolding, hp.firstAcquired⟩

/-! ## All calls -/

/-- **One answered call** takes the picture along. -/
theorem call_followed {tr : History Address} {op : Op Address} {r : Ret} (hw : WellPaged h.storage)
    (hb : BlockedOver tr h.storage) (hp : p.Shows h.storage) (hrun : call env op h = .ok (r, h')) :
    Followed p h h' := by
  cases op <;> simp only [call, Call.bind_ok, Call.pure_ok] at hrun <;> obtain ⟨x, h₁, hop, hr⟩ := hrun <;> cases hr
  case initializeContract =>
    obtain ⟨hnone, -, hr⟩ := initializeContract_ok.1 hop
    cases hr
    obtain ⟨p', hread, hp'⟩ := hp.notice (Roles.read_init hnone)
    exact .one rfl hread hp'
  case addToAllowlist => exact approveAddress_followed hp (addToAllowlist_ok.1 hop).2.2
  case addToAllowlistBatch =>
    refine Call.forEach_rule (P := Followed p h) ?_ (.silent rfl hp) (addToAllowlistBatch_ok.1 hop).2.2
    intro entry _ h₁ h₂ hfollowed hround
    exact hfollowed.trans fun p₁ hp₁ => approveAddress_followed hp₁ hround
  case suspend =>
    obtain ⟨-, -, r, hr, hr'⟩ := suspend_ok.1 hop
    cases hr'
    obtain ⟨p', hread, hp'⟩ := hp.amend { r with status := .suspended } hr fun t ht =>
      ⟨{ t with suspended := true, lost := false }, rfl, ht.address, rfl, ht.jurisdiction, ht.expiresAt, ht.code⟩
    exact .one rfl hread hp'
  case reinstate =>
    obtain ⟨-, -, r, hr, hstatus, hr'⟩ := reinstate_ok.1 hop
    cases hr'
    obtain ⟨p', hread, hp'⟩ := hp.amend { r with status := .approved } hr fun t ht =>
      ⟨{ t with suspended := false, lost := false }, if_pos (ht.suspended hstatus), ht.address, rfl, ht.jurisdiction,
        ht.expiresAt, ht.code⟩
    exact .one rfl hread hp'
  case remove => exact remove_followed hp hop
  case isAllowed => exact isAllowed_followed hp hop
  case blockJurisdiction => exact blockJurisdiction_followed hb hp hop
  case unblockJurisdiction admin j =>
    obtain ⟨-, -, -, hr⟩ := unblockJurisdiction_ok.1 hop
    cases hr
    refine .one rfl rfl ⟨hp.roles, hp.sights, ?_, hp.minHolding, hp.firstAcquired⟩
    exact congrArg (List.filter (· ≠ canon j)) hp.blocked
  case pruneExpired => exact pruneExpired_followed hw hp hop
  case proposeAdmin =>
    obtain ⟨hadmin, -, hr⟩ := proposeAdmin_ok.1 hop
    cases hr
    obtain ⟨p', hread, hp'⟩ := hp.notice (Roles.read_proposed hadmin)
    exact .one rfl hread hp'
  case cancelAdminProposal =>
    obtain ⟨hadmin, -, hpending, hr⟩ := cancelAdminProposal_ok.1 hop
    cases hr
    obtain ⟨p', hread, hp'⟩ := hp.notice (Roles.read_cancelled hadmin hpending)
    exact .one rfl hread hp'
  case acceptAdmin =>
    obtain ⟨-, hpending, oldAdmin, hadmin, hr⟩ := acceptAdmin_ok.1 hop
    cases hr
    obtain ⟨p', hread, hp'⟩ := hp.notice (Roles.read_setAdmin hadmin hpending)
    exact .one rfl hread hp'
  case setMinHoldingPeriod =>
    obtain ⟨-, -, hr⟩ := setMinHoldingPeriod_ok.1 hop
    cases hr
    refine .one rfl rfl ⟨hp.roles, hp.sights, hp.blocked, ?_, hp.firstAcquired⟩
    rw [hp.minHolding]
  case recordAcquisition =>
    obtain ⟨-, -, ⟨hnone, hr⟩ | ⟨-, hr⟩⟩ := recordAcquisition_ok.1 hop
    · cases hr
      refine .one rfl (if_pos (hp.firstAcquired ▸ hnone)) ⟨hp.roles, hp.sights, hp.blocked, hp.minHolding, ?_⟩
      rw [hp.firstAcquired]
    · cases hr
      exact .silent rfl hp

end Calls

/-! ## Runs -/

/-- What the views return, from the picture. -/
structure Picture.Tells (p : Picture Address) (h : Contract Address) : Prop where
  admin : ∀ a, (getAdmin : M Address Address) h = .ok (a, h) ↔ p.roles.admin = some a
  pendingAdmin : getPendingAdmin h.storage = p.roles.pendingAdmin
  record : ∀ a t, p.sights.get a = some t → t.lost = false → ∃ r, getRecord h.storage a = some r ∧ t.Shows a r
  lost : ∀ a t, p.sights.get a = some t → t.lost = true → ∀ r, getRecord h.storage a = some r → t.Shows a r
  noRecord : ∀ a, p.sights.get a = none → getRecord h.storage a = none
  blocked : getBlockedJurisdictions h.storage = p.blocked
  minHolding : ∀ a, getMinHoldingPeriod h.storage a = p.minHolding.get a
  firstAcquired : ∀ a, getFirstAcquiredLedger h.storage a = p.firstAcquired.get a

omit [DecidableEq Address] in
/-- What is in sight and not lost is stored. -/
theorem Sees.record {a : Address} {t : Sight} {o : Option (KycRecord Address)} (ho : Sees a (some t) o)
    (hkept : t.lost = false) : ∃ r, o = some r ∧ t.Shows a r := by
  cases ho with
  | held ht => exact ⟨_, rfl, ht⟩
  | pruned ht => cases hkept.symm.trans ht

theorem Picture.Shows.tells {p : Picture Address} {h : Contract Address} (hp : p.Shows h.storage) : p.Tells h where
  admin a := by
    rw [hp.roles]
    simp [getAdmin]
  pendingAdmin := (congrArg Roles.pendingAdmin hp.roles).symm
  record a t ht hkept := by
    have ha := hp.sights a
    rw [ht] at ha
    exact ha.record hkept
  lost a t ht _ r hr := by
    obtain ⟨t', ht', hshows⟩ := hp.sights.held hr
    obtain rfl : t = t' := Option.some.inj (ht.symm.trans ht')
    exact hshows
  noRecord a ha := by
    by_contra hne
    obtain ⟨r, hr⟩ := Option.ne_none_iff_exists'.1 hne
    obtain ⟨t, ht, -⟩ := hp.sights.held hr
    cases ha.symm.trans ht
  blocked := hp.blocked.symm
  minHolding a := by rw [hp.minHolding, getMinHoldingPeriod]
  firstAcquired a := by rw [hp.firstAcquired, getFirstAcquiredLedger]

/-- **The events tell what the compliance contract holds.** In every run the indexer reads the whole log: the previous
record in an approval is the one that was there, only suspended records are reinstated, a refused transfer names the
stored period and acquisition, an acquisition is logged once. From the picture that it has then it knows the admins, the
blocked codes, the holding periods and acquisitions, and of each record the status, the jurisdiction and the expiry, but
not the ledger at which it was verified; of a record it has as lost it knows them if the record is still there. Every
record is stored under its own address, approved or suspended, and its jurisdiction is a canonical code. -/
theorem compliance_followed (ls : List (Env Address × Op Address)) :
    let h := (compliance Address).run (Contract.fresh Address) ls
    ∃ p, (indexer Address).readAll (indexer Address).blank h.events = some p ∧ p.Tells h := by
  intro h
  have hrun : ∃ p, (indexer Address).readAll (indexer Address).blank h.events = some p ∧
      p.Shows h.storage ∧ WellPaged h.storage ∧ ∃ tr, BlockedOver tr h.storage := by
    refine Indexer.run_followed (Q := fun (p : Picture Address) (h : Contract Address) =>
      p.Shows h.storage ∧ WellPaged h.storage ∧ ∃ tr, BlockedOver tr h.storage) rfl ?_ ?_ ls
    · refine ⟨⟨rfl, fun a => .absent, rfl, rfl, rfl⟩, wellPaged_fresh, [], run_blocked []⟩
    · rintro p h ⟨env, op⟩ r h' ⟨hp, hw, tr, hb⟩ hstep
      have hrun := Call.returned_eq_some.1 hstep
      obtain ⟨es, p', hlog, hread, hp'⟩ := call_followed hw hb hp hrun
      have hb' := hb.step (l := (env, op)) (r := r) (call_blocked hrun)
      exact ⟨es, p', hlog, hread, hp', (call_listed hw hrun).wellPaged, _, hb'⟩
  obtain ⟨p, hread, hp, -⟩ := hrun
  exact ⟨p, hread, hp.tells⟩

end StellarRwa.Compliance
