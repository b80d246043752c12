import StellarRwa.Notices
import StellarRwa.Dividend.Lifecycle

/-!
# Following the dividends by their events

The events of the dividend contract tell an indexer which distributions there are, what each was worth, who was paid how
much, and what went back to the admin. The indexer reads strictly: it stops at a creation out of order, at a second
claim of a holder, at a claim beyond the total, at anything after a distribution has ended. It never stops, what it has
of a distribution is so of its record (`Line.Shows`), and the money adds up: `distributed` is what was logged as paid
and as reclaimed (`dividend_followed`).
-/

namespace StellarRwa.Dividend

open Lib

variable {Address X A : Type}

/-! ## The indexer -/

/-- What the events say about a distribution. -/
structure Line (Address : Type) where
  totalAmount : I128
  distributed : I128
  completed : Bool
  cancelled : Bool
  paid : Storage Address I128
  reclaimed : I128

/-- What the events say about the contract. -/
structure Picture (Address : Type) where
  roles : Roles Address
  count : Int
  lines : Storage U64 (Line Address)

variable [DecidableEq Address]

namespace Line

/-- A payment to a holder that was not paid before. -/
def pay (l : Line Address) (holder : Address) (amount : I128) : Option (Line Address) :=
  (l.distributed.checkedAdd amount).bind fun distributed =>
    if l.paid.get holder = none ∧ 0 < amount.val ∧ distributed.val ≤ l.totalAmount.val then
      some { l with distributed, completed := l.totalAmount ≤ distributed, paid := l.paid.set holder amount }
    else none

omit [DecidableEq Address] in
/-- The rest goes back. -/
def reclaim (l : Line Address) (remaining : I128) : Option (Line Address) :=
  if remaining.val = l.totalAmount.val - l.distributed.val then
    some { l with distributed := l.totalAmount, completed := true, reclaimed := remaining }
  else none

omit [DecidableEq Address] in
/-- All goes back. -/
def cancel (l : Line Address) : Option (Line Address) :=
  if l.distributed.val = 0 then some { l with completed := true, cancelled := true } else none

end Line

namespace Picture

def notice (p : Picture Address) (n : Notice Address) : Option (Picture Address) :=
  (p.roles.read n).map fun roles => { p with roles }

/-- A new line, under the next id. -/
def enter (p : Picture Address) (id : U64) (totalAmount : I128) : Option (Picture Address) :=
  if id.val = p.count + 1 ∧ 0 < totalAmount.val then
    some { p with count := p.count + 1, lines := p.lines.set id ⟨totalAmount, 0, false, false, ∅, 0⟩ }
  else none

/-- A line that is not completed is changed. -/
def amend (p : Picture Address) (id : U64) (f : Line Address → Option (Line Address)) : Option (Picture Address) :=
  (p.lines.get id).bind fun l =>
    if l.completed = true then none else (f l).map fun l' => { p with lines := p.lines.set id l' }

def read (p : Picture Address) : Event Address → Option (Picture Address)
  | .init admin => p.notice (.init admin)
  | .created _ id totalAmount => p.enter id totalAmount
  | .claim holder distributionId amount => p.amend distributionId fun l => l.pay holder amount
  | .reclaim admin distributionId remaining =>
    if p.roles.admin = some admin then p.amend distributionId fun l => l.reclaim remaining else none
  | .cancel admin distributionId =>
    if p.roles.admin = some admin then p.amend distributionId Line.cancel else none
  | .proposed admin newAdmin => p.notice (.proposed admin newAdmin)
  | .cancelled admin => p.notice (.cancelled admin)
  | .setAdmin oldAdmin newAdmin => p.notice (.setAdmin oldAdmin newAdmin)

/-- What the events say that a holder was paid. -/
def paidTo (p : Picture Address) (id : U64) (holder : Address) : Option I128 :=
  (p.lines.get id).bind fun l => l.paid.get holder

end Picture

/-- The indexer of the dividend contract. -/
def indexer (Address : Type) [DecidableEq Address] : Indexer (Picture Address) (Event Address) where
  blank := ⟨⟨none, none⟩, 0, ∅⟩
  read := Picture.read

/-! ## Pictures of the contract -/

/-- The line says what is so of the record, and its amounts add up. -/
structure Line.Shows (l : Line Address) (d : Distribution Address) : Prop where
  totalAmount : l.totalAmount = d.totalAmount
  distributed : l.distributed = d.distributed
  completed : l.completed = d.completed
  cancelled : l.cancelled = d.cancelled
  account : (l.paid.sum fun _ amount => amount.val) + l.reclaimed.val = l.distributed.val
  unreclaimed : l.completed = false → l.reclaimed = 0

/-- The picture says what is so of the storage. -/
structure Picture.Shows (p : Picture Address) (s : State Address) : Prop where
  roles : p.roles = s.roles
  count : p.count = (s.counter.getD 0).val
  lines : Storage.Related Line.Shows p.lines s.dist
  paid : ∀ id a, hasClaimed s id a = (p.paidTo id a).isSome

theorem shows_fresh : (indexer Address).blank.Shows (State.fresh Address) where
  roles := rfl
  count := rfl
  lines := Storage.related_empty
  paid _ _ := rfl

section Steps

variable {p : Picture Address} {s : State Address} {id : U64} {d d' : Distribution Address} {l l' : Line Address}

theorem paidTo_set (p : Picture Address) (id : U64) (l : Line Address) (id' : U64) (a : Address) :
    ({ p with lines := p.lines.set id l } : Picture Address).paidTo id' a =
      if id' = id then l.paid.get a else p.paidTo id' a := by
  unfold Picture.paidTo
  dsimp only
  rw [Storage.get_set]
  split <;> rfl

/-- The roles alone have changed. -/
theorem Picture.Shows.notice (hp : p.Shows s) {n : Notice Address} {r : Roles Address} (hr : s.roles.read n = some r) :
    ∃ p', p.notice n = some p' ∧ p'.Shows { s with roles := r } :=
  ⟨{ p with roles := r }, by rw [Picture.notice, hp.roles, hr, Option.map_some], rfl, hp.count, hp.lines, hp.paid⟩

/-- A creation enters a line. -/
theorem Picture.Shows.enter (hp : p.Shows s) (hid : d.id.val = (s.counter.getD 0).val + 1)
    (hnew : ∀ a, hasClaimed s d.id a = false) (hpos : 0 < d.totalAmount.val) (hnone : d.distributed = 0)
    (hopen : d.completed = false) (hkept : d.cancelled = false) (eligible : List (Address × I128)) (sum : I128) :
    ∃ p', p.enter d.id d.totalAmount = some p' ∧ p'.Shows (s.opened d eligible sum) := by
  have hnext : d.id.val = p.count + 1 ∧ 0 < d.totalAmount.val := ⟨by rw [hp.count, hid], hpos⟩
  refine ⟨_, if_pos hnext, hp.roles, hnext.1.symm, ?_, fun id a => ?_⟩
  · apply hp.lines.set
    exact ⟨rfl, hnone.symm, hopen.symm, hkept.symm, rfl, fun _ => rfl⟩
  · have hset := paidTo_set { p with count := p.count + 1 } d.id ⟨d.totalAmount, 0, false, false, ∅, 0⟩ id a
    refine Eq.trans ?_ (congrArg Option.isSome hset).symm
    show hasClaimed s id a = _
    split
    · rename_i he
      rw [he, hnew a, Storage.get_empty]
      rfl
    · exact hp.paid id a

/-- A line is amended as its record is written. -/
theorem Picture.Shows.amend (hp : p.Shows s) {f : Line Address → Option (Line Address)} (s' : State Address)
    (hd : s.dist.get id = some d) (hopen : d.completed = false) (hroles : s'.roles = s.roles)
    (hcounter : s'.counter = s.counter) (hdist : s'.dist = s.dist.set id d')
    (hclaimed : ∀ id' a, id' ≠ id → hasClaimed s' id' a = hasClaimed s id' a)
    (hf : ∀ l, l.Shows d → (∀ a, hasClaimed s id a = (l.paid.get a).isSome) →
      ∃ l', f l = some l' ∧ l'.Shows d' ∧ ∀ a, hasClaimed s' id a = (l'.paid.get a).isSome) :
    ∃ p', p.amend id f = some p' ∧ p'.Shows s' := by
  obtain ⟨l, hl, hshows⟩ := hp.lines.of_get hd
  have hpaid : ∀ a, hasClaimed s id a = (l.paid.get a).isSome := by
    intro a
    rw [hp.paid, Picture.paidTo, hl]
    rfl
  obtain ⟨l', hl', hshows', hpaid'⟩ := hf l hshows hpaid
  have hread : p.amend id f = some { p with lines := p.lines.set id l' } := by
    rw [Picture.amend, hl, Option.bind_some, hshows.completed, hopen, hl']
    rfl
  refine ⟨_, hread, hp.roles.trans hroles.symm, ?_, ?_, fun id' a => ?_⟩
  · rw [hcounter]
    exact hp.count
  · rw [hdist]
    exact hp.lines.set id hshows'
  · rw [paidTo_set]
    split
    · rename_i he
      rw [he]
      exact hpaid' a
    · rename_i hne
      rw [hclaimed id' a hne]
      exact hp.paid id' a

/-- A line is amended as its distribution is swept; who was paid stays. -/
theorem Picture.Shows.swept (hp : p.Shows s) {f : Line Address → Option (Line Address)}
    (hd : s.dist.get id = some d) (hopen : d.completed = false)
    (hf : ∀ l : Line Address, l.Shows d → ∃ l', f l = some l' ∧ l'.Shows d' ∧ l'.paid = l.paid) :
    ∃ p', p.amend id f = some p' ∧ p'.Shows (s.written id d') := by
  apply hp.amend (s.written id d') hd hopen rfl rfl rfl fun id' a hne => (same_written s d' hne).claimed a
  intro l hshows hpaid
  obtain ⟨l', hl', hshows', hsame⟩ := hf l hshows
  refine ⟨l', hl', hshows', fun a => ?_⟩
  rw [hasClaimed_written, hsame]
  exact hpaid a

/-- What an unpaid holder is paid is added to the line. -/
theorem Line.Shows.pay {holder : Address} {amount distributed : I128} (hl : l.Shows d) (hopen : d.completed = false)
    (hunpaid : l.paid.get holder = none) (hpos : 0 < amount.val)
    (hdistributed : distributed.val = d.distributed.val + amount.val) (hle : distributed.val ≤ d.totalAmount.val) :
    ∃ l', l.pay holder amount = some l' ∧ l'.Shows (d.claimed distributed) ∧ l'.paid = l.paid.set holder amount := by
  have hadd : l.distributed.checkedAdd amount = some distributed :=
    MInt.checkedAdd_eq_some.2 (by rw [hdistributed, hl.distributed])
  have hfits : l.paid.get holder = none ∧ 0 < amount.val ∧ distributed.val ≤ l.totalAmount.val :=
    ⟨hunpaid, hpos, hl.totalAmount ▸ hle⟩
  refine ⟨_, by rw [Line.pay, hadd, Option.bind_some, if_pos hfits], ?_, rfl⟩
  have hreclaimed := hl.unreclaimed (hl.completed.trans hopen)
  refine ⟨hl.totalAmount, rfl, ?_, hl.cancelled, ?_, fun _ => hreclaimed⟩
  · rw [hl.totalAmount]
    rfl
  · have haccount := hl.account
    rw [hl.distributed] at haccount
    show ((l.paid.set holder amount).sum fun _ amount => amount.val) + l.reclaimed.val = distributed.val
    rw [Storage.sum_set_of_none _ _ hunpaid, hdistributed]
    omega

omit [DecidableEq Address] in
/-- The rest that is reclaimed completes the line. -/
theorem Line.Shows.reclaim {remaining : I128} (hl : l.Shows d) (hopen : d.completed = false)
    (hremaining : remaining.val = d.totalAmount.val - d.distributed.val) :
    ∃ l', l.reclaim remaining = some l' ∧
      l'.Shows { d with distributed := d.totalAmount, completed := true } ∧ l'.paid = l.paid := by
  have hrest : remaining.val = l.totalAmount.val - l.distributed.val := by
    rw [hremaining, hl.totalAmount, hl.distributed]
  have haccount := hl.account
  rw [hl.unreclaimed (hl.completed.trans hopen)] at haccount
  refine ⟨_, if_pos hrest, ⟨hl.totalAmount, hl.totalAmount, rfl, hl.cancelled, ?_, fun h => by cases h⟩, rfl⟩
  show (l.paid.sum fun _ amount => amount.val) + remaining.val = l.totalAmount.val
  rw [hrest, ← haccount, MInt.val_zero]
  omega

omit [DecidableEq Address] in
/-- A cancelled line has paid nothing. -/
theorem Line.Shows.cancel (hl : l.Shows d) (hopen : d.completed = false) (hnone : d.distributed.val = 0) :
    ∃ l', l.cancel = some l' ∧ l'.Shows { d with completed := true, cancelled := true } ∧ l'.paid = l.paid := by
  have hzero : l.distributed.val = 0 := hl.distributed ▸ hnone
  exact ⟨_, if_pos hzero, ⟨hl.totalAmount, hl.distributed, rfl, rfl, hl.account,
    fun _ => hl.unreclaimed (hl.completed.trans hopen)⟩, rfl⟩

end Steps

/-! ## Runs -/

section Runs

variable {w : World Address X A} {this : Address} {env : Env Address} {h h' : Contract Address X}
  {tr : List (Answered Address X A)} {p : Picture Address}

/-- A creation, as an event. -/
theorem Picture.Shows.created (hp : p.Shows h.storage) (hl : Lifecycle tr h.storage)
    {admin assetToken paymentToken : Address} {totalAmount : I128} {eligible : List (Address × I128)} {deadline : U32}
    {id : U64}
    (hrun : (createDistributionDeadline w this env admin assetToken paymentToken totalAmount eligible deadline :
      M Address X U64) h = .ok (id, h')) :
    (indexer Address).Follows Host.events (fun p (h : Contract Address X) => p.Shows h.storage) p h h' := by
  obtain ⟨-, hpos, -, n, -, -, -, sum, -, x, -, id, hid, hr⟩ := createDistributionDeadline_ok.1 hrun
  cases hr
  obtain ⟨p', hread, hp'⟩ := hp.enter
    (d := ⟨id, assetToken, paymentToken, totalAmount, 0, env.sequence, false, deadline, false⟩) hid
    (hl.unclaimed_next hid) hpos rfl rfl rfl eligible sum
  exact .one rfl hread hp'

/-- The picture of a state, and the events of a call, give a picture of the state after it. -/
theorem Picture.Shows.call (hp : p.Shows h.storage) (hl : Lifecycle tr h.storage) {op : Op Address} {r : Ret}
    (hrun : call w this env op h = .ok (r, h')) :
    (indexer Address).Follows Host.events (fun p (h : Contract Address X) => p.Shows h.storage) p h h' := by
  cases op <;> simp only [Dividend.call, Call.bind_ok, Call.pure_ok] at hrun <;> obtain ⟨x, h₁, hop, hr⟩ := hrun <;>
    cases hr
  case initializeDividend =>
    obtain ⟨hnone, -, hr⟩ := initializeDividend_ok.1 hop
    cases hr
    obtain ⟨p', hread, hp'⟩ := hp.notice (Roles.read_init hnone)
    have hcount : (h.storage.counter.getD 0).val = 0 := Numbered.val_eq_zero (hl.unopened hnone ▸ hl.ids)
    exact .one rfl hread ⟨hp'.roles, hp'.count.trans hcount, hp'.lines, hp'.paid⟩
  case createDistribution => exact hp.created hl hop
  case createDistributionDeadline => exact hp.created hl hop
  case claim id holder =>
    obtain ⟨-, d, hd, hopen, -, amount, hdue, x, -, distributed, hdistributed, hle, hr⟩ := claim_ok.1 hop
    cases hr
    obtain ⟨p', hread, hp'⟩ := hp.amend ((h.storage.marked id holder).written id (d.claimed distributed)) hd
      hopen rfl rfl rfl
      (fun id' a hne => (same_marked_written h.storage (d.claimed distributed) holder hne).claimed a) (by
        intro l hshows hpaid
        have hunpaid : l.paid.get holder = none := by
          have hflag := hpaid holder
          rw [hdue.unclaimed] at hflag
          simpa using hflag.symm
        obtain ⟨l', hpay, hshows', hset⟩ := hshows.pay hopen hunpaid hdue.pos hdistributed hle
        refine ⟨l', hpay, hshows', fun a => ?_⟩
        rw [hasClaimed_written, hasClaimed_marked, hset, Storage.get_set, hpaid]
        by_cases ha : a = holder <;> simp [ha])
    exact .one rfl hread hp'
  case reclaimUnclaimed admin id =>
    obtain ⟨hadmin, -, d, hd, -, -, hopen, remaining, hremaining, -, x, -, hr⟩ := reclaimUnclaimed_ok.1 hop
    cases hr
    obtain ⟨p', hread, hp'⟩ := hp.swept hd hopen
      fun l hshows => hshows.reclaim hopen hremaining
    exact .one rfl ((if_pos (hp.roles ▸ hadmin)).trans hread) hp'
  case cancelDistribution admin id =>
    obtain ⟨hadmin, -, d, hd, hnone, hopen, x, -, hr⟩ := cancelDistribution_ok.1 hop
    cases hr
    obtain ⟨t, -, hst⟩ := hl.exists_terms hd
    have hzero : d.distributed.val = 0 := le_antisymm hnone (by
      rw [(hst.stage.of_open hopen).2.2.1]
      exact Terms.paid_nonneg)
    obtain ⟨p', hread, hp'⟩ := hp.swept hd hopen fun l hshows => hshows.cancel hopen hzero
    exact .one rfl ((if_pos (hp.roles ▸ hadmin)).trans hread) hp'
  case proposeAdmin =>
    obtain ⟨hadmin, -, hr⟩ := Administered.proposeAdmin_ok.1 hop
    cases hr
    obtain ⟨p', hread, hp'⟩ := hp.notice (Roles.read_proposed hadmin)
    exact .one rfl hread hp'
  case cancelAdminProposal =>
    obtain ⟨hadmin, -, hpending, hr⟩ := Administered.cancelAdminProposal_ok.1 hop
    cases hr
    obtain ⟨p', hread, hp'⟩ := hp.notice (Roles.read_cancelled hadmin hpending)
    exact .one rfl hread hp'
  case acceptAdmin =>
    obtain ⟨-, hpending, oldAdmin, hadmin, hr⟩ := Administered.acceptAdmin_ok.1 hop
    cases hr
    obtain ⟨p', hread, hp'⟩ := hp.notice (Roles.read_setAdmin hadmin hpending)
    exact .one rfl hread hp'

/-- What the views return, from the picture. -/
structure Picture.Tells (p : Picture Address) (h : Contract Address X) : Prop where
  admin : ∀ a, (getAdmin : M Address X Address) h = .ok (a, h) ↔ p.roles.admin = some a
  pendingAdmin : getPendingAdmin h.storage = p.roles.pendingAdmin
  ids : ∀ id, p.lines.get id ≠ none ↔ 1 ≤ id.val ∧ id.val ≤ p.count
  distribution : ∀ id l, p.lines.get id = some l →
    ∃ d, (getDistribution id : M Address X _) h = .ok (d, h) ∧ d.id = id ∧ l.Shows d
  noDistribution : ∀ id, p.lines.get id = none →
    (getDistribution id : M Address X _) h = .error (.error .distributionNotFound)
  claimed : ∀ id a, hasClaimed h.storage id a = (p.paidTo id a).isSome

theorem Stage.id_eq {t : Terms Address} {id : U64} {s : State Address} {d : Distribution Address}
    (h : Stage t id s d) : d.id = id := by
  cases h <;> rfl

theorem Picture.Shows.tells (hp : p.Shows h.storage) (hl : Lifecycle tr h.storage) : p.Tells h where
  admin a := by
    rw [hp.roles]
    simp [getAdmin]
  pendingAdmin := (congrArg Roles.pendingAdmin hp.roles).symm
  ids id := by
    rw [hp.count, ← hl.ids id]
    constructor
    · intro hne
      obtain ⟨l, hline⟩ := Option.ne_none_iff_exists'.1 hne
      obtain ⟨d, hd, -⟩ := hp.lines.get_of hline
      exact ⟨d, hd⟩
    · rintro ⟨d, hd⟩
      obtain ⟨l, hline, -⟩ := hp.lines.of_get hd
      simp [hline]
  distribution id l hline := by
    obtain ⟨d, hd, hshows⟩ := hp.lines.get_of hline
    obtain ⟨t, -, hst⟩ := hl.exists_terms hd
    exact ⟨d, load_ok.2 ⟨d, hd, rfl⟩, hst.stage.id_eq, hshows⟩
  noDistribution id hline := load_error.2 ⟨(hp.lines.none_iff id).1 hline, rfl⟩
  claimed := hp.paid

/-- **The events tell what the dividend contract holds.** In every run, among any other contracts, the indexer reads the
whole log: distributions are logged in the order of their ids, each holder is logged as paid once at most and with a
positive amount, never beyond the total, and nothing is logged of a distribution that is over. From the picture that it
has then it knows the admins, which ids there are, who has claimed, and of each record the total, the amount distributed
and whether it is completed or cancelled; `distributed` is the sum of what was logged as paid and as reclaimed. -/
theorem dividend_followed (w : World Address X A) (this : Address) (x : X) (ls : List (Label Address A)) :
    let h := (dividend w this).run (Contract.fresh Address x) ls
    ∃ p, (indexer Address).readAll (indexer Address).blank h.events = some p ∧ p.Tells h := by
  intro h
  have hrun : ∃ p, (indexer Address).readAll (indexer Address).blank h.events = some p ∧
      p.Shows h.storage ∧ ∃ tr : List (Answered Address X A), Lifecycle tr h.storage := by
    refine Indexer.run_followed (Q := fun (p : Picture Address) (h : Contract Address X) =>
      p.Shows h.storage ∧ ∃ tr : List (Answered Address X A), Lifecycle tr h.storage) rfl
      ⟨shows_fresh, [], lifecycle_fresh⟩ ?_ ls
    rintro p h l r h' ⟨hp, tr, hl⟩ hstep
    have hl' := hl.step hstep
    cases l with
    | call env op =>
      obtain ⟨es, p', hlog, hread, hp'⟩ := hp.call hl (Call.returned_eq_some.1 hstep)
      exact ⟨es, p', hlog, hread, hp', _, hl'⟩
    | others a =>
      obtain ⟨x', -, hx⟩ := Option.map_eq_some_iff.1 hstep
      cases hx
      exact .silent rfl ⟨hp, _, hl'⟩
  obtain ⟨p, hread, hp, tr, hl⟩ := hrun
  exact ⟨p, hread, hp.tells hl⟩

end Runs

end StellarRwa.Dividend
