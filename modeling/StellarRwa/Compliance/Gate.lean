import StellarRwa.Compliance.Allowlist
import StellarRwa.Compliance.Frame

/-!
# The gate and the history

`is_allowed` reads four maps that ten operations write. `GateStep` says what one call does to them, in terms of the
call alone; over a run the four maps are what the history says (`GateState`), and so the gate's answer is a statement
about the history: the latest operation on the record, the latest add, the latest block or unblock of its
jurisdiction, and the holding period.
-/

namespace StellarRwa.Compliance

open Lib

variable {Address : Type} [DecidableEq Address] {env : Env Address} {h h' : Contract Address}

/-- What an operation did to the record of an address. -/
inductive Effect
  | add
  | suspend
  | reinstate
  | remove
  | prune
deriving DecidableEq

/-- The jurisdiction and expiry with which a call approves `a`; the last entry of a batch counts. -/
def approvalOf (a : Address) : Op Address → Option (Bytes × U32)
  | .addToAllowlist _ address jurisdiction expiresAt => if address = a then some (jurisdiction, expiresAt) else none
  | .addToAllowlistBatch _ entries =>
    latest (fun entry => if entry.address = a then some (entry.jurisdiction, entry.expiresAt) else none) entries
  | _ => none

/-- What a call made in state `s` does to the record of `a`. -/
def effectOn (a : Address) (s : State Address) (l : Env Address × Op Address) : Option Effect :=
  match l.2 with
  | .addToAllowlist .. => (approvalOf a l.2).map fun _ => .add
  | .addToAllowlistBatch .. => (approvalOf a l.2).map fun _ => .add
  | .suspend _ address => if address = a then some .suspend else none
  | .reinstate _ address => if address = a then some .reinstate else none
  | .remove _ address => if address = a then some .remove else none
  | .pruneExpired .. => if a ∈ prunedBy s l then some .prune else none
  | _ => none

/-- Whether a call blocks or unblocks the jurisdiction `j`, in any case or spacing. -/
def blockingOf (j : Bytes) : Op Address → Option Bool
  | .blockJurisdiction _ jurisdiction => if canon jurisdiction = canon j then some true else none
  | .unblockJurisdiction _ jurisdiction => if canon jurisdiction = canon j then some false else none
  | _ => none

/-- The holding period that a call sets for `a`; zero means none. -/
def periodOf (a : Address) : Op Address → Option U64
  | .setMinHoldingPeriod _ holder minLedgers => if holder = a then some minLedgers else none
  | _ => none

/-- The ledger of a call that records an acquisition by `a`. -/
def acquisitionOf (a : Address) (l : Env Address × Op Address) : Option U32 :=
  match l.2 with
  | .recordAcquisition _ holder => if holder = a then some l.1.sequence else none
  | _ => none

/-! ## What one call does to the four maps -/

/-- How a call at ledger `now` turns the record `old` of `a` into `new`, with its effect and approval. -/
inductive RecordStep (now : U32) (a : Address) :
    Option (KycRecord Address) → Option (KycRecord Address) → Option Effect → Option (Bytes × U32) → Prop
  | untouched (old) : RecordStep now a old old none none
  | add (old) {j : Bytes} {e : U32} (hj : TwoLetters j) :
    RecordStep now a old (some (approvedRecord now a j e)) (some .add) (some (j, e))
  | suspend (rec) : RecordStep now a (some rec) (some { rec with status := .suspended }) (some .suspend) none
  | reinstate (rec) : RecordStep now a (some rec) (some { rec with status := .approved }) (some .reinstate) none
  | remove (old) : RecordStep now a old none (some .remove) none
  | prune (old) : RecordStep now a old none (some .prune) none

omit [DecidableEq Address] in
theorem RecordStep.eq_of_none {now : U32} {a : Address} {old new : Option (KycRecord Address)}
    (hstep : RecordStep now a old new none none) : new = old := by
  cases hstep
  rfl

omit [DecidableEq Address] in
theorem RecordStep.eq_of_add {now : U32} {a : Address} {old new : Option (KycRecord Address)} {j : Bytes} {e : U32}
    (hstep : RecordStep now a old new (some .add) (some (j, e))) :
    TwoLetters j ∧ new = some (approvedRecord now a j e) := by
  cases hstep with
  | add _ hj => exact ⟨hj, rfl⟩

/-- What a call does to the maps that the gate reads. -/
structure GateStep (l : Env Address × Op Address) (s s' : State Address) : Prop where
  record : ∀ a, RecordStep l.1.sequence a (s.record.get a) (s'.record.get a) (effectOn a s l) (approvalOf a l.2)
  blocked : ∀ j, (s'.blocked.get (canon j)).getD false = (blockingOf j l.2).getD ((s.blocked.get (canon j)).getD false)
  period : ∀ a, s'.minHoldingPeriod.get a =
    (periodOf a l.2).elim (s.minHoldingPeriod.get a) fun m => if m = 0 then none else some m
  acquired : ∀ a, s'.firstAcquiredLedger.get a =
    (s.firstAcquiredLedger.get a).or ((acquisitionOf a l).map U32.toU64)

/-- A call that touches the record only. -/
theorem GateStep.ofRecord {l : Env Address × Op Address} {s s' : State Address}
    (hrecord : ∀ a, RecordStep l.1.sequence a (s.record.get a) (s'.record.get a) (effectOn a s l) (approvalOf a l.2))
    (hblocked : s'.blocked = s.blocked) (hperiod : s'.minHoldingPeriod = s.minHoldingPeriod)
    (hacquired : s'.firstAcquiredLedger = s.firstAcquiredLedger) (hb : ∀ j, blockingOf j l.2 = none := by intro; rfl)
    (hp : ∀ a, periodOf a l.2 = none := by intro; rfl) (ha : ∀ a, acquisitionOf a l = none := by intro; rfl) :
    GateStep l s s' where
  record := hrecord
  blocked j := by rw [hblocked, hb, Option.getD_none]
  period a := by rw [hperiod, hp, Option.elim_none]
  acquired a := by rw [hacquired, ha, Option.map_none, Option.or_none]

theorem withRecord_get (s : State Address) (a : Address) (r : KycRecord Address) (b : Address) :
    (s.withRecord a r).record.get b = if b = a then some r else s.record.get b := Storage.get_set _ _ _ _

theorem approveAddress_record {now : U32} {a : Address} {j : Bytes} {e : U32} {u : Unit}
    (hrun : approveAddress now a j e h = .ok (u, h')) :
    TwoLetters j ∧ ∀ b, h'.storage.record.get b =
      if b = a then some (approvedRecord now a j e) else h.storage.record.get b := by
  obtain ⟨-, hj, s, hs, hr⟩ := approveAddress_ok.1 hrun
  cases hr
  refine ⟨hj, fun b => ?_⟩
  rcases hs with ⟨-, p, n, count, -, -, rfl⟩ | ⟨prev, -, rfl⟩
  · exact withRecord_get _ _ _ _
  · exact withRecord_get _ _ _ _

/-- The fields of the storage that an approval leaves alone. -/
structure SameGate (s s' : State Address) : Prop where
  blocked : s'.blocked = s.blocked
  period : s'.minHoldingPeriod = s.minHoldingPeriod
  acquired : s'.firstAcquiredLedger = s.firstAcquiredLedger

omit [DecidableEq Address] in
theorem Framed.gate {s s' : State Address} (hf : Framed s s') : SameGate s s' :=
  ⟨hf.blocked, hf.minHoldingPeriod, hf.firstAcquiredLedger⟩

theorem addToAllowlist_gate {admin a : Address} {j : Bytes} {e : U32} {u : Unit}
    (hrun : addToAllowlist env admin a j e h = .ok (u, h')) :
    GateStep (env, .addToAllowlist admin a j e) h.storage h'.storage := by
  obtain ⟨-, -, happ⟩ := addToAllowlist_ok.1 hrun
  obtain ⟨hj, hrec⟩ := approveAddress_record happ
  have hsame := (approveAddress_framed happ).gate
  refine .ofRecord (fun b => ?_) hsame.blocked hsame.period hsame.acquired
  rw [hrec]
  by_cases hb : b = a
  · subst hb
    simpa [effectOn, approvalOf] using RecordStep.add _ hj
  · simpa [effectOn, approvalOf, hb, Ne.symm hb] using RecordStep.untouched _

/-- The loop of `add_to_allowlist_batch`: the last entry of an address counts. -/
theorem approveEntries_gate {now : U32} : ∀ {entries : List (AllowlistEntry Address)} {h h' : Contract Address}
    {u : Unit},
    Call.forEach entries (fun entry => approveAddress now entry.address entry.jurisdiction entry.expiresAt) h
      = .ok (u, h') →
    SameGate h.storage h'.storage ∧ ∀ admin a,
      RecordStep now a (h.storage.record.get a) (h'.storage.record.get a)
        ((approvalOf a (.addToAllowlistBatch admin entries)).map fun _ => .add)
        (approvalOf a (.addToAllowlistBatch admin entries))
  | [], _, _, _, hrun => by
    rw [Call.forEach_nil, Call.pure_ok] at hrun
    cases hrun
    exact ⟨⟨rfl, rfl, rfl⟩, fun _ _ => .untouched _⟩
  | entry :: entries, h, h', _, hrun => by
    rw [Call.forEach_cons, Call.bind_ok] at hrun
    obtain ⟨_, h₁, hround, hloop⟩ := hrun
    obtain ⟨hj, hrec⟩ := approveAddress_record hround
    have hsame := (approveAddress_framed hround).gate
    obtain ⟨hsame', hrest⟩ := approveEntries_gate hloop
    refine ⟨⟨hsame'.blocked.trans hsame.blocked, hsame'.period.trans hsame.period,
      hsame'.acquired.trans hsame.acquired⟩, fun admin a => ?_⟩
    have hstep := hrest admin a
    rw [hrec] at hstep
    simp only [approvalOf, latest_cons] at hstep ⊢
    cases hlast : latest (fun entry : AllowlistEntry Address =>
        if entry.address = a then some (entry.jurisdiction, entry.expiresAt) else none) entries with
    | some je =>
      rw [hlast] at hstep
      rw [Option.some_or]
      obtain ⟨hj', hnew⟩ := hstep.eq_of_add
      rw [hnew]
      exact .add _ hj'
    | none =>
      rw [hlast] at hstep
      rw [Option.none_or]
      rw [hstep.eq_of_none]
      by_cases ha : a = entry.address
      · subst ha
        simpa using RecordStep.add _ hj
      · simpa [ha, Ne.symm ha] using RecordStep.untouched _

/-- A call that rewrites the record of one address: `a` sees it, nobody else does. -/
theorem RecordStep.rewrite {now : U32} {s : State Address} {a b : Address} {r : KycRecord Address} {eff : Effect}
    (hself : RecordStep now a (s.record.get a) (some r) (some eff) none) :
    RecordStep now b (s.record.get b) ((s.withRecord a r).record.get b) (if a = b then some eff else none) none := by
  rw [withRecord_get]
  by_cases hb : b = a
  · subst hb
    simpa using hself
  · simpa [hb, Ne.symm hb] using RecordStep.untouched _

/-- A call that leaves the four maps alone and is none of the operations on them. -/
theorem GateStep.same {l : Env Address × Op Address} {s s' : State Address} (hrecord : s'.record = s.record)
    (hblocked : s'.blocked = s.blocked) (hperiod : s'.minHoldingPeriod = s.minHoldingPeriod)
    (hacquired : s'.firstAcquiredLedger = s.firstAcquiredLedger)
    (he : ∀ a, effectOn a s l = none := by intro; rfl) (hv : ∀ a, approvalOf a l.2 = none := by intro; rfl)
    (hb : ∀ j, blockingOf j l.2 = none := by intro; rfl) (hp : ∀ a, periodOf a l.2 = none := by intro; rfl)
    (ha : ∀ a, acquisitionOf a l = none := by intro; rfl) : GateStep l s s' :=
  .ofRecord (fun a => by rw [hrecord, he, hv]; exact .untouched _) hblocked hperiod hacquired hb hp ha

theorem remove_gate {admin a : Address} {u : Unit} (hrun : remove env admin a h = .ok (u, h')) :
    GateStep (env, .remove admin a) h.storage h'.storage := by
  obtain ⟨-, -, -, s, hs, hr⟩ := remove_ok.1 hrun
  cases hr
  have hrecord : ∀ b, s.record.get b = if a = b then none else h.storage.record.get b := fun b => by
    have hget : s.record = h.storage.record.remove a := by
      rcases hs with ⟨-, rfl⟩ | ⟨p, -, rfl⟩ <;> rfl
    rw [hget, Storage.get_remove]
    simp only [eq_comm]
  have hrest : SameGate h.storage s := (remove_framed hrun).gate
  refine .ofRecord (fun b => ?_) hrest.blocked hrest.period hrest.acquired
  show RecordStep _ _ _ (s.record.get b) (if a = b then some .remove else none) none
  rw [hrecord]
  split
  · exact .remove _
  · exact .untouched _

theorem pruneExpired_gate {admin : Address} {maxRecords n : U32} (hw : WellPaged h.storage)
    (hrun : pruneExpired env admin maxRecords h = .ok (n, h')) :
    GateStep (env, .pruneExpired admin maxRecords) h.storage h'.storage := by
  obtain ⟨-, -, hstruck, hhost, -⟩ := pruneExpired_ok hw hrun
  refine .ofRecord (fun b => ?_) (by rw [hhost]; rfl) (by rw [hhost]; rfl) (by rw [hhost]; rfl)
  rw [hstruck.record]
  show RecordStep _ _ _ _ (if b ∈ pruned h.storage env.sequence maxRecords then some .prune else none) none
  split
  · exact .prune _
  · exact .untouched _

theorem blockJurisdiction_gate {admin : Address} {j : Bytes} {u : Unit}
    (hrun : blockJurisdiction env admin j h = .ok (u, h')) :
    GateStep (env, .blockJurisdiction admin j) h.storage h'.storage := by
  obtain ⟨-, -, -, hr⟩ := blockJurisdiction_ok.1 hrun
  cases hr
  refine ⟨fun _ => .untouched _, fun k => ?_, fun _ => rfl, fun _ => Option.or_none.symm⟩
  show ((h.storage.blocked.set (canon j) true).get (canon k)).getD false = _
  rw [Storage.get_set]
  by_cases hjk : canon j = canon k
  · simp [blockingOf, hjk]
  · simp [blockingOf, hjk, Ne.symm hjk]

theorem unblockJurisdiction_gate {admin : Address} {j : Bytes} {u : Unit}
    (hrun : unblockJurisdiction env admin j h = .ok (u, h')) :
    GateStep (env, .unblockJurisdiction admin j) h.storage h'.storage := by
  obtain ⟨-, -, -, hr⟩ := unblockJurisdiction_ok.1 hrun
  cases hr
  refine ⟨fun _ => .untouched _, fun k => ?_, fun _ => rfl, fun _ => Option.or_none.symm⟩
  show ((h.storage.blocked.remove (canon j)).get (canon k)).getD false = _
  rw [Storage.get_remove]
  by_cases hjk : canon j = canon k
  · simp [blockingOf, hjk]
  · simp [blockingOf, hjk, Ne.symm hjk]

theorem setMinHoldingPeriod_gate {admin a : Address} {m : U64} {u : Unit}
    (hrun : setMinHoldingPeriod env admin a m h = .ok (u, h')) :
    GateStep (env, .setMinHoldingPeriod admin a m) h.storage h'.storage := by
  obtain ⟨-, -, hr⟩ := setMinHoldingPeriod_ok.1 hrun
  cases hr
  refine ⟨fun _ => .untouched _, fun _ => rfl, fun b => ?_, fun _ => Option.or_none.symm⟩
  show (if m = 0 then h.storage.minHoldingPeriod.remove a else h.storage.minHoldingPeriod.set a m).get b = _
  by_cases hm : m = 0 <;> by_cases hb : b = a
  · simp [periodOf, hm, hb]
  · simp [periodOf, hm, Ne.symm hb, Storage.get_remove_of_ne _ hb]
  · simp [periodOf, hm, hb]
  · simp [periodOf, hm, Ne.symm hb, Storage.get_set_of_ne _ _ hb]

theorem recordAcquisition_gate {admin a : Address} {u : Unit}
    (hrun : recordAcquisition env admin a h = .ok (u, h')) :
    GateStep (env, .recordAcquisition admin a) h.storage h'.storage := by
  obtain ⟨-, -, ⟨hnone, hr⟩ | ⟨hsome, hr⟩⟩ := recordAcquisition_ok.1 hrun
  · cases hr
    refine ⟨fun _ => .untouched _, fun _ => rfl, fun _ => rfl, fun b => ?_⟩
    show (h.storage.firstAcquiredLedger.set a env.sequence.toU64).get b = _
    by_cases hb : b = a
    · subst hb
      simp [acquisitionOf, hnone]
    · simp [acquisitionOf, Ne.symm hb, Storage.get_set_of_ne _ _ hb]
  · cases hr
    refine ⟨fun _ => .untouched _, fun _ => rfl, fun _ => rfl, fun b => ?_⟩
    by_cases hb : b = a
    · subst hb
      cases hf : h.storage.firstAcquiredLedger.get b with
      | none => exact absurd hf hsome
      | some f => rfl
    · simp [acquisitionOf, Ne.symm hb]

/-- **What a call does to the maps that the gate reads.** Only pruning needs the pages to be in order. -/
theorem call_gate {op : Op Address} {r : Ret}
    (hw : ∀ admin maxRecords, op = .pruneExpired admin maxRecords → WellPaged h.storage)
    (hrun : call env op h = .ok (r, h')) : GateStep (env, op) h.storage h'.storage := by
  have hadmin : op.administrative = true → _ := fun hop => call_administrative hop hrun
  cases op <;> simp only [call, Call.bind_ok, Call.pure_ok] at hrun <;> obtain ⟨x, h₁, hop, hr⟩ := hrun <;> cases hr
  case addToAllowlist => exact addToAllowlist_gate hop
  case addToAllowlistBatch =>
    obtain ⟨hsame, hrec⟩ := approveEntries_gate (addToAllowlistBatch_ok.1 hop).2.2
    exact .ofRecord (fun a => hrec _ a) hsame.blocked hsame.period hsame.acquired
  case suspend =>
    obtain ⟨-, -, rec, hrec, hr⟩ := suspend_ok.1 hop
    cases hr
    exact .ofRecord (fun b => .rewrite (hrec ▸ .suspend rec)) rfl rfl rfl
  case reinstate =>
    obtain ⟨-, -, rec, hrec, -, hr⟩ := reinstate_ok.1 hop
    cases hr
    exact .ofRecord (fun b => .rewrite (hrec ▸ .reinstate rec)) rfl rfl rfl
  case remove => exact remove_gate hop
  case pruneExpired => exact pruneExpired_gate (hw _ _ rfl) hop
  case blockJurisdiction => exact blockJurisdiction_gate hop
  case unblockJurisdiction => exact unblockJurisdiction_gate hop
  case setMinHoldingPeriod => exact setMinHoldingPeriod_gate hop
  case recordAcquisition => exact recordAcquisition_gate hop
  case isAllowed =>
    have hsame := (isAllowed_ok hop).1
    exact .same (by rw [hsame]) (by rw [hsame]) (by rw [hsame]) (by rw [hsame])
  all_goals
    obtain ⟨roles, e, -, rfl⟩ := hadmin rfl
    exact .same rfl rfl rfl rfl

/-! ## Runs -/

/-- The latest operation on the record of `a`. -/
def latestEffect (tr : History Address) (a : Address) : Option Effect :=
  latest (fun d => effectOn a d.pre.storage d.label) tr

/-- The jurisdiction and expiry of the latest add of `a`. -/
def latestApproval (tr : History Address) (a : Address) : Option (Bytes × U32) :=
  latest (fun d => approvalOf a d.label.2) tr

/-- Whether the latest block or unblock of `j` was a block. -/
def latestBlocking (tr : History Address) (j : Bytes) : Option Bool := latest (fun d => blockingOf j d.label.2) tr

/-- The holding period set last for `a`. -/
def latestPeriod (tr : History Address) (a : Address) : Option U64 := latest (fun d => periodOf a d.label.2) tr

/-- The ledger of the first recorded acquisition by `a`. -/
def firstAcquisition (tr : History Address) (a : Address) : Option U32 := earliest (fun d => acquisitionOf a d.label) tr

/-- A record, against the latest operation on it and the latest add. -/
inductive Recorded : Option (KycRecord Address) → Option Effect → Option (Bytes × U32) → Prop
  | never (v) : Recorded none none v
  | gone {eff : Effect} (v) (heff : eff = .remove ∨ eff = .prune) : Recorded none (some eff) v
  | standing {rec : KycRecord Address} {eff : Effect} {j : Bytes} (hj : TwoLetters j)
    (hjur : rec.jurisdiction = canon j)
    (hstatus : ((eff = .add ∨ eff = .reinstate) ∧ rec.status = .approved) ∨
      (eff = .suspend ∧ rec.status = .suspended)) :
    Recorded (some rec) (some eff) (some (j, rec.expiresAt))

omit [DecidableEq Address] in
theorem Recorded.step {now : U32} {a : Address} {old new : Option (KycRecord Address)} {eff eff' : Option Effect}
    {v v' : Option (Bytes × U32)} (h : Recorded old eff v) (hstep : RecordStep now a old new eff' v') :
    Recorded new (eff'.or eff) (v'.or v) := by
  cases hstep with
  | untouched => exact h
  | add _ hj => exact .standing hj rfl (.inl ⟨.inl rfl, rfl⟩)
  | suspend rec =>
    cases h with
    | standing hj hjur _ => exact .standing hj hjur (.inr ⟨rfl, rfl⟩)
  | reinstate rec =>
    cases h with
    | standing hj hjur _ =>
      exact .standing hj hjur (.inl ⟨.inr rfl, rfl⟩)
  | remove => exact .gone _ (.inl rfl)
  | prune => exact .gone _ (.inr rfl)

/-- The four maps that the gate reads, against the history. -/
structure GateState (tr : History Address) (s : State Address) : Prop where
  record : ∀ a, Recorded (s.record.get a) (latestEffect tr a) (latestApproval tr a)
  blocked : ∀ j, (s.blocked.get (canon j)).getD false = (latestBlocking tr j).getD false
  period : ∀ a, s.minHoldingPeriod.get a = (latestPeriod tr a).filter (· ≠ 0)
  acquired : ∀ a, s.firstAcquiredLedger.get a = (firstAcquisition tr a).map U32.toU64

theorem gateState_fresh : GateState [] (State.fresh Address) where
  record _ := .never _
  blocked j := by simp [State.fresh, latestBlocking]
  period a := by simp [State.fresh, latestPeriod]
  acquired a := by simp [State.fresh, firstAcquisition]

theorem GateState.step {tr : History Address} {r : Ret} {l : Env Address × Op Address}
    (hs : GateState tr h.storage) (hstep : GateStep l h.storage h'.storage) :
    GateState (tr ++ [⟨h, l, r, h'⟩]) h'.storage where
  record a := by
    rw [latestEffect, latestApproval, latest_concat, latest_concat]
    exact (hs.record a).step (hstep.record a)
  blocked j := by
    have hnext : latestBlocking (tr ++ [⟨h, l, r, h'⟩]) j = (blockingOf j l.2).or (latestBlocking tr j) :=
      latest_concat _ _ _
    rw [hstep.blocked, hs.blocked, hnext]
    cases blockingOf j l.2 <;> rfl
  period a := by
    have hnext : latestPeriod (tr ++ [⟨h, l, r, h'⟩]) a = (periodOf a l.2).or (latestPeriod tr a) :=
      latest_concat _ _ _
    rw [hstep.period, hs.period, hnext]
    cases hp : periodOf a l.2 with
    | none => rfl
    | some m => by_cases hm : m = 0 <;> simp [hm, Option.filter]
  acquired a := by
    have hnext : firstAcquisition (tr ++ [⟨h, l, r, h'⟩]) a = (firstAcquisition tr a).or (acquisitionOf a l) :=
      earliest_concat _ _ _
    rw [hstep.acquired, hs.acquired, hnext]
    cases firstAcquisition tr a <;> rfl

theorem run_gateState (ls : List (Env Address × Op Address)) :
    GateState ((compliance Address).trace (Contract.fresh Address) ls)
      ((compliance Address).run (Contract.fresh Address) ls).storage := by
  suffices hboth : WellPaged ((compliance Address).run (Contract.fresh Address) ls).storage ∧
      GateState ((compliance Address).trace (Contract.fresh Address) ls)
        ((compliance Address).run (Contract.fresh Address) ls).storage from hboth.2
  refine System.run_rule (P := fun tr (h : Contract Address) => WellPaged h.storage ∧ GateState tr h.storage)
    ⟨wellPaged_fresh, gateState_fresh⟩ ?_ ls
  intro tr h l r h' hinv hstep
  have hrun := Call.returned_eq_some.1 hstep
  exact ⟨(call_listed hinv.1 hrun).wellPaged, hinv.2.step (call_gate (fun _ _ _ => hinv.1) hrun)⟩

/-- Every stored jurisdiction is a code, so the gate always answers. -/
theorem GateState.code {tr : History Address} {s : State Address} (hs : GateState tr s) {a : Address}
    {rec : KycRecord Address} (hrec : s.record.get a = some rec) : TwoLetters rec.jurisdiction := by
  have h := hs.record a
  rw [hrec] at h
  generalize latestEffect tr a = eff at h
  generalize latestApproval tr a = v at h
  cases h with
  | standing hj hjur _ => exact hjur ▸ twoLetters_canon hj

/-- What the gate says, against the history. -/
theorem GateState.allowed_iff {tr : History Address} {s : State Address} (hs : GateState tr s) (t : U32) (a : Address) :
    Allowed s t a ↔
      (latestEffect tr a = some .add ∨ latestEffect tr a = some .reinstate) ∧
        (∃ j e, latestApproval tr a = some (j, e) ∧ (e = 0 ∨ t < e) ∧ latestBlocking tr j ≠ some true) ∧
        ¬ ∃ m f, latestPeriod tr a = some m ∧ m ≠ 0 ∧ firstAcquisition tr a = some f ∧ t.val < f.val + m.val := by
  have hlocked : Locked s t a ↔
      ∃ m f, latestPeriod tr a = some m ∧ m ≠ 0 ∧ firstAcquisition tr a = some f ∧ t.val < f.val + m.val := by
    unfold Locked
    rw [hs.period, hs.acquired]
    constructor
    · rintro ⟨m, f, hm, hf, h0, hlt⟩
      obtain ⟨f', hf', rfl⟩ := Option.map_eq_some_iff.1 hf
      exact ⟨m, f', (Option.filter_eq_some_iff.1 hm).1, h0, hf', hlt⟩
    · rintro ⟨m, f, hm, h0, hf, hlt⟩
      exact ⟨m, f.toU64, by simp [hm, h0], by simp [hf], h0, hlt⟩
  unfold Allowed
  rw [hlocked]
  have hrec := hs.record a
  have hblocked := hs.blocked
  generalize latestEffect tr a = eff at hrec ⊢
  generalize latestApproval tr a = v at hrec ⊢
  cases hget : s.record.get a with
  | none =>
    rw [hget] at hrec
    cases hrec with
    | never => simp
    | gone _ heff => rcases heff with rfl | rfl <;> simp
  | some rec =>
    rw [hget] at hrec
    cases hrec with
    | @standing _ eff j hj hjur hstatus =>
      have hcan : canon rec.jurisdiction = canon j := by rw [hjur, canon_canon hj]
      have hblk : (s.blocked.get (canon rec.jurisdiction)).getD false = false ↔ latestBlocking tr j ≠ some true := by
        rw [hcan, hblocked]
        cases latestBlocking tr j with
        | none => simp
        | some b => cases b <;> simp
      have happ : rec.status = .approved ↔ some eff = some .add ∨ some eff = some .reinstate := by
        rcases hstatus with ⟨rfl | rfl, hst⟩ | ⟨rfl, hst⟩ <;> simp [hst]
      constructor
      · rintro ⟨_, e, hst, hfresh, hb, hlock⟩
        cases e
        exact ⟨happ.1 hst, ⟨j, _, rfl, hfresh, hblk.1 hb⟩, hlock⟩
      · rintro ⟨hst, ⟨_, _, e, hfresh, hb⟩, hlock⟩
        cases e
        exact ⟨rec, rfl, happ.2 hst, hfresh, hblk.2 hb, hlock⟩

/-- **The gate agrees with the history**: after every run and at every ledger the gate answers, and the answer is yes
exactly when the latest operation on the record is an add or a reinstate, the latest add has not expired, its
jurisdiction was not blocked last, and no holding period set last is still running from the first acquisition. -/
theorem isAllowed_iff_history (ls : List (Env Address × Op Address)) (env : Env Address) (a : Address) :
    let h := (compliance Address).run (Contract.fresh Address) ls
    let tr := (compliance Address).trace (Contract.fresh Address) ls
    ∃ b h', isAllowed env a h = .ok (b, h') ∧ (b = true ↔
      (latestEffect tr a = some .add ∨ latestEffect tr a = some .reinstate) ∧
        (∃ j e, latestApproval tr a = some (j, e) ∧ (e = 0 ∨ env.sequence < e) ∧ latestBlocking tr j ≠ some true) ∧
        ¬ ∃ m f, latestPeriod tr a = some m ∧ m ≠ 0 ∧ firstAcquisition tr a = some f ∧
          env.sequence.val < f.val + m.val) := by
  intro h tr
  have hs : GateState tr h.storage := run_gateState ls
  obtain ⟨b, h', hrun⟩ := isAllowed_total env fun rec hrec => hs.code (a := a) hrec
  exact ⟨b, h', hrun, (isAllowed_ok hrun).2.trans (hs.allowed_iff _ _)⟩

end StellarRwa.Compliance
