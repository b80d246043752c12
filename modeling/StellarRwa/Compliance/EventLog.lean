import StellarRwa.Compliance.Pruning

/-!
# The list and the event log

Of all events three are about membership: `approved`, `removed` and `expired`. The last of them that names an address
says whether the address is listed, but for one thing: `is_allowed` publishes `expired` for a record that stays, and
`prune_expired` publishes the same event for a record that it deletes. So the log is read here together with who
published each event (`told`), and `told_account` gives the list from it. Two runs with the same log then have the same
list exactly when no address has a different publisher behind its last event (`sameList_iff`).
-/

namespace StellarRwa.Compliance

open Lib

variable {Address : Type} [DecidableEq Address] {env : Env Address} {h h' h'' : Contract Address}

/-! ## Reading the log -/

/-- The event is about the membership of `a`. -/
def Event.concerns (a : Address) : Event Address → Bool
  | .approved b _ _ _ _ _ => b = a
  | .removed b => b = a
  | .expired b _ => b = a
  | _ => false

theorem Event.concerns_of_administrative (a : Address) {e : Event Address}
    (he : e.administrative = true) : e.concerns a = false := by
  cases e <;> first | rfl | cases he

/-- Whether the address of a membership event is listed after it; the flag says that a pruning published it. -/
def listedBy : Bool × Event Address → Bool
  | (_, .approved _ _ _ _ _ _) => true
  | (byPruning, .expired _ _) => !byPruning
  | _ => false

/-- The last membership event of `a`. -/
def lastWord (a : Address) (l : List (Bool × Event Address)) : Option (Bool × Event Address) :=
  latest (fun t => if t.2.concerns a then some t else none) l

/-- Whether `a` is listed after the events `l`, when `b` says whether it was before. -/
def verdict (a : Address) (l : List (Bool × Event Address)) (b : Bool) : Bool := ((lastWord a l).map listedBy).getD b

@[simp] theorem verdict_nil (a : Address) (b : Bool) : verdict a [] b = b := rfl

theorem verdict_append (a : Address) (l l' : List (Bool × Event Address)) (b : Bool) :
    verdict a (l ++ l') b = verdict a l' (verdict a l b) := by
  unfold verdict lastWord
  rw [latest_append]
  cases latest (fun t : Bool × Event Address => if t.2.concerns a then some t else none) l' <;> rfl

@[simp] theorem verdict_singleton (a : Address) (t : Bool × Event Address) (b : Bool) :
    verdict a [t] b = if t.2.concerns a then listedBy t else b := by
  by_cases ht : t.2.concerns a <;> simp [verdict, lastWord, latest, ht]

/-! ## What a call tells -/

/-- From `h` to `h'` the log grew by events that tell which addresses have a record. -/
def Tells (byPruning : Bool) (h h' : Contract Address) : Prop :=
  ∃ es, h'.events = h.events ++ es ∧
    ∀ a, h'.storage.record.has a = verdict a (es.map fun e => (byPruning, e)) (h.storage.record.has a)

theorem Tells.refl (byPruning : Bool) (h : Contract Address) : Tells byPruning h h := ⟨[], by simp, fun _ => rfl⟩

theorem Tells.trans {byPruning : Bool} (h₁ : Tells byPruning h h') (h₂ : Tells byPruning h' h'') :
    Tells byPruning h h'' := by
  obtain ⟨es₁, hes₁, hhas₁⟩ := h₁
  obtain ⟨es₂, hes₂, hhas₂⟩ := h₂
  refine ⟨es₁ ++ es₂, by rw [hes₂, hes₁, List.append_assoc], fun a => ?_⟩
  rw [hhas₂, hhas₁, List.map_append, verdict_append]

/-- One event. -/
theorem Tells.one {byPruning : Bool} {e : Event Address} (he : h'.events = h.events ++ [e])
    (hhas : ∀ a, h'.storage.record.has a = if e.concerns a then listedBy (byPruning, e) else h.storage.record.has a) :
    Tells byPruning h h' := by
  refine ⟨[e], he, fun a => ?_⟩
  rw [hhas, List.map_singleton, verdict_singleton]

/-- One event that is not about membership, and the same records. -/
theorem Tells.other {byPruning : Bool} {e : Event Address} (he : h'.events = h.events ++ [e])
    (hno : ∀ a, e.concerns a = false) (hsame : h'.storage.record = h.storage.record) : Tells byPruning h h' := by
  refine .one he fun a => ?_
  rw [hno a, hsame]
  rfl

theorem approveAddress_tells {now : U32} {a : Address} {j : Bytes} {e : U32} {u : Unit}
    (hrun : approveAddress now a j e h = .ok (u, h')) : Tells false h h' := by
  obtain ⟨-, -, s, hs, hr⟩ := approveAddress_ok.1 hrun
  have hhas : ∀ b, s.record.has b = (h.storage.record.has b || b = a) := fun b => by
    obtain ⟨-, p, n, count, -, -, rfl⟩ | ⟨prev, -, rfl⟩ := hs <;> exact has_withRecord _ b
  cases hr
  have hevent : ∃ j' pj pe w, approvedEvent a j e (h.storage.record.get a) = .approved a j' e pj pe w := by
    cases h.storage.record.get a <;> exact ⟨_, _, _, _, rfl⟩
  obtain ⟨j', pj, pe, w, hevent⟩ := hevent
  refine .one (e := .approved a j' e pj pe w) (by rw [hevent]) fun b => ?_
  show s.record.has b = _
  rw [hhas]
  by_cases hb : b = a
  · simp [Event.concerns, listedBy, hb]
  · simp [Event.concerns, hb, Ne.symm hb]

theorem withRecord_tells {a : Address} {old r : KycRecord Address} {e : Event Address}
    (hold : h.storage.record.get a = some old) (hstorage : h'.storage = h.storage.withRecord a r)
    (he : h'.events = h.events ++ [e]) (hno : ∀ b, e.concerns b = false) : Tells false h h' := by
  refine .one he fun b => ?_
  rw [hno b, hstorage, has_withRecord]
  by_cases hb : b = a
  · simp [hb, Storage.has, hold]
  · simp [hb]

theorem remove_tells {admin a : Address} {u : Unit} (hrun : remove env admin a h = .ok (u, h')) : Tells false h h' := by
  obtain ⟨-, -, -, s, hs, hr⟩ := remove_ok.1 hrun
  have hrecord : s.record = h.storage.record.remove a := by
    obtain ⟨-, rfl⟩ | ⟨p, -, rfl⟩ := hs <;> rfl
  cases hr
  refine .one (e := .removed a) rfl fun b => ?_
  show s.record.has b = _
  rw [hrecord, Storage.has, Storage.get_remove]
  by_cases hb : b = a
  · simp [Event.concerns, listedBy, hb]
  · simp [Event.concerns, hb, Ne.symm hb, Storage.has]

/-- The gate tells of an expired record that stays. -/
theorem isAllowed_tells {a : Address} {b : Bool} (hrun : isAllowed env a h = .ok (b, h')) : Tells false h h' := by
  obtain ⟨-, -, rfl⟩ | ⟨rec, hrec, -, -, -, rfl⟩ | ⟨_, -, -, -, -, -, hhold⟩ := isAllowed_cases hrun
  · exact .refl false h'
  · refine .one (e := .expired a rec.expiresAt) rfl fun c => ?_
    by_cases hc : c = a
    · simp [Event.concerns, listedBy, hc, Storage.has, hrec]
    · simp [Event.concerns, Ne.symm hc]
  · obtain ⟨-, -, rfl⟩ | ⟨-, -, m, f, rfl⟩ := holdingPeriodOver_cases hhold
    · exact .refl false h'
    · exact .other rfl (fun _ => rfl) rfl

/-- The events of striking `D` tell of `D` and of nothing else. -/
theorem verdict_expired (a : Address) (expiry : Address → U32) (D : List Address) (b : Bool) :
    verdict a ((D.map fun c => .expired c (expiry c)).map fun e => (true, e)) b = if a ∈ D then false else b := by
  induction D generalizing b with
  | nil => rfl
  | cons c D ih =>
    rw [List.map_cons, List.map_cons, ← List.singleton_append, verdict_append, ih, verdict_singleton]
    by_cases hc : c = a
    · simp [Event.concerns, listedBy, hc]
    · simp [Event.concerns, hc, Ne.symm hc]

theorem pruneExpired_tells {admin : Address} {maxRecords n : U32} (hw : WellPaged h.storage)
    (hrun : pruneExpired env admin maxRecords h = .ok (n, h')) : Tells true h h' := by
  obtain ⟨-, -, hstruck, hhost, -⟩ := pruneExpired_ok hw hrun
  have hhas : ∀ a ∈ pruned h.storage env.sequence maxRecords, h.storage.record.has a = true := fun a ha =>
    hw.mem_getAllowlist_iff_record.1 (mem_of_pruned ha)
  refine ⟨expiredEvents h.storage (pruned h.storage env.sequence maxRecords), by rw [hhost], fun a => ?_⟩
  rw [expiredEvents_eq hhas, verdict_expired, Storage.has, hstruck.record]
  by_cases ha : a ∈ pruned h.storage env.sequence maxRecords
  · simp [ha]
  · simp [ha, Storage.has]

/-- The call is a pruning. -/
def Op.isPruning : Op Address → Bool
  | .pruneExpired _ _ => true
  | _ => false

/-- **Every call tells what it does to the list.** -/
theorem call_tells {op : Op Address} {r : Ret} (hw : WellPaged h.storage) (hrun : call env op h = .ok (r, h')) :
    Tells op.isPruning h h' := by
  have hadmin : op.administrative = true → _ := fun hop => call_administrative hop hrun
  cases op <;> simp only [call, Call.bind_ok, Call.pure_ok] at hrun <;> obtain ⟨x, h₁, hop, hr⟩ := hrun <;> cases hr
  case addToAllowlist => exact approveAddress_tells (addToAllowlist_ok.1 hop).2.2
  case addToAllowlistBatch =>
    refine Call.forEach_rule (P := Tells false h) ?_ (.refl false h) (addToAllowlistBatch_ok.1 hop).2.2
    exact fun entry _ h₁ h₂ htold hround => htold.trans (approveAddress_tells hround)
  case suspend =>
    obtain ⟨-, -, rec, hrec, hr⟩ := suspend_ok.1 hop
    cases hr
    exact withRecord_tells hrec rfl rfl fun _ => rfl
  case reinstate =>
    obtain ⟨-, -, rec, hrec, -, hr⟩ := reinstate_ok.1 hop
    cases hr
    exact withRecord_tells hrec rfl rfl fun _ => rfl
  case remove => exact remove_tells hop
  case pruneExpired => exact pruneExpired_tells hw hop
  case isAllowed => exact isAllowed_tells hop
  case recordAcquisition =>
    obtain ⟨-, -, ⟨-, hr⟩ | ⟨-, hr⟩⟩ := recordAcquisition_ok.1 hop
    · cases hr
      exact .other rfl (fun _ => rfl) rfl
    · cases hr
      exact .refl false h
  case blockJurisdiction =>
    obtain ⟨-, -, -, hr⟩ := blockJurisdiction_ok.1 hop
    cases hr
    exact .other rfl (fun _ => rfl) rfl
  case unblockJurisdiction =>
    obtain ⟨-, -, -, hr⟩ := unblockJurisdiction_ok.1 hop
    cases hr
    exact .other rfl (fun _ => rfl) rfl
  case setMinHoldingPeriod =>
    obtain ⟨-, -, hr⟩ := setMinHoldingPeriod_ok.1 hop
    cases hr
    exact .other rfl (fun _ => rfl) rfl
  all_goals
    obtain ⟨roles, e, he, rfl⟩ := hadmin rfl
    exact .other rfl (fun a => Event.concerns_of_administrative a he) rfl

/-! ## Runs -/

/-- The events of a history, each with whether a pruning published it. -/
def told (tr : History Address) : List (Bool × Event Address) :=
  tr.flatMap fun d => (d.post.events.drop d.pre.events.length).map fun e => (d.label.2.isPruning, e)

/-- The log and the records, against the history. -/
structure ToldOver (tr : History Address) (h : Contract Address) : Prop where
  wellPaged : WellPaged h.storage
  events : h.events = (told tr).map Prod.snd
  record : ∀ a, h.storage.record.has a = verdict a (told tr) false

theorem run_told (ls : List (Env Address × Op Address)) :
    ToldOver ((compliance Address).trace (Contract.fresh Address) ls)
      ((compliance Address).run (Contract.fresh Address) ls) := by
  refine System.run_rule ⟨wellPaged_fresh, rfl, fun _ => rfl⟩ ?_ ls
  rintro tr h ⟨env, op⟩ r h' hinv hstep
  have hrun := Call.returned_eq_some.1 hstep
  obtain ⟨es, hes, hhas⟩ := call_tells hinv.wellPaged hrun
  have htold : told (tr ++ [⟨h, (env, op), r, h'⟩]) = told tr ++ es.map fun e => (op.isPruning, e) := by
    simp [told, hes]
  refine ⟨(call_listed hinv.wellPaged hrun).wellPaged, ?_, fun a => ?_⟩
  · rw [htold, hes, hinv.events, List.map_append, List.map_map]
    exact congrArg _ (List.map_id es).symm
  · rw [hhas, hinv.record, htold, verdict_append]

/-- **The list from the log**: an address is listed when its last membership event is an approval, or an expiry that
`is_allowed` published. -/
theorem told_account (ls : List (Env Address × Op Address)) (a : Address) :
    a ∈ getAllowlist ((compliance Address).run (Contract.fresh Address) ls).storage ↔
      ∃ t, lastWord a (told ((compliance Address).trace (Contract.fresh Address) ls)) = some t ∧ listedBy t = true := by
  have hinv := run_told ls
  rw [hinv.wellPaged.mem_getAllowlist_iff_record, hinv.record, verdict]
  cases lastWord a (told ((compliance Address).trace (Contract.fresh Address) ls)) <;> simp

/-! ## Two runs -/

theorem lastWord_concerns {a : Address} {l : List (Bool × Event Address)} {t : Bool × Event Address}
    (ht : lastWord a l = some t) : t ∈ l ∧ t.2.concerns a = true := by
  obtain ⟨t', hmem, ht'⟩ := exists_of_latest ht
  split at ht'
  · rename_i hcon
    cases ht'
    exact ⟨hmem, hcon⟩
  · cases ht'

/-- The event of the last word is in the log, whoever published it. -/
theorem lastWord_event (a : Address) (l : List (Bool × Event Address)) : (lastWord a l).map Prod.snd
    = latest (fun e : Event Address => if e.concerns a then some e else none) (l.map Prod.snd) := by
  induction l with
  | nil => rfl
  | cons t l ih =>
    unfold lastWord at ih ⊢
    rw [List.map_cons, latest_cons, latest_cons, ← ih]
    by_cases ht : t.2.concerns a <;>
      cases latest (fun t : Bool × Event Address => if t.2.concerns a then some t else none) l <;> simp [ht]

/-- Logs with the same events agree on the last membership event, up to who published it. -/
theorem lastWord_same (a : Address) {l l' : List (Bool × Event Address)} (hsame : l.map Prod.snd = l'.map Prod.snd) :
    (lastWord a l = none ∧ lastWord a l' = none) ∨
      ∃ p p' e, lastWord a l = some (p, e) ∧ lastWord a l' = some (p', e) := by
  have h : (lastWord a l).map Prod.snd = (lastWord a l').map Prod.snd := by
    rw [lastWord_event, lastWord_event, hsame]
  cases hl : lastWord a l with
  | none =>
    rw [hl] at h
    exact .inl ⟨rfl, Option.map_eq_none_iff.1 h.symm⟩
  | some t =>
    obtain ⟨p, e⟩ := t
    rw [hl] at h
    obtain ⟨⟨p', e'⟩, hl', he⟩ := Option.map_eq_some_iff.1 h.symm
    cases he
    exact .inr ⟨p, p', e, rfl, hl'⟩

omit [DecidableEq Address] in
/-- After an expiry the two publishers differ. -/
theorem listedBy_expired {a : Address} {p p' : Bool} {x : U32} :
    listedBy (p, .expired a x) = listedBy (p', .expired a x) ↔ p = p' := by
  simp [listedBy]

/-- After any other membership event the publisher does not matter. -/
theorem listedBy_congr {a : Address} {p p' : Bool} {e : Event Address} (hcon : e.concerns a = true)
    (hexp : ∀ x, e = .expired a x → p = p') : listedBy (p, e) = listedBy (p', e) := by
  cases e with
  | expired b x => rw [hexp x (by rw [of_decide_eq_true hcon])]
  | _ => rfl

/-- **Two runs with the same events list the same addresses exactly when** no address whose last membership event is an
expiry had it published by `is_allowed` in one run and by `prune_expired` in the other. -/
theorem sameList_iff (ls₁ ls₂ : List (Env Address × Op Address))
    (hevents : ((compliance Address).run (Contract.fresh Address) ls₁).events
      = ((compliance Address).run (Contract.fresh Address) ls₂).events) :
    let s₁ := ((compliance Address).run (Contract.fresh Address) ls₁).storage
    let s₂ := ((compliance Address).run (Contract.fresh Address) ls₂).storage
    let log₁ := told ((compliance Address).trace (Contract.fresh Address) ls₁)
    let log₂ := told ((compliance Address).trace (Contract.fresh Address) ls₂)
    (∀ a, a ∈ getAllowlist s₁ ↔ a ∈ getAllowlist s₂) ↔
      ∀ a byPruning₁ byPruning₂ expiresAt, lastWord a log₁ = some (byPruning₁, .expired a expiresAt) →
        lastWord a log₂ = some (byPruning₂, .expired a expiresAt) → byPruning₁ = byPruning₂ := by
  intro s₁ s₂ log₁ log₂
  have hsame : log₁.map Prod.snd = log₂.map Prod.snd := by
    rw [← (run_told ls₁).events, ← (run_told ls₂).events, hevents]
  have hlisted : ∀ a, (a ∈ getAllowlist s₁ ↔ a ∈ getAllowlist s₂) ↔
      ∀ p₁ p₂ e, lastWord a log₁ = some (p₁, e) → lastWord a log₂ = some (p₂, e) →
        listedBy (p₁, e) = listedBy (p₂, e) := fun a => by
    rw [told_account ls₁, told_account ls₂]
    rcases lastWord_same a hsame with ⟨h₁, h₂⟩ | ⟨p, p', e, h₁, h₂⟩
    · simp [log₁, log₂, h₁, h₂]
    · rw [h₁, h₂]
      simp only [Option.some.injEq, exists_eq_left', Prod.mk.injEq, and_imp]
      rw [← Bool.eq_iff_iff]
      exact ⟨fun h p₁ p₂ e' hp he hp' _ => by rw [← hp, ← hp', ← he, h], fun h => h p p' e rfl rfl rfl rfl⟩
  constructor
  · intro hlist a p₁ p₂ x h₁ h₂
    exact listedBy_expired.1 ((hlisted a).1 (hlist a) p₁ p₂ _ h₁ h₂)
  · intro hpub a
    refine (hlisted a).2 fun p₁ p₂ e h₁ h₂ => listedBy_congr (lastWord_concerns h₁).2 fun x he => ?_
    subst he
    exact hpub a p₁ p₂ x h₁ h₂

/-- 7 is added until ledger 10, and asked about then. -/
def askedRun : List (Env ℕ × Op ℕ) :=
  [(.signed 0, .initializeContract 1), (.signed 1, .addToAllowlist 1 7 [85, 83] 10), (.signed 10, .isAllowed 7)]

/-- The same, with 7 added in a batch. -/
def askedBatchRun : List (Env ℕ × Op ℕ) :=
  [(.signed 0, .initializeContract 1), (.signed 1, .addToAllowlistBatch 1 [⟨7, [85, 83], 10⟩]),
    (.signed 10, .isAllowed 7)]

/-- 7 is added until ledger 10, and pruned then. -/
def prunedRun : List (Env ℕ × Op ℕ) :=
  [(.signed 0, .initializeContract 1), (.signed 1, .addToAllowlist 1 7 [85, 83] 10), (.signed 10, .pruneExpired 1 0)]

/-- Nothing was pruned in either run: the lists agree. -/
theorem sameList_asked :
    7 ∈ getAllowlist ((compliance ℕ).run (Contract.fresh ℕ) askedRun).storage ↔
      7 ∈ getAllowlist ((compliance ℕ).run (Contract.fresh ℕ) askedBatchRun).storage := by
  refine (sameList_iff askedRun askedBatchRun (by decide +kernel)).2 (fun a p₁ p₂ x h₁ h₂ => ?_) 7
  have hasked : ∀ t ∈ told ((compliance ℕ).trace (Contract.fresh ℕ) askedRun), t.1 = false := by decide +kernel
  have hbatch : ∀ t ∈ told ((compliance ℕ).trace (Contract.fresh ℕ) askedBatchRun), t.1 = false := by decide +kernel
  have hp₁ : p₁ = false := hasked _ (lastWord_concerns h₁).1
  have hp₂ : p₂ = false := hbatch _ (lastWord_concerns h₂).1
  rw [hp₁, hp₂]

/-- A question about 7 and a pruning of 7 leave the same log; only one of them leaves 7 on the list. -/
theorem log_not_enough :
    ¬ ∀ ls₁ ls₂ : List (Env ℕ × Op ℕ), ((compliance ℕ).run (Contract.fresh ℕ) ls₁).events
        = ((compliance ℕ).run (Contract.fresh ℕ) ls₂).events →
      ∀ a, a ∈ getAllowlist ((compliance ℕ).run (Contract.fresh ℕ) ls₁).storage ↔
        a ∈ getAllowlist ((compliance ℕ).run (Contract.fresh ℕ) ls₂).storage := fun h =>
  absurd (h askedRun prunedRun (by decide +kernel) 7) (by decide +kernel)

end StellarRwa.Compliance
