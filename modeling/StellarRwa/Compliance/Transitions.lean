import StellarRwa.Compliance.Allowlist
import StellarRwa.Compliance.Blocked

/-!
# The events of the blocked jurisdictions

A code is blocked exactly when the last event on it is a `blockjur` (`RuledOver.ruled`). The documentation of
`block_jurisdiction` promises more, that the event marks the first block only; but the event is published for a code
that is blocked already, too. So `blockjur` events mark transitions in a run exactly when no answered call of the run
blocks a code that is blocked already (`blockjur_marks_transitions_iff`); such a call changes nothing else.
-/

namespace StellarRwa.Compliance

open Lib

variable {Address : Type}

/-! ## Reading the log -/

/-- What an event says of the code `k`: that it is blocked, or that it is not; nothing otherwise. -/
def Event.ruling (k : Bytes) : Event Address → Option Bool
  | .blockjur j => if j = k then some true else none
  | .unblkjur j => if j = k then some false else none
  | _ => none

theorem Event.eq_unblkjur {k : Bytes} {e : Event Address} (h : e.ruling k = some false) : e = .unblkjur k := by
  cases e <;> simp_all [Event.ruling]

theorem Event.ruling_of_administrative (k : Bytes) {e : Event Address} (he : e.administrative = true) :
    e.ruling k = none := by
  cases e <;> first | rfl | cases he

/-- Every `blockjur` event comes where the log so far does not say that its code is blocked. -/
def Timely (log : List (Event Address)) : Prop :=
  ∀ j l₁ l₂, log = l₁ ++ .blockjur j :: l₂ → (latest (Event.ruling j) l₁).getD false = false

/-- Between two `blockjur` events for a code there is an `unblkjur` event for it. -/
theorem Timely.separated {log : List (Event Address)} (ht : Timely log) {j : Bytes} {l₁ l₂ l₃ : List (Event Address)}
    (hlog : log = l₁ ++ .blockjur j :: l₂ ++ .blockjur j :: l₃) : .unblkjur j ∈ l₂ := by
  have hlast := ht j (l₁ ++ .blockjur j :: l₂) l₃ hlog
  rw [latest_append, latest_cons] at hlast
  cases hsaid : latest (Event.ruling j) l₂ with
  | none => simp [hsaid, Event.ruling] at hlast
  | some b =>
    obtain ⟨e, hmem, he⟩ := exists_of_latest hsaid
    cases b with
    | true => simp [hsaid] at hlast
    | false =>
      rw [Event.eq_unblkjur he] at hmem
      exact hmem

/-! ## What a call says -/

/-- From `h` to `h'` no event said anything of a code, and no flag changed. -/
structure Quiet (h h' : Contract Address) : Prop where
  events : ∃ es, h'.events = h.events ++ es ∧ ∀ e ∈ es, ∀ k, e.ruling k = none
  blocked : h'.storage.blocked = h.storage.blocked

section Quiet

variable {h h' h'' : Contract Address}

theorem Quiet.refl (h : Contract Address) : Quiet h h := ⟨⟨[], by simp, by simp⟩, rfl⟩

theorem Quiet.trans (h₁ : Quiet h h') (h₂ : Quiet h' h'') : Quiet h h'' := by
  obtain ⟨⟨es₁, hes₁, hno₁⟩, hblocked₁⟩ := h₁
  obtain ⟨⟨es₂, hes₂, hno₂⟩, hblocked₂⟩ := h₂
  refine ⟨⟨es₁ ++ es₂, by rw [hes₂, hes₁, List.append_assoc], ?_⟩, hblocked₂.trans hblocked₁⟩
  exact List.forall_mem_append.2 ⟨hno₁, hno₂⟩

/-- One event on something else. -/
theorem Quiet.one {e : Event Address} (he : h'.events = h.events ++ [e]) (hno : ∀ k, e.ruling k = none)
    (hblocked : h'.storage.blocked = h.storage.blocked) : Quiet h h' :=
  ⟨⟨[e], he, by simpa using hno⟩, hblocked⟩

end Quiet

variable [DecidableEq Address] {env : Env Address} {h h' : Contract Address}

/-- What an answered call says of the jurisdictions and does to their flags. -/
inductive Ruling (h h' : Contract Address) : Op Address → Prop
  | blocked {admin : Address} {j : Bytes} (events : h'.events = h.events ++ [.blockjur (canon j)])
    (flags : ∀ k, flag h'.storage k = if k = canon j then true else flag h.storage k)
    (same : flag h.storage (canon j) = true → h'.storage = h.storage) : Ruling h h' (.blockJurisdiction admin j)
  | unblocked {admin : Address} {j : Bytes} (events : h'.events = h.events ++ [.unblkjur (canon j)])
    (flags : ∀ k, flag h'.storage k = if k = canon j then false else flag h.storage k) :
    Ruling h h' (.unblockJurisdiction admin j)
  | quiet {op : Op Address} (hop : ∀ admin j, op ≠ .blockJurisdiction admin j) (hquiet : Quiet h h') : Ruling h h' op

theorem blockJurisdiction_ruling {admin : Address} {j : Bytes} {u : Unit}
    (hrun : blockJurisdiction env admin j h = .ok (u, h')) : Ruling h h' (.blockJurisdiction admin j) := by
  obtain ⟨-, -, -, hr⟩ := blockJurisdiction_ok.1 hrun
  cases hr
  refine .blocked rfl (fun k => ?_) fun hflag => ?_
  · show ((h.storage.blocked.set (canon j) true).get k).getD false = _
    rw [Storage.get_set]
    by_cases hk : k = canon j <;> simp [hk, flag]
  · have hget : h.storage.blocked.get (canon j) = some true := by
      cases hold : h.storage.blocked.get (canon j) <;> simp_all [flag]
    simp [hget, Storage.set_of_get hget]

theorem unblockJurisdiction_ruling {admin : Address} {j : Bytes} {u : Unit}
    (hrun : unblockJurisdiction env admin j h = .ok (u, h')) : Ruling h h' (.unblockJurisdiction admin j) := by
  obtain ⟨-, -, -, hr⟩ := unblockJurisdiction_ok.1 hrun
  cases hr
  refine .unblocked rfl fun k => ?_
  show ((h.storage.blocked.remove (canon j)).get k).getD false = _
  rw [Storage.get_remove]
  by_cases hk : k = canon j <;> simp [hk, flag]

theorem approveAddress_quiet {now : U32} {a : Address} {j : Bytes} {e : U32} {u : Unit}
    (hrun : approveAddress now a j e h = .ok (u, h')) : Quiet h h' := by
  have hblocked := (approveAddress_framed hrun).blocked
  obtain ⟨-, -, s, -, hr⟩ := approveAddress_ok.1 hrun
  cases hr
  refine .one rfl (fun k => ?_) hblocked
  cases h.storage.record.get a <;> rfl

theorem isAllowed_quiet {a : Address} {b : Bool} (hrun : isAllowed env a h = .ok (b, h')) : Quiet h h' := by
  obtain ⟨-, -, rfl⟩ | ⟨rec, -, -, -, -, rfl⟩ | ⟨_, -, -, -, -, -, hhold⟩ := isAllowed_cases hrun
  · exact .refl h'
  · exact .one rfl (fun _ => rfl) rfl
  · obtain ⟨-, -, rfl⟩ | ⟨-, -, m, f, rfl⟩ := holdingPeriodOver_cases hhold
    · exact .refl h'
    · exact .one rfl (fun _ => rfl) rfl

theorem pruneExpired_quiet {admin : Address} {maxRecords n : U32} (hw : WellPaged h.storage)
    (hrun : pruneExpired env admin maxRecords h = .ok (n, h')) : Quiet h h' := by
  have hblocked := (pruneExpired_framed hrun).blocked
  obtain ⟨-, -, -, hhost, -⟩ := pruneExpired_ok hw hrun
  refine ⟨⟨expiredEvents h.storage (pruned h.storage env.sequence maxRecords), by rw [hhost], ?_⟩, hblocked⟩
  intro e he k
  obtain ⟨a, -, hrec⟩ := List.mem_filterMap.1 he
  obtain ⟨rec, -, rfl⟩ := Option.map_eq_some_iff.1 hrec
  rfl

/-- **What a call says of the jurisdictions.** -/
theorem call_ruling {op : Op Address} {r : Ret} (hw : WellPaged h.storage) (hrun : call env op h = .ok (r, h')) :
    Ruling h h' op := by
  have hadmin : op.administrative = true → _ := fun hop => call_administrative hop hrun
  cases op <;> simp only [call, Call.bind_ok, Call.pure_ok] at hrun <;> obtain ⟨x, h₁, hop, hr⟩ := hrun <;> cases hr
  case blockJurisdiction => exact blockJurisdiction_ruling hop
  case unblockJurisdiction => exact unblockJurisdiction_ruling hop
  all_goals refine .quiet (fun _ _ heq => by cases heq) ?_
  case addToAllowlist => exact approveAddress_quiet (addToAllowlist_ok.1 hop).2.2
  case addToAllowlistBatch =>
    refine Call.forEach_rule (P := Quiet h) ?_ (.refl h) (addToAllowlistBatch_ok.1 hop).2.2
    exact fun entry _ h₁ h₂ hquiet hround => hquiet.trans (approveAddress_quiet hround)
  case isAllowed => exact isAllowed_quiet hop
  case pruneExpired => exact pruneExpired_quiet hw hop
  case suspend =>
    obtain ⟨-, -, rec, -, hr⟩ := suspend_ok.1 hop
    cases hr
    exact .one rfl (fun _ => rfl) rfl
  case reinstate =>
    obtain ⟨-, -, rec, -, -, hr⟩ := reinstate_ok.1 hop
    cases hr
    exact .one rfl (fun _ => rfl) rfl
  case remove =>
    have hblocked := (remove_framed hop).blocked
    obtain ⟨-, -, -, s, -, hr⟩ := remove_ok.1 hop
    cases hr
    exact .one rfl (fun _ => rfl) hblocked
  case recordAcquisition =>
    obtain ⟨-, -, ⟨-, hr⟩ | ⟨-, hr⟩⟩ := recordAcquisition_ok.1 hop
    · cases hr
      exact .one rfl (fun _ => rfl) rfl
    · cases hr
      exact .refl h
  case setMinHoldingPeriod =>
    obtain ⟨-, -, hr⟩ := setMinHoldingPeriod_ok.1 hop
    cases hr
    exact .one rfl (fun _ => rfl) rfl
  all_goals
    obtain ⟨roles, e, he, rfl⟩ := hadmin rfl
    exact .one rfl (fun k => Event.ruling_of_administrative k he) rfl

/-! ## Runs -/

/-- The events that an answered call published. -/
def emitted (d : Done (Contract Address) (Env Address × Op Address) Ret) : List (Event Address) :=
  d.post.events.drop d.pre.events.length

omit [DecidableEq Address] in
theorem emitted_eq {d : Done (Contract Address) (Env Address × Op Address) Ret} {es : List (Event Address)}
    (hes : d.post.events = d.pre.events ++ es) : emitted d = es := by
  rw [emitted, hes, List.drop_left]

/-- An answered call of a run, and what it says. -/
theorem ruling_of_mem {ls : List (Env Address × Op Address)}
    {d : Done (Contract Address) (Env Address × Op Address) Ret}
    (hd : d ∈ (compliance Address).trace (Contract.fresh Address) ls) : Ruling d.pre d.post d.label.2 := by
  obtain ⟨hstep, ls₁, ls₂, -, hpre⟩ := System.mem_trace hd
  have hw : WellPaged d.pre.storage := by
    rw [hpre]
    exact (run_listed ls₁).wellPaged
  exact call_ruling hw (Call.returned_eq_some.1 hstep)

/-- The log of a history and the flags: a code is blocked when the last event on it says so. -/
structure RuledOver (tr : History Address) (h : Contract Address) : Prop where
  wellPaged : WellPaged h.storage
  events : h.events = tr.flatMap emitted
  ruled : ∀ k, flag h.storage k = (latest (Event.ruling k) h.events).getD false

/-- One event that turns a flag is the last one on its code. -/
theorem RuledOver.turn {tr : History Address} (hr : RuledOver tr h) {e : Event Address} {j : Bytes} {b : Bool}
    (hevents : h'.events = h.events ++ [e]) (hruling : ∀ k, e.ruling k = if j = k then some b else none)
    (hflags : ∀ k, flag h'.storage k = if k = j then b else flag h.storage k) (k : Bytes) :
    flag h'.storage k = (latest (Event.ruling k) h'.events).getD false := by
  rw [hflags, hr.ruled, hevents, latest_concat, hruling]
  by_cases hk : k = j
  · simp [hk]
  · simp [hk, Ne.symm hk]

theorem RuledOver.step {tr : History Address} {l : Env Address × Op Address} {r : Ret} (hr : RuledOver tr h)
    (hrun : call l.1 l.2 h = .ok (r, h')) : RuledOver (tr ++ [⟨h, l, r, h'⟩]) h' := by
  have hgrown : ∀ es, h'.events = h.events ++ es → h'.events = List.flatMap emitted (tr ++ [⟨h, l, r, h'⟩]) := by
    intro es hes
    rw [List.flatMap_append, List.flatMap_singleton, emitted_eq (d := ⟨h, l, r, h'⟩) hes, ← hr.events, hes]
  have hw' := (call_listed hr.wellPaged hrun).wellPaged
  have hruling := call_ruling hr.wellPaged hrun
  generalize l.2 = op at hruling
  cases hruling with
  | blocked events flags => exact ⟨hw', hgrown _ events, hr.turn events (fun _ => rfl) flags⟩
  | unblocked events flags => exact ⟨hw', hgrown _ events, hr.turn events (fun _ => rfl) flags⟩
  | quiet _ hquiet =>
    obtain ⟨es, hes, hno⟩ := hquiet.events
    refine ⟨hw', hgrown es hes, fun k => ?_⟩
    have hflag : flag h'.storage k = flag h.storage k := by rw [flag, hquiet.blocked, flag]
    rw [hflag, hr.ruled, hes, latest_append, latest_eq_none fun e he => hno e he k, Option.none_or]

theorem ruled_fresh : RuledOver [] (Contract.fresh Address) := ⟨wellPaged_fresh, rfl, fun _ => rfl⟩

theorem run_ruled (ls : List (Env Address × Op Address)) :
    RuledOver ((compliance Address).trace (Contract.fresh Address) ls)
      ((compliance Address).run (Contract.fresh Address) ls) := by
  refine System.run_rule ruled_fresh ?_ ls
  intro tr h l r h' hr hstep
  exact hr.step (Call.returned_eq_some.1 hstep)

/-- The call does not block a code that is blocked already. -/
def BlocksNew (d : Done (Contract Address) (Env Address × Op Address) Ret) : Prop :=
  ∀ admin j, d.label.2 = .blockJurisdiction admin j → flag d.pre.storage (canon j) = false

omit [DecidableEq Address] in
/-- A `blockjur` event of the new log is in the old one, or comes right after it from a blocking. -/
theorem Ruling.blockjur_split {op : Op Address} (hr : Ruling h h' op) {j : Bytes} {l₁ l₂ : List (Event Address)}
    (hlog : h'.events = l₁ ++ .blockjur j :: l₂) : (∃ l₃, h.events = l₁ ++ .blockjur j :: l₃) ∨
      h.events = l₁ ∧ ∃ admin j', op = .blockJurisdiction admin j' ∧ canon j' = j := by
  cases hr with
  | @blocked admin j' events =>
    rw [events] at hlog
    rcases concat_eq_split hlog with ⟨hold, he, -⟩ | ⟨l₃, hold, -⟩
    · cases he
      exact .inr ⟨hold, admin, j', rfl, rfl⟩
    · exact .inl ⟨l₃, hold⟩
  | unblocked events =>
    rw [events] at hlog
    rcases concat_eq_split hlog with ⟨-, he, -⟩ | ⟨l₃, hold, -⟩
    · cases he
    · exact .inl ⟨l₃, hold⟩
  | quiet _ hquiet =>
    obtain ⟨es, hes, hno⟩ := hquiet.events
    rw [hes] at hlog
    rcases append_eq_split hlog with ⟨l₃, -, hl₃⟩ | ⟨l₃, hold, -⟩
    · have hsays := hno (.blockjur j) (by simp [hl₃]) j
      simp [Event.ruling] at hsays
    · exact .inl ⟨l₃, hold⟩

/-- A run of calls that block unblocked codes only has a timely log. -/
theorem run_timely (ls : List (Env Address × Op Address))
    (hnew : ∀ d ∈ (compliance Address).trace (Contract.fresh Address) ls, BlocksNew d) :
    Timely ((compliance Address).run (Contract.fresh Address) ls).events := by
  have hboth := System.run_rule_on (P := fun tr h => RuledOver tr h ∧ Timely h.events) (G := BlocksNew)
    ⟨ruled_fresh, fun j l₁ l₂ hlog => by cases l₁ <;> cases hlog⟩ ?_ ls hnew
  · exact hboth.2
  rintro tr h ⟨env, op⟩ r h' hG ⟨hr, ht⟩ hstep
  have hrun := Call.returned_eq_some.1 hstep
  refine ⟨hr.step hrun, fun j l₁ l₂ hlog => ?_⟩
  rcases (call_ruling hr.wellPaged hrun).blockjur_split hlog with ⟨l₃, hold⟩ | ⟨rfl, admin, j', hop, rfl⟩
  · exact ht j l₁ l₃ hold
  · rw [← hr.ruled]
    exact hG admin j' hop

/-! ## Marks of transitions -/

/-- The `blockjur` events of a run mark transitions: each is published by a call that turns its code from not blocked to
blocked, a call that blocks a blocked code leaves state and log as they were, and two events for one code have an
`unblkjur` event for it between them. -/
structure MarksTransitions (tr : History Address) (log : List (Event Address)) : Prop where
  turned : ∀ d ∈ tr, ∀ j, .blockjur j ∈ emitted d → flag d.pre.storage j = false ∧ flag d.post.storage j = true
  silent : ∀ d ∈ tr, ∀ admin j, d.label.2 = .blockJurisdiction admin j → flag d.pre.storage (canon j) = true →
    d.post = d.pre
  separated : ∀ j l₁ l₂ l₃, log = l₁ ++ .blockjur j :: l₂ ++ .blockjur j :: l₃ → .unblkjur j ∈ l₂

/-- What an answered blocking publishes and keeps. -/
theorem blocking_of_mem {ls : List (Env Address × Op Address)}
    {d : Done (Contract Address) (Env Address × Op Address) Ret} {admin : Address} {j : Bytes}
    (hd : d ∈ (compliance Address).trace (Contract.fresh Address) ls) (hop : d.label.2 = .blockJurisdiction admin j) :
    emitted d = [.blockjur (canon j)] ∧ (flag d.pre.storage (canon j) = true → d.post.storage = d.pre.storage) := by
  have hruling := ruling_of_mem hd
  rw [hop] at hruling
  cases hruling with
  | blocked events _ same => exact ⟨emitted_eq events, same⟩
  | quiet hno => exact absurd rfl (hno admin j)

/-- A `blockjur` event is published by a blocking of its code, which leaves the code blocked. -/
theorem blockjur_of_mem {ls : List (Env Address × Op Address)}
    {d : Done (Contract Address) (Env Address × Op Address) Ret} {j : Bytes}
    (hd : d ∈ (compliance Address).trace (Contract.fresh Address) ls) (hj : .blockjur j ∈ emitted d) :
    flag d.post.storage j = true ∧ ∃ admin j', d.label.2 = .blockJurisdiction admin j' ∧ canon j' = j := by
  have hruling := ruling_of_mem hd
  generalize d.label.2 = op at hruling
  cases hruling with
  | @blocked admin j' events flags =>
    rw [emitted_eq events, List.mem_singleton] at hj
    cases hj
    exact ⟨by rw [flags, if_pos rfl], admin, j', rfl, rfl⟩
  | unblocked events =>
    rw [emitted_eq events, List.mem_singleton] at hj
    cases hj
  | quiet _ hquiet =>
    obtain ⟨es, hes, hno⟩ := hquiet.events
    rw [emitted_eq hes] at hj
    have hsays := hno _ hj j
    simp [Event.ruling] at hsays

/-- **`blockjur` events mark transitions exactly in the runs that never block a blocked code.** In every run the log is
what its answered calls published, and blocking a code that is blocked already, however it is spelled, changes no state.
But it publishes the event again: the events of a run mark transitions if and only if no answered call of the run blocks
a code that is blocked at that time. -/
theorem blockjur_marks_transitions_iff (ls : List (Env Address × Op Address)) :
    let tr := (compliance Address).trace (Contract.fresh Address) ls
    let h := (compliance Address).run (Contract.fresh Address) ls
    h.events = tr.flatMap emitted ∧
      (∀ d ∈ tr, ∀ admin j, d.label.2 = .blockJurisdiction admin j → flag d.pre.storage (canon j) = true →
        d.post.storage = d.pre.storage) ∧
      (MarksTransitions tr h.events ↔
        ∀ d ∈ tr, ∀ admin j, d.label.2 = .blockJurisdiction admin j → flag d.pre.storage (canon j) = false) := by
  intro tr h
  refine ⟨(run_ruled ls).events, fun d hd admin j hop => (blocking_of_mem hd hop).2, fun hmarks d hd admin j hop => ?_,
    fun hnew => ⟨fun d hd j hj => ?_, fun d hd admin j hop hflag => ?_, fun j l₁ l₂ l₃ hlog => ?_⟩⟩
  · refine (hmarks.turned d hd (canon j) ?_).1
    rw [(blocking_of_mem hd hop).1]
    exact List.mem_singleton_self _
  · obtain ⟨hpost, admin, j', hop, rfl⟩ := blockjur_of_mem hd hj
    exact ⟨hnew d hd admin j' hop, hpost⟩
  · rw [hnew d hd admin j hop] at hflag
    cases hflag
  · exact (run_timely ls hnew).separated hlog

/-- `US` is blocked, and blocked again as `u s`. -/
def blockedTwiceRun : List (Env ℕ × Op ℕ) :=
  [(.signed 0, .initializeContract 1), (.signed 1, .blockJurisdiction 1 [85, 83]),
    (.signed 2, .blockJurisdiction 1 [117, 32, 115])]

/-- The log has two `blockjur` events for `US`, one right after the other. -/
theorem blockjur_repeated :
    ¬ ∀ ls : List (Env ℕ × Op ℕ), MarksTransitions ((compliance ℕ).trace (Contract.fresh ℕ) ls)
      ((compliance ℕ).run (Contract.fresh ℕ) ls).events := fun h =>
  absurd ((h blockedTwiceRun).separated [85, 83] [.init 1] [] [] (by decide)) List.not_mem_nil

end StellarRwa.Compliance
