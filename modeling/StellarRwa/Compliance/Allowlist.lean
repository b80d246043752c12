import StellarRwa.Lib.Roster
import StellarRwa.Compliance.Prune

/-!
# The allowlist over runs

The pages, the page-of map and the cursor implement a roster: a call strikes the addresses `struckBy` names and
appends those that `enrolled` names (`call_listed`). Over a run the list is therefore well paged and in the order of
the latest first-time add of each address.

The counter follows the list except across `prune_expired`, which strikes addresses without counting them out: the
counter exceeds the length of the list by the number of addresses ever pruned (`run_count`).
-/

namespace StellarRwa.Compliance

open Lib

variable {Address : Type} [DecidableEq Address] {env : Env Address} {h h' : Contract Address}

/-- The addresses that a call adds to the list: those it approves that had no record. -/
def enrolled (s : State Address) : Op Address → List Address
  | .addToAllowlist _ address _ _ => Roster.newcomers s.record.has [address]
  | .addToAllowlistBatch _ entries => Roster.newcomers s.record.has (entries.map AllowlistEntry.address)
  | _ => []

/-- The addresses that a pruning call strikes from the list. -/
def prunedBy (s : State Address) (l : Env Address × Op Address) : List Address :=
  match l.2 with
  | .pruneExpired _ maxRecords => pruned s l.1.sequence maxRecords
  | _ => []

/-- The addresses that a call strikes from the list. -/
def struckBy (s : State Address) (l : Env Address × Op Address) : List Address :=
  match l.2 with
  | .remove _ address => [address]
  | _ => prunedBy s l

/-- From `s` to `s'` the addresses `gone` were struck and `new` appended; the counter lost sight of `uncounted`. -/
structure Listed (s s' : State Address) (gone new uncounted : List Address) : Prop where
  wellPaged : WellPaged s'
  list : getAllowlist s' = Roster.next (getAllowlist s) gone new
  count : ((getAllowlist s).length : Int) ≤ (getAllowlistCount s).val →
    (getAllowlistCount s').val - (getAllowlist s').length
      = (getAllowlistCount s).val - (getAllowlist s).length + uncounted.length

/-! ## What one call does to the list -/

/-- A call that touches no part of the allowlist. -/
theorem Listed.same {s s' : State Address} (hw : WellPaged s) (hrecord : s'.record = s.record)
    (hpage : s'.allowlistPage = s.allowlistPage) (hpageOf : s'.allowlistPageOf = s.allowlistPageOf)
    (hmeta : s'.allowlistMeta = s.allowlistMeta) (hcount : s'.allowlistCount = s.allowlistCount) :
    Listed s s' [] [] [] := by
  obtain ⟨roles, cursor, pages, pageOf, count, record, _⟩ := s
  obtain ⟨roles', cursor', pages', pageOf', count', record', _⟩ := s'
  cases hrecord; cases hpage; cases hpageOf; cases hmeta; cases hcount
  refine ⟨⟨hw.nodup, hw.mem_page, hw.recorded, hw.beyond, hw.page_le, hw.cursor_le, hw.le_cursor⟩, ?_, ?_⟩
  · rw [Roster.next_nil_left, List.append_nil]
    rfl
  · intro _
    rw [List.length_nil]
    exact (add_zero _).symm

/-- The record of a listed address is overwritten. -/
theorem Listed.rewritten {s : State Address} {a : Address} {old : KycRecord Address} (hw : WellPaged s)
    (hold : s.record.get a = some old) (r : KycRecord Address) : Listed s (s.withRecord a r) [] [] [] := by
  refine ⟨hw.withRecord r hold, ?_, ?_⟩
  · rw [Roster.next_nil_left, List.append_nil]
    rfl
  · intro _
    rw [List.length_nil]
    exact (add_zero _).symm

theorem has_withRecord {s : State Address} {a : Address} (r : KycRecord Address) (b : Address) :
    (s.withRecord a r).record.has b = (s.record.has b || b = a) := by
  unfold State.withRecord Storage.has
  rw [Storage.get_set]
  by_cases hb : b = a <;> simp [hb]

theorem approveAddress_listed {now : U32} {a : Address} {j : Bytes} {e : U32} {u : Unit} (hw : WellPaged h.storage)
    (hrun : approveAddress now a j e h = .ok (u, h')) :
    Listed h.storage h'.storage [] (Roster.newcomers h.storage.record.has [a]) [] ∧
      ∀ b, h'.storage.record.has b = (h.storage.record.has b || b = a) := by
  obtain ⟨-, -, s, hs, hr⟩ := approveAddress_ok.1 hrun
  cases hr
  rcases hs with ⟨hnone, p, n, count, hslot, hcount, rfl⟩ | ⟨prev, hsome, rfl⟩
  · have hno : h.storage.record.has a = false := Storage.has_eq_false.2 hnone
    have hnew : Roster.newcomers h.storage.record.has [a] = [a] := by simp [Roster.newcomers, hno]
    have hlist : getAllowlist ((h.storage.withRecord a (approvedRecord now a j e)).appended a p n count)
        = getAllowlist h.storage ++ [a] := getAllowlist_appended (s := h.storage) hw hslot count
    rw [hnew]
    refine ⟨⟨hw.appended hslot _ hnone, ?_, fun _ => ?_⟩, has_withRecord _⟩
    · rw [Roster.next_nil_left]
      exact hlist
    · show count.val - _ = _
      rw [hlist, hcount, List.length_append, List.length_singleton, List.length_nil]
      push_cast
      omega
  · have hyes : h.storage.record.has a = true := Storage.has_iff.2 ⟨prev, hsome⟩
    have hnew : Roster.newcomers h.storage.record.has [a] = [] := by simp [Roster.newcomers, hyes]
    rw [hnew]
    exact ⟨.rewritten hw hsome _, has_withRecord _⟩

/-- Steps that only append compose. -/
theorem Listed.append {s s₁ s' : State Address} {new new' : List Address} (h₁ : Listed s s₁ [] new [])
    (h₂ : Listed s₁ s' [] new' []) : Listed s s' [] (new ++ new') [] := by
  refine ⟨h₂.wellPaged, ?_, ?_⟩
  · rw [h₂.list, h₁.list, Roster.next_nil_left, Roster.next_nil_left, Roster.next_nil_left, List.append_assoc]
  · intro hle
    have hc := h₁.count hle
    rw [List.length_nil] at hc ⊢
    rw [h₂.count (by omega), hc, List.length_nil]
    omega

/-- The loop of `add_to_allowlist_batch`. -/
theorem approveEntries_listed {now : U32} : ∀ {entries : List (AllowlistEntry Address)} {h h' : Contract Address}
    {u : Unit}, WellPaged h.storage →
    Call.forEach entries (fun entry => approveAddress now entry.address entry.jurisdiction entry.expiresAt) h
      = .ok (u, h') →
    Listed h.storage h'.storage [] (Roster.newcomers h.storage.record.has (entries.map AllowlistEntry.address)) []
  | [], _, _, _, hw, hrun => by
    rw [Call.forEach_nil, Call.pure_ok] at hrun
    cases hrun
    exact .same hw rfl rfl rfl rfl rfl
  | entry :: entries, h, h', _, hw, hrun => by
    rw [Call.forEach_cons, Call.bind_ok] at hrun
    obtain ⟨_, h₁, hround, hloop⟩ := hrun
    obtain ⟨hfirst, hhas⟩ := approveAddress_listed hw hround
    have hrest := approveEntries_listed hfirst.wellPaged hloop
    rw [Roster.newcomers_congr hhas] at hrest
    have happ := hfirst.append hrest
    cases hknown : h.storage.record.has entry.address with
    | true =>
      have hsame : ∀ b, (h.storage.record.has b || decide (b = entry.address)) = h.storage.record.has b := fun b => by
        by_cases hb : b = entry.address <;> simp [hb, hknown]
      rw [Roster.newcomers_congr hsame] at happ
      simpa [Roster.newcomers, hknown] using happ
    | false => simpa [Roster.newcomers, hknown] using happ

/-- Striking a listed address through its page. -/
theorem struck_detached {s : State Address} {a : Address} {p : U32} (hw : WellPaged s)
    (hp : s.allowlistPageOf.get a = some p) : Struck [a] s ((s.withoutRecord a).detached a p) := by
  refine ⟨?_, ?_, ?_, ?_, rfl⟩
  · intro b
    show (s.record.remove a).get b = _
    rw [Storage.get_remove]
    simp
  · intro b
    show (s.allowlistPageOf.remove a).get b = _
    rw [Storage.get_remove]
    simp
  · intro q
    show ((s.allowlistPage.set p ((page s p).filter (· ≠ a))).get q).getD [] = _
    rw [Storage.get_set]
    split
    · rename_i hqp
      simp [hqp]
    · rename_i hqp
      refine (List.filter_eq_self.2 fun b hb => ?_).symm
      have hne : b ≠ a := by
        rintro rfl
        have := (hw.mem_page b q).1 hb
        rw [hp] at this
        exact hqp (Option.some.inj this).symm
      simpa using hne
  · intro q hq
    show (s.allowlistPage.set p _).get q = none
    have hmem : a ∈ page s p := (hw.mem_page a p).2 hp
    rw [Storage.get_set_of_ne _ _ (by rintro rfl; rw [page_eq_nil_of_get hq] at hmem; cases hmem)]
    exact hq

theorem pruned_nodup {s : State Address} (hw : WellPaged s) (now maxRecords : U32) :
    (pruned s now maxRecords).Nodup := by
  rw [pruned, examined_eq]
  exact (hw.nodup.sublist (List.take_sublist _ _)).filter _

theorem mem_of_pruned {s : State Address} {now maxRecords : U32} {a : Address} (ha : a ∈ pruned s now maxRecords) :
    a ∈ getAllowlist s := by
  rw [pruned, examined_eq] at ha
  exact List.mem_of_mem_take (List.mem_filter.1 ha).1

/-- A call that strikes listed addresses; `uncounted` are those the counter does not follow. -/
theorem Listed.strike {s s' : State Address} {gone uncounted : List Address} (hw : WellPaged s)
    (hstruck : Struck gone s s') (hnd : gone.Nodup) (hsub : ∀ a ∈ gone, a ∈ getAllowlist s)
    (hcount : ((getAllowlist s).length : Int) ≤ (getAllowlistCount s).val →
      (getAllowlistCount s').val + gone.length = (getAllowlistCount s).val + uncounted.length) :
    Listed s s' gone [] uncounted := by
  have hlen := Roster.length_strike hw.nodup hnd hsub
  refine ⟨hstruck.wellPaged hw, ?_, ?_⟩
  · rw [Roster.next, List.append_nil, hstruck.getAllowlist]
  · intro hle
    have hc := hcount hle
    rw [hstruck.getAllowlist]
    omega

theorem remove_listed {admin a : Address} {u : Unit} (hw : WellPaged h.storage)
    (hrun : remove env admin a h = .ok (u, h')) : Listed h.storage h'.storage [a] [] [] := by
  obtain ⟨-, -, ⟨rec, hrec⟩, s, hs, hr⟩ := remove_ok.1 hrun
  cases hr
  have hmem : a ∈ getAllowlist h.storage := hw.mem_getAllowlist_iff_record.2 (Storage.has_iff.2 ⟨rec, hrec⟩)
  rcases hs with ⟨hnone, -⟩ | ⟨p, hp, rfl⟩
  · rw [hw.mem_getAllowlist, Storage.has_iff] at hmem
    obtain ⟨p, hp⟩ := hmem
    rw [hnone] at hp
    cases hp
  · refine .strike hw (struck_detached hw hp) (List.nodup_singleton a) (by simpa using hmem) fun hle => ?_
    have hpos := List.length_pos_of_mem hmem
    have hhi := (getAllowlistCount h.storage).le_hi
    show ((getAllowlistCount h.storage).saturatingSub 1).val + _ = _
    rw [MInt.val_saturatingSub, MInt.val_one, List.length_singleton, List.length_nil]
    omega

theorem pruneExpired_listed {admin : Address} {maxRecords n : U32} (hw : WellPaged h.storage)
    (hrun : pruneExpired env admin maxRecords h = .ok (n, h')) :
    Listed h.storage h'.storage (pruned h.storage env.sequence maxRecords) []
      (pruned h.storage env.sequence maxRecords) := by
  obtain ⟨-, -, hstruck, hhost, -⟩ := pruneExpired_ok hw hrun
  refine .strike hw hstruck (pruned_nodup hw _ _) (fun a ha => mem_of_pruned ha) fun _ => ?_
  rw [hhost]
  rfl

/-- **What a call does to the list.** -/
theorem call_listed {op : Op Address} {r : Ret} (hw : WellPaged h.storage) (hrun : call env op h = .ok (r, h')) :
    Listed h.storage h'.storage (struckBy h.storage (env, op)) (enrolled h.storage op)
      (prunedBy h.storage (env, op)) := by
  have hadmin : op.administrative = true → _ := fun hop => call_administrative hop hrun
  cases op <;> simp only [call, Call.bind_ok, Call.pure_ok] at hrun <;> obtain ⟨x, h₁, hop, hr⟩ := hrun <;> cases hr
  case addToAllowlist => exact (approveAddress_listed hw (addToAllowlist_ok.1 hop).2.2).1
  case addToAllowlistBatch => exact approveEntries_listed hw (addToAllowlistBatch_ok.1 hop).2.2
  case suspend =>
    obtain ⟨-, -, rec, hrec, hr⟩ := suspend_ok.1 hop
    cases hr
    exact .rewritten hw hrec _
  case reinstate =>
    obtain ⟨-, -, rec, hrec, -, hr⟩ := reinstate_ok.1 hop
    cases hr
    exact .rewritten hw hrec _
  case remove => exact remove_listed hw hop
  case pruneExpired => exact pruneExpired_listed hw hop
  case isAllowed =>
    have hsame := (isAllowed_ok hop).1
    exact .same hw (by rw [hsame]) (by rw [hsame]) (by rw [hsame]) (by rw [hsame]) (by rw [hsame])
  case recordAcquisition =>
    obtain ⟨-, -, ⟨-, hr⟩ | ⟨-, hr⟩⟩ := recordAcquisition_ok.1 hop <;> cases hr <;> exact .same hw rfl rfl rfl rfl rfl
  case blockJurisdiction =>
    obtain ⟨-, -, -, hr⟩ := blockJurisdiction_ok.1 hop
    cases hr
    exact .same hw rfl rfl rfl rfl rfl
  case unblockJurisdiction =>
    obtain ⟨-, -, -, hr⟩ := unblockJurisdiction_ok.1 hop
    cases hr
    exact .same hw rfl rfl rfl rfl rfl
  case setMinHoldingPeriod =>
    obtain ⟨-, -, hr⟩ := setMinHoldingPeriod_ok.1 hop
    cases hr
    exact .same hw rfl rfl rfl rfl rfl
  all_goals
    obtain ⟨roles, e, -, rfl⟩ := hadmin rfl
    exact .same hw rfl rfl rfl rfl rfl

/-! ## Runs -/

/-- The addresses added to the list over a history, oldest first. -/
def firstTimeAdds (tr : History Address) : List Address := tr.flatMap fun d => enrolled d.pre.storage d.label.2

/-- The addresses pruned over a history. -/
def prunedOver (tr : History Address) : List Address := tr.flatMap fun d => prunedBy d.pre.storage d.label

/-- The list and its counter, against the history. -/
structure ListedOver (tr : History Address) (s : State Address) : Prop where
  wellPaged : WellPaged s
  order : getAllowlist s = (firstTimeAdds tr).dedup.filter (· ∈ getAllowlist s)
  count : (getAllowlistCount s).val = (getAllowlist s).length + (prunedOver tr).length

theorem wellPaged_fresh : WellPaged (State.fresh Address) where
  nodup := List.nodup_nil
  mem_page a p := by simp [page, State.fresh]
  recorded a := by simp [State.fresh, Storage.has]
  beyond p _ := Storage.get_empty p
  page_le p := by simp [page, State.fresh]
  cursor_le := by simp [allowlistMeta, State.fresh]
  le_cursor := by simp [page, allowlistMeta, State.fresh]

theorem enrolled_new {s : State Address} (hw : WellPaged s) (op : Op Address) :
    (enrolled s op).Nodup ∧ ∀ a ∈ enrolled s op, a ∉ getAllowlist s := by
  have key : ∀ l, (Roster.newcomers s.record.has l).Nodup ∧
      ∀ a ∈ Roster.newcomers s.record.has l, a ∉ getAllowlist s := fun l =>
    ⟨Roster.newcomers_nodup _ l, fun a ha hmem => by
      have hno := (Roster.mem_newcomers.1 ha).1
      rw [hw.mem_getAllowlist_iff_record.1 hmem] at hno
      cases hno⟩
  cases op <;> first | exact key _ | simp [enrolled]

theorem run_listed (ls : List (Env Address × Op Address)) :
    ListedOver ((compliance Address).trace (Contract.fresh Address) ls)
      ((compliance Address).run (Contract.fresh Address) ls).storage := by
  refine System.run_rule (P := fun tr h => ListedOver tr h.storage) ⟨wellPaged_fresh, rfl, rfl⟩ ?_ ls
  rintro tr h ⟨env, op⟩ r h' hinv hstep
  have hlisted := call_listed hinv.wellPaged (Call.returned_eq_some.1 hstep)
  obtain ⟨hnd, hdis⟩ := enrolled_new hinv.wellPaged op
  refine ⟨hlisted.wellPaged, ?_, ?_⟩
  · rw [hlisted.list, firstTimeAdds, List.flatMap_append, List.flatMap_singleton]
    exact Roster.next_eq hinv.order hnd hdis
  · have hc := hinv.count
    have hs : (getAllowlistCount h'.storage).val - (getAllowlist h'.storage).length
        = (getAllowlistCount h.storage).val - (getAllowlist h.storage).length + (prunedBy h.storage (env, op)).length :=
      hlisted.count (by omega)
    have hlen : (prunedOver (tr ++ [⟨h, (env, op), r, h'⟩])).length
        = (prunedOver tr).length + (prunedBy h.storage (env, op)).length := by
      simp [prunedOver]
    omega

/-- A `u32` can count the listed addresses. -/
theorem length_getAllowlist_le (ls : List (Env Address × Op Address)) :
    ((getAllowlist ((compliance Address).run (Contract.fresh Address) ls).storage).length : Int) ≤ 4294967295 := by
  have hcount := (run_listed ls).count
  have hhi := (getAllowlistCount ((compliance Address).run (Contract.fresh Address) ls).storage).le_hi
  omega

/-- **The paged allowlist represents the records**, in every reachable state: each address with a record is on the
pages exactly once and no other address is, the page-of map names its page, the pages and the cursor respect the page
size, and the list is in the order of the latest first-time add. -/
theorem allowlist_represented (ls : List (Env Address × Op Address)) :
    let s := ((compliance Address).run (Contract.fresh Address) ls).storage
    let tr := (compliance Address).trace (Contract.fresh Address) ls
    ((allowlistMeta s).1.upTo.flatMap (page s)).Nodup ∧
      (∀ a, a ∈ (allowlistMeta s).1.upTo.flatMap (page s) ↔ ∃ rec, s.record.get a = some rec) ∧
      (∀ a, (∃ p, s.allowlistPageOf.get a = some p) ↔ ∃ rec, s.record.get a = some rec) ∧
      (∀ a p, s.allowlistPageOf.get a = some p ↔ a ∈ page s p) ∧
      (∀ p, ((page s p).length : Int) ≤ allowlistPageSize) ∧
      (∀ p : U32, (allowlistMeta s).1 < p → s.allowlistPage.get p = none) ∧
      (allowlistMeta s).2.val ≤ allowlistPageSize ∧
      ((page s (allowlistMeta s).1).length : Int) ≤ (allowlistMeta s).2.val ∧
      getAllowlist s = (firstTimeAdds tr).dedup.filter s.record.has := by
  intro s tr
  have hinv : ListedOver tr s := run_listed ls
  have hw := hinv.wellPaged
  refine ⟨hw.nodup, ?_, ?_, fun a p => (hw.mem_page a p).symm, ?_, hw.beyond, hw.cursor_le, hw.le_cursor, ?_⟩
  · intro a
    rw [← Storage.has_iff]
    exact hw.mem_getAllowlist_iff_record
  · intro a
    rw [← Storage.has_iff, ← Storage.has_iff, hw.recorded]
  · intro p
    have := hw.page_le p
    unfold allowlistPageSize
    omega
  · refine hinv.order.trans (List.filter_congr fun a _ => ?_)
    rw [Bool.eq_iff_iff, decide_eq_true_eq]
    exact hw.mem_getAllowlist_iff_record

/-! ## The counter -/

theorem prunedBy_eq_nil {s : State Address} {l : Env Address × Op Address} :
    prunedBy s l = [] ↔ ∀ admin maxRecords, l.2 = .pruneExpired admin maxRecords →
      ∀ a ∈ examined s maxRecords, expiredAt s l.1.sequence a = false := by
  obtain ⟨env, op⟩ := l
  cases op <;> simp [prunedBy, pruned]

/-- **The counter agrees with the list exactly when no pruning ever struck an address**: when no answered
`prune_expired` found an expired record among the addresses it examined. -/
theorem count_eq_length_iff (ls : List (Env Address × Op Address)) :
    let s := ((compliance Address).run (Contract.fresh Address) ls).storage
    (getAllowlistCount s).val = (getAllowlist s).length ↔
      ∀ d ∈ (compliance Address).trace (Contract.fresh Address) ls, ∀ admin maxRecords,
        d.label.2 = .pruneExpired admin maxRecords →
        ∀ a ∈ examined d.pre.storage maxRecords, expiredAt d.pre.storage d.label.1.sequence a = false := by
  intro s
  have hcount : (getAllowlistCount s).val = (getAllowlist s).length +
      (prunedOver ((compliance Address).trace (Contract.fresh Address) ls)).length := (run_listed ls).count
  have hnil : (getAllowlistCount s).val = (getAllowlist s).length ↔
      prunedOver ((compliance Address).trace (Contract.fresh Address) ls) = [] := by
    rw [← List.length_eq_zero_iff]
    omega
  rw [hnil, prunedOver, List.flatMap_eq_nil_iff]
  exact forall₂_congr fun d _ => prunedBy_eq_nil

/-- Two addresses are added, the record of the first expires, and the list is pruned. -/
def expiryRun : List (Env ℕ × Op ℕ) :=
  [(.signed 0, .initializeContract 1),
    (.signed 1, .addToAllowlist 1 7 [85, 83] 10),
    (.signed 1, .addToAllowlist 1 8 [85, 83] 0),
    (.signed 10, .pruneExpired 1 0)]

/-- After it the list holds one address and the counter still says two. -/
theorem count_ne_length_after_prune :
    ¬ ∀ ls : List (Env ℕ × Op ℕ),
      (getAllowlistCount ((compliance ℕ).run (Contract.fresh ℕ) ls).storage).val
        = (getAllowlist ((compliance ℕ).run (Contract.fresh ℕ) ls).storage).length := fun h =>
  absurd (h expiryRun) (by decide)

end StellarRwa.Compliance
