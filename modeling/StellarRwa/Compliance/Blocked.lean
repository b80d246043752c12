import StellarRwa.Lib.Roster
import StellarRwa.Compliance.Frame

/-!
# The blocked jurisdictions

The set of blocked jurisdictions is stored twice: a flag for each code, and a list. Blocking and unblocking keep the two
in step (`BlockedStep`): the list is a roster of canonical codes, one for each flag, in the order in which the codes
were last turned from unblocked to blocked (`blocked_set_agrees`).
-/

namespace StellarRwa.Compliance

open Lib

variable {Address : Type} [DecidableEq Address] {env : Env Address} {h h' : Contract Address}

/-- A canonical code: two uppercase letters. -/
def Canonical (k : Bytes) : Prop := k.length = 2 ∧ ∀ b ∈ k, 65 ≤ b ∧ b ≤ 90

theorem toAsciiUppercase_upper {b : UInt8} (h : isAsciiAlphabetic b = true) :
    65 ≤ toAsciiUppercase b ∧ toAsciiUppercase b ≤ 90 := by
  simp only [isAsciiAlphabetic, Bool.or_eq_true, Bool.and_eq_true, decide_eq_true_eq] at h
  unfold toAsciiUppercase
  split
  · grind
  · grind

theorem canonical_canon {j : Bytes} (hj : TwoLetters j) : Canonical (canon j) := by
  refine ⟨(length_canon j).trans hj.1, fun c hc => ?_⟩
  obtain ⟨b, hb, rfl⟩ := List.mem_map.1 hc
  exact toAsciiUppercase_upper (hj.2 b hb)

/-- The flag of the code `k`. -/
def flag (s : State Address) (k : Bytes) : Bool := (s.blocked.get k).getD false

/-- The code that a call made in state `s` turns from unblocked to blocked. -/
def newlyBlocked (s : State Address) : Op Address → List Bytes
  | .blockJurisdiction _ jurisdiction => if flag s (canon jurisdiction) then [] else [canon jurisdiction]
  | _ => []

/-- The code that a call unblocks. -/
def unblocked : Op Address → List Bytes
  | .unblockJurisdiction _ jurisdiction => [canon jurisdiction]
  | _ => []

/-! ## One call -/

/-- What a call does to the flags and to the list. -/
structure BlockedStep (gone new : List Bytes) (s s' : State Address) : Prop where
  list : blockedList s' = Roster.next (blockedList s) gone new
  flags : ∀ k, flag s' k = true ↔ (flag s k = true ∧ k ∉ gone) ∨ k ∈ new
  nodup : new.Nodup
  fresh : ∀ k ∈ new, flag s k = false
  canonical : ∀ k ∈ new, Canonical k

omit [DecidableEq Address] in
theorem BlockedStep.same {s s' : State Address} (hflags : s'.blocked = s.blocked)
    (hlist : s'.blockedList = s.blockedList) : BlockedStep [] [] s s' where
  list := by simp [Roster.next, blockedList, hlist]
  flags k := by simp [flag, hflags]
  nodup := List.nodup_nil
  fresh k hk := by cases hk
  canonical k hk := by cases hk

theorem blockJurisdiction_blocked {admin : Address} {j : Bytes} {u : Unit}
    (hrun : blockJurisdiction env admin j h = .ok (u, h')) :
    BlockedStep [] (newlyBlocked h.storage (.blockJurisdiction admin j)) h.storage h'.storage := by
  obtain ⟨-, -, hj, hr⟩ := blockJurisdiction_ok.1 hrun
  cases hr
  have hflags : ∀ k, (((h.storage.blocked.set (canon j) true).get k).getD false = true ↔
      flag h.storage k = true ∨ k = canon j) := fun k => by
    rw [Storage.get_set]
    by_cases hk : k = canon j <;> simp [hk, flag]
  cases hold : flag h.storage (canon j) with
  | true =>
    have hold' : (h.storage.blocked.get (canon j)).getD false = true := hold
    rw [newlyBlocked, if_pos hold]
    refine ⟨by simp [Roster.next, blockedList, hold'], fun k => (hflags k).trans ?_, List.nodup_nil,
      fun k hk => (by cases hk), fun k hk => (by cases hk)⟩
    constructor
    · rintro (hk | rfl)
      · exact .inl ⟨hk, List.not_mem_nil⟩
      · exact .inl ⟨hold, List.not_mem_nil⟩
    · rintro (⟨hk, -⟩ | hk)
      · exact .inl hk
      · cases hk
  | false =>
    have hold' : (h.storage.blocked.get (canon j)).getD false = false := hold
    rw [newlyBlocked, if_neg (by simp [hold])]
    refine ⟨by simp [Roster.next, blockedList, hold'], fun k => (hflags k).trans (by simp), List.nodup_singleton _,
      ?_, ?_⟩
    · intro k hk
      rw [List.mem_singleton.1 hk]
      exact hold
    · intro k hk
      rw [List.mem_singleton.1 hk]
      exact canonical_canon hj

theorem unblockJurisdiction_blocked {admin : Address} {j : Bytes} {u : Unit}
    (hrun : unblockJurisdiction env admin j h = .ok (u, h')) :
    BlockedStep [canon j] [] h.storage h'.storage := by
  obtain ⟨-, -, -, hr⟩ := unblockJurisdiction_ok.1 hrun
  cases hr
  refine ⟨by simp [Roster.next, blockedList], fun k => ?_, List.nodup_nil, fun k hk => (by cases hk),
    fun k hk => (by cases hk)⟩
  show ((h.storage.blocked.remove (canon j)).get k).getD false = true ↔ _
  rw [Storage.get_remove]
  by_cases hk : k = canon j <;> simp [hk, flag]

/-- **What a call does to the blocked set.** -/
theorem call_blocked {op : Op Address} {r : Ret} (hrun : call env op h = .ok (r, h')) :
    BlockedStep (unblocked op) (newlyBlocked h.storage op) h.storage h'.storage := by
  have hlists : op.lists = true → Framed h.storage h'.storage := fun hop => call_framed hop hrun
  have hadmin : op.administrative = true → _ := fun hop => call_administrative hop hrun
  cases op <;> simp only [call, Call.bind_ok, Call.pure_ok] at hrun <;> obtain ⟨x, h₁, hop, hr⟩ := hrun <;> cases hr
  case blockJurisdiction => exact blockJurisdiction_blocked hop
  case unblockJurisdiction => exact unblockJurisdiction_blocked hop
  case setMinHoldingPeriod =>
    obtain ⟨-, -, hr⟩ := setMinHoldingPeriod_ok.1 hop
    cases hr
    exact .same rfl rfl
  case recordAcquisition =>
    obtain ⟨-, -, ⟨-, hr⟩ | ⟨-, hr⟩⟩ := recordAcquisition_ok.1 hop
    · cases hr
      exact .same rfl rfl
    · cases hr
      exact .same rfl rfl
  case initializeContract | proposeAdmin | cancelAdminProposal | acceptAdmin =>
    obtain ⟨roles, e, -, rfl⟩ := hadmin rfl
    exact .same rfl rfl
  all_goals exact .same (hlists rfl).blocked (hlists rfl).blockedList

/-! ## Runs -/

/-- The codes turned from unblocked to blocked over a history, oldest first. -/
def blockings (tr : History Address) : List Bytes := tr.flatMap fun d => newlyBlocked d.pre.storage d.label.2

/-- The list against the flags and the history. -/
structure BlockedOver (tr : History Address) (s : State Address) : Prop where
  nodup : (blockedList s).Nodup
  canonical : ∀ k ∈ blockedList s, Canonical k
  mem : ∀ k, k ∈ blockedList s ↔ flag s k = true
  order : blockedList s = (blockings tr).dedup.filter (flag s)

omit [DecidableEq Address] in
theorem BlockedOver.step {tr : History Address} {r : Ret} {l : Env Address × Op Address}
    (hb : BlockedOver tr h.storage)
    (hs : BlockedStep (unblocked l.2) (newlyBlocked h.storage l.2) h.storage h'.storage) :
    BlockedOver (tr ++ [⟨h, l, r, h'⟩]) h'.storage := by
  have hfresh : ∀ k ∈ newlyBlocked h.storage l.2, k ∉ blockedList h.storage := fun k hk hmem => by
    have := (hb.mem k).1 hmem
    rw [hs.fresh k hk] at this
    cases this
  have hmem : ∀ k, k ∈ blockedList h'.storage ↔ flag h'.storage k = true := fun k => by
    rw [hs.list, Roster.mem_next, hs.flags, hb.mem]
  refine ⟨?_, ?_, hmem, ?_⟩
  · rw [hs.list, Roster.next]
    refine List.nodup_append.2 ⟨hb.nodup.filter _, hs.nodup, ?_⟩
    rintro a ha _ hnew rfl
    exact hfresh a hnew (List.mem_filter.1 ha).1
  · intro k hk
    rw [hs.list, Roster.mem_next] at hk
    rcases hk with ⟨hk, -⟩ | hk
    · exact hb.canonical k hk
    · exact hs.canonical k hk
  · rw [hs.list] at hmem ⊢
    rw [blockings, List.flatMap_append, List.flatMap_singleton]
    exact Roster.next_eq_filter hb.mem hmem hb.order hs.nodup hfresh

theorem run_blocked (ls : List (Env Address × Op Address)) :
    BlockedOver ((compliance Address).trace (Contract.fresh Address) ls)
      ((compliance Address).run (Contract.fresh Address) ls).storage := by
  refine System.run_rule (P := fun tr h => BlockedOver tr h.storage) ?_ ?_ ls
  · refine ⟨List.nodup_nil, fun k hk => (by cases hk), fun k => ?_, rfl⟩
    simp [Contract.fresh, State.fresh, blockedList, flag]
  · intro tr h l r h' hb hstep
    exact hb.step (call_blocked (Call.returned_eq_some.1 hstep))

/-- **The list and the flags agree**, in every reachable state: the list has no duplicates and holds canonical codes
only; a code is on it exactly when `is_jurisdiction_blocked` says yes, however the code is spelled; and it is ordered by
the latest call that turned the code from unblocked to blocked. -/
theorem blocked_set_agrees (ls : List (Env Address × Op Address)) :
    let s := ((compliance Address).run (Contract.fresh Address) ls).storage
    let tr := (compliance Address).trace (Contract.fresh Address) ls
    (getBlockedJurisdictions s).Nodup ∧
      (∀ k ∈ getBlockedJurisdictions s, Canonical k) ∧
      (∀ j k, normalizeJurisdiction j = .ok k →
        (k ∈ getBlockedJurisdictions s ↔ isJurisdictionBlocked s j = .ok true)) ∧
      getBlockedJurisdictions s = (blockings tr).dedup.filter (flag s) := by
  intro s tr
  have hb : BlockedOver tr s := run_blocked ls
  refine ⟨hb.nodup, hb.canonical, fun j k hjk => ?_, hb.order⟩
  obtain ⟨hj, rfl⟩ := normalizeJurisdiction_ok.1 hjk
  rw [isJurisdictionBlocked_ok]
  exact (hb.mem (canon j)).trans ⟨fun hflag => ⟨hj, hflag⟩, And.right⟩

end StellarRwa.Compliance
