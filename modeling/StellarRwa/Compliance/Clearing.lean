import StellarRwa.Compliance.Frame
import StellarRwa.Compliance.Gate

/-!
# Clearing accounts

What the admin of the compliance contract can do for an account at any time: lift the block of a jurisdiction, drop the
holding period of the account and approve it there for good. As long as the list has room, all these calls are answered
(`clear_accounts`), whatever was decided about the accounts before: refused records, suspensions, expiries and holding
periods do not outlive them.
-/

namespace StellarRwa.Compliance

open Lib

variable {Address : Type}

/-- The list takes `n` more addresses, on any pages. -/
structure Room (s : State Address) (n : ℕ) : Prop where
  count : (getAllowlistCount s).val + n ≤ 2 ^ 32 - 1
  pages : (allowlistMeta s).1.val + n ≤ 2 ^ 32 - 1

/-- The contract of `admin` with room for `n` addresses, and the code of `j` not blocked. -/
structure Welcoming (s : State Address) (admin : Address) (j : Bytes) (n : ℕ) : Prop where
  admin : s.roles.admin = some admin
  unblocked : s.blocked.get (canon j) = none
  room : Room s n

variable [DecidableEq Address] {env : Env Address} {h : Contract Address} {admin a : Address} {j : Bytes} {n : ℕ}

/-- `a` is approved under the code of `j`, without an expiry and without a holding period. -/
structure Admitted (s : State Address) (j : Bytes) (a : Address) : Prop where
  record : ∃ n, s.record.get a = some (approvedRecord n a j 0)
  free : s.minHoldingPeriod.get a = none

/-- The gate lets an admitted account pass, at every ledger. -/
theorem Admitted.passes (hc : Admitted h.storage j a) (hj : TwoLetters j)
    (hopen : h.storage.blocked.get (canon j) = none)
    (t : U32) : ∃ h', isAllowed (.signed t) a h = .ok (true, h') := by
  obtain ⟨⟨m, hrecord⟩, hfree⟩ := hc
  apply isAllowed_true_iff.2
  constructor
  · refine ⟨_, hrecord, rfl, .inl rfl, ?_, ?_⟩
    · show (h.storage.blocked.get (canon (canon j))).getD false = false
      rw [canon_canon hj, hopen, Option.getD_none]
    · rintro ⟨p, f, hp, -⟩
      cases hfree.symm.trans hp
  · intro rec hrec
    obtain rfl := Option.some.inj (hrecord.symm.trans hrec)
    exact twoLetters_canon hj

/-! ## The calls -/

omit [DecidableEq Address] in
theorem Room.nextSlot {s : State Address} (hr : Room s (n + 1)) :
    ∃ p m, NextSlot s p m ∧ p.val ≤ (allowlistMeta s).1.val + 1 := by
  have hpages := hr.pages
  have hlo := (allowlistMeta s).1.lo_le
  have hlen := (allowlistMeta s).2.lo_le
  by_cases hfull : 200 ≤ (allowlistMeta s).2.val
  · obtain ⟨p, hp⟩ : ∃ p : U32, p.val = (allowlistMeta s).1.val + 1 := MInt.exists_val (by omega) (by omega)
    exact ⟨p, 1, .inl ⟨hfull, hp, rfl⟩, by omega⟩
  · obtain ⟨m, hm⟩ : ∃ m : U32, m.val = (allowlistMeta s).2.val + 1 := MInt.exists_val (by omega) (by omega)
    exact ⟨_, m, .inr ⟨by omega, rfl, hm⟩, by omega⟩

/-- The calls of the admin for one account. -/
def clearing (admin : Address) (j : Bytes) (a : Address) : List (Op Address) :=
  [.setMinHoldingPeriod admin a 0, .addToAllowlist admin a j 0]

/-- The calls of the admin for a list of accounts. -/
def clearings (admin : Address) (j : Bytes) (accounts : List Address) : List (Op Address) :=
  .unblockJurisdiction admin j :: accounts.flatMap (clearing admin j)

/-- Calls of `ops` at one ledger. -/
abbrev calls (env : Env Address) (ops : List (Op Address)) : List (Env Address × Op Address) :=
  ops.map fun op => (env, op)

theorem step_unblock (hsigned : env.authorized admin = true) (hadmin : h.storage.roles.admin = some admin)
    (hj : TwoLetters j) (hroom : Room h.storage n) :
    ∃ h', (compliance Address).step h (env, .unblockJurisdiction admin j) = some (.unit, h') ∧
      Welcoming h'.storage admin j n := by
  have hrun := unblockJurisdiction_ok.2 ⟨hadmin, hsigned, hj, rfl⟩
  refine ⟨_, Call.returned_eq_some.2 (Call.bind_ok.2 ⟨_, _, hrun, rfl⟩), hadmin, ?_, hroom.count, hroom.pages⟩
  exact Storage.get_remove_self _ _

/-- The first call for an account: its holding period goes, and nothing else changes. -/
theorem step_release (hsigned : env.authorized admin = true) (hw : Welcoming h.storage admin j n) (a : Address) :
    ∃ h', (compliance Address).step h (env, .setMinHoldingPeriod admin a 0) = some (.unit, h') ∧
      Welcoming h'.storage admin j n ∧ h'.storage.minHoldingPeriod.get a = none ∧
      ∀ b, Admitted h.storage j b → Admitted h'.storage j b := by
  have hrun : setMinHoldingPeriod env admin a 0 h = .ok ((), _) := setMinHoldingPeriod_ok.2 ⟨hw.admin, hsigned, rfl⟩
  refine ⟨_, Call.returned_eq_some.2 (Call.bind_ok.2 ⟨_, _, hrun, rfl⟩),
    ⟨hw.admin, hw.unblocked, hw.room.count, hw.room.pages⟩, ?_, fun b hb => ⟨hb.record, ?_⟩⟩
  · simp
  · have hbelow := hb.free
    simp only [if_true, Storage.get_remove, hbelow, ite_self]

/-- An approval needs a valid expiry and a valid code, and room on the list. -/
theorem approveAddress_returns {now e : U32} (he : ¬ (e ≠ 0 ∧ e ≤ now)) (hj : TwoLetters j) (a : Address)
    (hroom : Room h.storage (n + 1)) :
    ∃ h', approveAddress now a j e h = .ok ((), h') ∧ Room h'.storage n := by
  have hcount := hroom.count
  have hpages := hroom.pages
  push_cast at hcount hpages
  cases hprev : h.storage.record.get a with
  | some prev =>
    refine ⟨_, approveAddress_ok.2 ⟨he, hj, _, .inr ⟨prev, hprev, rfl⟩, rfl⟩, ?_, ?_⟩
    · show (getAllowlistCount h.storage).val + n ≤ _
      omega
    · show (allowlistMeta h.storage).1.val + n ≤ _
      omega
  | none =>
    obtain ⟨p, m, hslot, hp⟩ := hroom.nextSlot
    have hlo := (getAllowlistCount h.storage).lo_le
    obtain ⟨count, hc⟩ : ∃ c : U32, c.val = (getAllowlistCount h.storage).val + 1 :=
      MInt.exists_val (by omega) (by omega)
    refine ⟨_, approveAddress_ok.2 ⟨he, hj, _, .inl ⟨hprev, p, m, count, hslot, hc, rfl⟩, rfl⟩, ?_, ?_⟩
    · show count.val + n ≤ _
      omega
    · show p.val + n ≤ _
      omega

/-- The second call: the account is approved, over the record it has or as a new one. -/
theorem step_approve (hsigned : env.authorized admin = true) (hj : TwoLetters j)
    (hw : Welcoming h.storage admin j (n + 1)) (hfree : h.storage.minHoldingPeriod.get a = none) :
    ∃ h', (compliance Address).step h (env, .addToAllowlist admin a j 0) = some (.unit, h') ∧
      Welcoming h'.storage admin j n ∧ Admitted h'.storage j a ∧
        ∀ b, Admitted h.storage j b → Admitted h'.storage j b := by
  obtain ⟨h', happrove, hroom⟩ := approveAddress_returns (e := 0) (by simp) hj a hw.room
  have hframed := approveAddress_framed happrove
  obtain ⟨-, hrecord⟩ := approveAddress_record happrove
  have hrun := addToAllowlist_ok.2 ⟨hw.admin, hsigned, happrove⟩
  refine ⟨h', Call.returned_eq_some.2 (Call.bind_ok.2 ⟨_, _, hrun, rfl⟩), ⟨?_, ?_, hroom⟩, ⟨⟨env.sequence, ?_⟩, ?_⟩,
    fun b hb => ⟨?_, ?_⟩⟩
  · rw [hframed.roles, hw.admin]
  · rw [hframed.blocked, hw.unblocked]
  · rw [hrecord, if_pos rfl]
  · rw [hframed.minHoldingPeriod, hfree]
  · rw [hrecord]
    split
    · rename_i heq
      exact ⟨env.sequence, by rw [heq]⟩
    · exact hb.record
  · rw [hframed.minHoldingPeriod, hb.free]

/-! ## Lists of accounts -/

/-- One account. -/
theorem clear_account (hsigned : env.authorized admin = true) (hj : TwoLetters j)
    (hw : Welcoming h.storage admin j (n + 1)) (a : Address) :
    (compliance Address).Answers h (calls env (clearing admin j a)) ∧
      Welcoming ((compliance Address).run h (calls env (clearing admin j a))).storage admin j n ∧
      Admitted ((compliance Address).run h (calls env (clearing admin j a))).storage j a ∧
      ∀ b, Admitted h.storage j b →
        Admitted ((compliance Address).run h (calls env (clearing admin j a))).storage j b := by
  obtain ⟨h₁, hstep₁, hw₁, hfree, hkept₁⟩ := step_release hsigned hw a
  obtain ⟨h₂, hstep₂, hw₂, hadmitted, hkept₂⟩ := step_approve hsigned hj hw₁ hfree
  have hrun : (compliance Address).run h (calls env (clearing admin j a)) = h₂ := by
    simp only [calls, clearing, List.map_cons, List.map_nil, System.run_cons, System.run_nil,
      System.exec_of_some hstep₁, System.exec_of_some hstep₂]
  rw [hrun]
  exact ⟨⟨_, _, hstep₁, _, _, hstep₂, trivial⟩, hw₂, hadmitted, fun b hb => hkept₂ b (hkept₁ b hb)⟩

/-- **All accounts of a list.** -/
theorem clear_accounts (hsigned : env.authorized admin = true) (hj : TwoLetters j) (accounts : List Address)
    (hadmin : h.storage.roles.admin = some admin) (hroom : Room h.storage accounts.length) :
    let h' := (compliance Address).run h (calls env (clearings admin j accounts))
    (compliance Address).Answers h (calls env (clearings admin j accounts)) ∧
      ∀ a ∈ accounts, ∀ t, ∃ h'', isAllowed (.signed t) a h' = .ok (true, h'') := by
  have hrest : ∀ (l : List Address) (h : Contract Address), Welcoming h.storage admin j l.length →
      (compliance Address).Answers h (calls env (l.flatMap (clearing admin j))) ∧
        Welcoming ((compliance Address).run h (calls env (l.flatMap (clearing admin j)))).storage admin j 0 ∧
        ∀ a, a ∈ l ∨ Admitted h.storage j a →
          Admitted ((compliance Address).run h (calls env (l.flatMap (clearing admin j)))).storage j a := by
    intro l
    induction l with
    | nil =>
      intro h hw
      refine ⟨trivial, hw, fun a ha => ?_⟩
      rcases ha with hno | hadmitted
      · cases hno
      · exact hadmitted
    | cons a l ih =>
      intro h hw
      obtain ⟨hans, hw₁, hadmitted, hkept⟩ := clear_account hsigned hj hw a
      obtain ⟨hans', hw', hall⟩ := ih _ hw₁
      simp only [calls, List.flatMap_cons, List.map_append, System.run_append] at hans hans' hw' hall ⊢
      refine ⟨System.answers_append.2 ⟨hans, hans'⟩, hw', fun b hb => hall b ?_⟩
      rcases hb with hmem | hb
      · rcases List.mem_cons.1 hmem with rfl | hmem
        · exact .inr hadmitted
        · exact .inl hmem
      · exact .inr (hkept b hb)
  obtain ⟨h₁, hstep, hw⟩ := step_unblock hsigned hadmin hj hroom
  obtain ⟨hans, hw', hall⟩ := hrest accounts h₁ hw
  intro h'
  have hrun : h' = (compliance Address).run h₁ (calls env (accounts.flatMap (clearing admin j))) := by
    simp only [h', calls, clearings, List.map_cons, System.run_cons, System.exec_of_some hstep]
  refine ⟨⟨_, _, hstep, hans⟩, fun a ha t => ?_⟩
  rw [hrun]
  exact (hall a (.inl ha)).passes hj hw'.unblocked t

end StellarRwa.Compliance
