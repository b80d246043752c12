import StellarRwa.Network
import StellarRwa.Compliance.Lockup
import StellarRwa.Token.Questions

/-!
# A holding period, seen from the token

The token asks the same question of senders, recipients, mint targets and burners, and the holding period is part of the
answer. Two worlds that differ in the holding period of one address alone (`Relocked`) are therefore told apart by calls
that take nothing from it, a burn by it among them, unless the period counts for the same in both or the token cannot
ask about the address at all (`lockup_unseen_iff`).
-/

namespace StellarRwa

open Lib

variable {Address : Type} [DecidableEq Address] {env : Env Address} {w w' w₁ w₂ : World Address}
  {x x₁ x₂ y : Fleet Address} {a c h : Address} {n : U32}

/-! ## Answers -/

/-- A yes leaves the compliance contracts as they were. -/
theorem isAllowedAt_yes (hx : isAllowedAt env x c a = some (true, y)) : y = x := by
  obtain ⟨k, k', hk, hrun, rfl⟩ := isAllowedAt_some hx
  obtain rfl := Compliance.isAllowed_yes hrun
  exact Storage.set_of_get hk

theorem isAllowedAt_map {k : Compliance.Contract Address} (hk : x.get c = some k) :
    (isAllowedAt env x c a).map Prod.fst = ((Compliance.isAllowed env a k).map Prod.fst).toOption := by
  unfold isAllowedAt
  rw [hk]
  dsimp only
  cases Compliance.isAllowed env a k <;> rfl

/-- Who cleared the earlier checks hears no exactly while the holding period runs. -/
theorem isAllowedAt_no_iff {k : Compliance.Contract Address} (hk : x.get c = some k)
    (hc : Compliance.Cleared k.storage env.sequence a) :
    (∃ y, isAllowedAt env x c a = some (false, y)) ↔ Compliance.Locked k.storage env.sequence a := by
  rw [← hc.refused_iff]
  constructor
  · rintro ⟨y, hy⟩
    obtain ⟨k₁, k', hk₁, hrun, -⟩ := isAllowedAt_some hy
    rw [hk] at hk₁
    cases hk₁
    exact ⟨k', hrun⟩
  · rintro ⟨k', hrun⟩
    exact ⟨x.set c k', by simp [isAllowedAt, hk, hrun]⟩

/-! ## Worlds that differ in one holding period -/

/-- Equal but for the holding period and the first acquisition of `h` at the compliance contract `c`; what the
compliance contracts published before does not count. -/
structure Relocked (c h : Address) (w₁ w₂ : World Address) : Prop where
  storage : w₁.storage = w₂.storage
  others : ∀ c', c' ≠ c → (w₁.outside.get c').map Host.storage = (w₂.outside.get c').map Host.storage
  entries : (w₁.outside.get c).map (fun k => k.storage.unlocked h)
    = (w₂.outside.get c).map (fun k => k.storage.unlocked h)

/-- A token call ends the same in both worlds: in the same fault, or with the same storage and the same new events, and
with the compliance contracts as they were. -/
def SameCall (w₁ w₂ : World Address) (env : Env Address) (op : Token.Op Address) : Prop :=
  Alike (fun x₁ x₂ => x₁ = w₁.outside ∧ x₂ = w₂.outside) w₁.events w₂.events (Token.call isAllowedAt env op) w₁ w₂

/-- The holding period of `h` at `c` counts for the same at ledger `n`: it runs in both worlds or in neither, or `h`
fails an earlier check anyway. -/
def SameLock (c h : Address) (n : U32) (w₁ w₂ : World Address) : Prop :=
  ∀ k₁ k₂, w₁.outside.get c = some k₁ → w₂.outside.get c = some k₂ → Compliance.Cleared k₁.storage n h →
    (Compliance.Locked k₁.storage n h ↔ Compliance.Locked k₂.storage n h)

/-- A call that sets the period or records the acquisition of `h` leads to such a world. -/
theorem callCompliance_relocked {op : Compliance.Op Address} {u : Unit} (hop : op.Locks h)
    (hstep : callCompliance w c env op = some (u, w')) : Relocked c h w w' := by
  obtain ⟨k, r, k', hk, hcall, rfl⟩ := callCompliance_some hstep
  refine ⟨rfl, fun c' hne => ?_, ?_⟩
  · rw [Storage.get_set_of_ne _ _ hne]
  · rw [Storage.get_set_self, hk, Option.map_some, Option.map_some, Compliance.call_unlocked hop hcall]

theorem Relocked.unlocked (hr : Relocked c h w₁ w₂) (c' : Address) :
    (w₁.outside.get c').map (fun k => k.storage.unlocked h) =
      (w₂.outside.get c').map (fun k => k.storage.unlocked h) := by
  by_cases hc : c' = c
  · rw [hc]
    exact hr.entries
  · have hmap := congrArg (Option.map fun s => s.unlocked h) (hr.others c' hc)
    rwa [Option.map_map, Option.map_map] at hmap

/-- Every holding period but that of `h` at `c` counts for the same, and that one too where it is assumed to. -/
theorem Relocked.locked_iff (hr : Relocked c h w₁ w₂) {c' : Address} (hq : (c', a) ≠ (c, h) ∨ SameLock c h n w₁ w₂)
    {k₁ k₂ : Compliance.Contract Address} (hk₁ : w₁.outside.get c' = some k₁) (hk₂ : w₂.outside.get c' = some k₂)
    (hcleared : Compliance.Cleared k₁.storage n a) :
    Compliance.Locked k₁.storage n a ↔ Compliance.Locked k₂.storage n a := by
  by_cases hc : c' = c
  · subst hc
    by_cases ha : a = h
    · subst ha
      exact hq.resolve_left (by simp) k₁ k₂ hk₁ hk₂ hcleared
    · have hun := hr.unlocked c'
      rw [hk₁, hk₂, Option.map_some, Option.map_some] at hun
      exact Compliance.locked_iff_of_unlocked (Option.some.inj hun) ha n
  · have hstorage := hr.others c' hc
    rw [hk₁, hk₂, Option.map_some, Option.map_some] at hstorage
    rw [Option.some.inj hstorage]

/-- So every question is answered the same, but the one about `h` at `c`. -/
theorem Relocked.answer (hr : Relocked c h w₁ w₂) {c' : Address}
    (hq : (c', a) ≠ (c, h) ∨ SameLock c h env.sequence w₁ w₂) :
    (isAllowedAt env w₁.outside c' a).map Prod.fst = (isAllowedAt env w₂.outside c' a).map Prod.fst := by
  have hun := hr.unlocked c'
  cases hk₁ : w₁.outside.get c' with
  | none =>
    rw [hk₁, Option.map_none] at hun
    simp [isAllowedAt, hk₁, Option.map_eq_none_iff.1 hun.symm]
  | some k₁ =>
    rw [hk₁, Option.map_some] at hun
    obtain ⟨k₂, hk₂, hs⟩ := Option.map_eq_some_iff.1 hun.symm
    have hrec : k₁.storage.record.get a = k₂.storage.record.get a := by rw [Compliance.record_eq_of_unlocked hs]
    rw [isAllowedAt_map hk₁, isAllowedAt_map hk₂,
      Compliance.isAllowed_alike hrec (Compliance.blocked_eq_of_unlocked hs.symm) (hr.locked_iff hq hk₁ hk₂)]

/-- Answers that are the same leave the compliance contracts as they were, or refuse. -/
theorem agrees_of_answer {q : Address × Address}
    (hanswer : (isAllowedAt env x₁ q.1 q.2).map Prod.fst = (isAllowedAt env x₂ q.1 q.2).map Prod.fst) :
    Token.Agrees (fun y₁ y₂ => y₁ = x₁ ∧ y₂ = x₂) isAllowedAt env q := by
  rintro z₁ z₂ ⟨rfl, rfl⟩
  cases hy₁ : isAllowedAt env z₁ q.1 q.2 with
  | none =>
    rw [hy₁, Option.map_none] at hanswer
    exact .inl ⟨rfl, Option.map_eq_none_iff.1 hanswer.symm⟩
  | some p₁ =>
    obtain ⟨b, y₁⟩ := p₁
    rw [hy₁, Option.map_some] at hanswer
    obtain ⟨⟨_, y₂⟩, hy₂, rfl⟩ := Option.map_eq_some_iff.1 hanswer.symm
    refine .inr ⟨_, y₁, y₂, rfl, hy₂, fun hb => ?_⟩
    subst hb
    exact ⟨isAllowedAt_yes hy₁, isAllowedAt_yes hy₂⟩

/-- **Where a holding period is seen.** Two worlds that differ in the holding period of `h` alone are the same to every
call that takes nothing from `h` by a transfer, at ledger `n`, exactly when the period counts for the same there, or
when the token is under another admin and is paused or does not point at `c`. -/
theorem lockup_unseen_iff (hr : Relocked c h w₁ w₂) (n : U32) :
    (∀ (env : Env Address) (op : Token.Op Address), env.sequence = n → ¬ op.MovesOut h → SameCall w₁ w₂ env op) ↔
      SameLock c h n w₁ w₂ ∨ Token.Unasked w₁.storage c h := by
  constructor
  · intro hsame
    refine or_iff_not_imp_right.2 fun hasked k₁ k₂ hk₁ hk₂ hcleared₁ => ?_
    have hcleared₂ : Compliance.Cleared k₂.storage n h := by
      have hun := hr.entries
      rw [hk₁, hk₂, Option.map_some, Option.map_some] at hun
      have hs := Option.some.inj hun
      rwa [Compliance.Cleared, Compliance.record_eq_of_unlocked hs, Compliance.blocked_eq_of_unlocked hs] at hcleared₁
    obtain ⟨op, f, hop, hrefused⟩ := Token.exists_asking (X := Fleet Address) hasked n
    have hsame := (hsame (Env.signed n) op rfl hop).refused (f := f)
    rwa [hrefused _ w₁ rfl, hrefused _ w₂ hr.storage.symm, isAllowedAt_no_iff hk₁ hcleared₁,
      isAllowedAt_no_iff hk₂ hcleared₂] at hsame
  · rintro hwhen env op rfl -
    refine Token.call_alike (twins_start hr.storage ⟨rfl, rfl⟩) fun q hq => agrees_of_answer (hr.answer ?_)
    rcases hwhen with hlock | hunasked
    · exact .inr hlock
    · exact .inl (hunasked.ne_of_mem hq)

/-! ## A holder locked up -/

/-- A token among compliance contracts of which only 9 is deployed, after a run. -/
def lockupWorld (ls : List (Network.Label ℕ)) : World ℕ :=
  (network ℕ).run (Token.Contract.fresh ℕ (Storage.set ∅ 9 (Compliance.Contract.fresh ℕ))) ls

/-- The admin 0 lists itself and 1 at 9, deploys the token, mints 100 to 1 and starts the clock of 1 at ledger 10. -/
def mintedRun : List (Network.Label ℕ) :=
  [.compliance 9 (Env.signed 10) (.initializeContract 0),
    .compliance 9 (Env.signed 10) (.addToAllowlist 0 0 [85, 83] 0),
    .compliance 9 (Env.signed 10) (.addToAllowlist 0 1 [85, 83] 0),
    .token (Env.signed 10) (.initializeToken 0 [65] [65] [65] 100 0 9 [65] 0),
    .token (Env.signed 10) (.mint 0 1 100), .compliance 9 (Env.signed 10) (.recordAcquisition 0 1)]

/-- The same, and then the admin locks 1 up for 90 ledgers. -/
def lockedRun : List (Network.Label ℕ) :=
  mintedRun ++ [.compliance 9 (Env.signed 10) (.setMinHoldingPeriod 0 1 90)]

theorem relocked_lockedRun : Relocked 9 1 (lockupWorld mintedRun) (lockupWorld lockedRun) := by
  have hsome :
      (callCompliance (lockupWorld mintedRun) 9 (Env.signed 10) (.setMinHoldingPeriod 0 1 90)).isSome = true := by
    decide +kernel
  obtain ⟨⟨u, w⟩, hstep⟩ := Option.isSome_iff_exists.1 hsome
  have hw : lockupWorld lockedRun = w := by
    rw [lockupWorld, lockedRun, System.run_append, System.run_cons, System.run_nil]
    exact System.exec_of_some hstep
  rw [hw]
  have hlocks : (Compliance.Op.setMinHoldingPeriod 0 1 90).Locks 1 := rfl
  exact callCompliance_relocked hlocks hstep

/-- At ledger 100 the lock-up of 1 is over, and a burn by it is the same in both. -/
theorem lockup_unseen_later :
    SameCall (lockupWorld mintedRun) (lockupWorld lockedRun) (Env.signed 100) (.burn 1 10) := by
  have hentries :
      ((lockupWorld mintedRun).outside.get 9).map (fun k => k.storage.minHoldingPeriod.get 1) = some none := by
    decide +kernel
  have hlocked : ((lockupWorld lockedRun).outside.get 9).map
      (fun k => (k.storage.minHoldingPeriod.get 1, k.storage.firstAcquiredLedger.get 1)) = some (some 90, some 10) := by
    decide +kernel
  refine (lockup_unseen_iff relocked_lockedRun 100).2 (.inl fun k₁ k₂ hk₁ hk₂ _ => iff_of_false ?_ ?_) _ _ rfl not_false
  · rintro ⟨m, _, hm, -⟩
    rw [hk₁, Option.map_some, hm] at hentries
    cases hentries
  · rintro ⟨m, f, hm, hf, -, hlt⟩
    rw [hk₂, Option.map_some, hm, hf] at hlocked
    cases hlocked
    exact absurd hlt (by decide)

/-- While it runs, at ledger 20, a burn by 1, a mint to 1 and a transfer to 1 go through in one world only. -/
theorem lockup_stops_burn :
    Relocked 9 1 (lockupWorld mintedRun) (lockupWorld lockedRun) ∧
      ∀ op ∈ [Token.Op.burn 1 10, .mint 0 1 10, .mintBatch 0 [(1, 10)], .transfer 0 1 10],
        ¬ op.MovesOut 1 ∧ ¬ SameCall (lockupWorld mintedRun) (lockupWorld lockedRun) (Env.signed 20) op := by
  refine ⟨relocked_lockedRun, fun op hop => ?_⟩
  simp only [List.mem_cons, List.not_mem_nil, or_false] at hop
  rcases hop with rfl | rfl | rfl | rfl
  · exact ⟨not_false, fun hsame => absurd hsame.outcome (by decide +kernel)⟩
  · exact ⟨not_false, fun hsame => absurd hsame.outcome (by decide +kernel)⟩
  · exact ⟨not_false, fun hsame => absurd hsame.outcome (by decide +kernel)⟩
  · exact ⟨by simp [Token.Op.MovesOut], fun hsame => absurd hsame.outcome (by decide +kernel)⟩

end StellarRwa
