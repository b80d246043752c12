import StellarRwa.Token.Spec

/-!
# What calls do to the metadata

Every call that writes the metadata writes the whole record back. `MetadataStep` says what it may write: the same
record, another supply while the token is not paused, or one of the eight rewritings of the administration
(`call_metadata`). So each field changes in one entry point only, signed by the role that owns it
(`metadata_framed`), and a paused token keeps its balances, its supply and its allowances until the admin lifts the
pause (`pause_freezes`).
-/

namespace StellarRwa.Token

open Lib

variable {Address X : Type} [DecidableEq Address] {client : ComplianceClient Address X} {env : Env Address}
  {h h' h'' : Contract Address X} {op : Op Address} {u : Unit}

/-! ## Moving balances leaves the rest alone -/

/-- From `h` to `h'` the metadata and the allowances are the same. -/
structure SameTerms (h h' : Contract Address X) : Prop where
  metadata : h'.storage.metadata = h.storage.metadata
  allowance : h'.storage.allowance = h.storage.allowance

omit [DecidableEq Address] in
theorem SameTerms.refl (h : Contract Address X) : SameTerms h h := ⟨rfl, rfl⟩

omit [DecidableEq Address] in
theorem SameTerms.trans (h₁ : SameTerms h h') (h₂ : SameTerms h' h'') : SameTerms h h'' :=
  ⟨h₂.metadata.trans h₁.metadata, h₂.allowance.trans h₁.allowance⟩

theorem sendTo_terms {md : AssetMetadata Address} {from_ to_ : Address} {amount : I128}
    (hrun : sendTo client env md from_ to_ amount h = .ok (u, h')) : SameTerms h h' := by
  obtain ⟨x, -, -, ⟨-, hr⟩ | ⟨-, newFromBal, newToBal, -, -, hr⟩⟩ := sendTo_ok.1 hrun
  · cases hr
    exact ⟨rfl, rfl⟩
  · cases hr
    exact ⟨rfl, rfl⟩

theorem sendEntries_terms {md : AssetMetadata Address} {from_ : Address} {transfers : List (Address × I128)}
    (hrun : Call.forEach transfers (fun p => do
      checkAmount p.2
      sendTo client env md from_ p.1 p.2) h = .ok ((), h')) : SameTerms h h' := by
  refine Call.forEach_rule (P := SameTerms h) ?_ (.refl h) hrun
  intro p _ h₁ h₂ hsame hround
  simp only [Call.bind_ok, checkAmount_ok] at hround
  obtain ⟨_, _, ⟨-, e⟩, hsend⟩ := hround
  cases e
  exact hsame.trans (sendTo_terms hsend)

theorem mintTo_terms {md : AssetMetadata Address} {supply newSupply : I128} {to_ : Address} {amount : I128}
    (hrun : mintTo client env md supply to_ amount h = .ok (newSupply, h')) :
    SameTerms h h' ∧ newSupply.val = supply.val + amount.val := by
  obtain ⟨x, -, n, newToBal, hn, -, hr⟩ := mintTo_ok.1 hrun
  cases hr
  exact ⟨⟨rfl, rfl⟩, hn⟩

/-- A batch of mints only raises the supply. -/
theorem mintEntries_terms {md : AssetMetadata Address} {supply newSupply : I128} {recipients : List (Address × I128)}
    (hrun : Call.foldEach (mintEntry client env md) supply recipients h = .ok (newSupply, h')) :
    SameTerms h h' ∧ supply.val ≤ newSupply.val := by
  refine Call.foldEach_rule (P := fun n h₁ => SameTerms h h₁ ∧ supply.val ≤ n.val) ?_ ⟨.refl h, le_refl _⟩ hrun
  intro p _ b₁ h₁ b₂ h₂ hP hround
  simp only [Call.bind_ok, checkAmount_ok, Call.publish_ok, Call.pure_ok] at hround
  obtain ⟨_, _, ⟨hamount, e₁⟩, n, h₃, hmint, _, _, e₂, e₃⟩ := hround
  cases e₁; cases e₂; cases e₃
  obtain ⟨hsame, hn⟩ := mintTo_terms hmint
  refine ⟨hP.1.trans ⟨hsame.metadata, hsame.allowance⟩, ?_⟩
  have := hP.2
  omega

/-! ## One call -/

/-- The call mints, in the name of `admin`. -/
def Op.Mints (admin : Address) : Op Address → Prop
  | .mint a _ _ => a = admin
  | .mintBatch a _ => a = admin
  | _ => False

/-- What a call may write over the metadata `md`. -/
inductive MetadataStep (env : Env Address) (md : AssetMetadata Address) : Op Address → AssetMetadata Address → Prop
  | kept {op : Op Address} (hactive : md.paused = false) : MetadataStep env md op md
  | minted {op : Op Address} {supply : I128} (hactive : md.paused = false) (hop : op.Mints md.admin)
    (hsigned : env.authorized md.admin = true) (hle : md.totalSupply.val ≤ supply.val) :
    MetadataStep env md op { md with totalSupply := supply }
  | burnt {from_ : Address} {amount supply : I128} (hactive : md.paused = false)
    (hsigned : env.authorized from_ = true) (hlt : supply.val < md.totalSupply.val) :
    MetadataStep env md (.burn from_ amount) { md with totalSupply := supply }
  | rewritten {op : Op Address} {md' : AssetMetadata Address} {e : Event Address} (hr : Rewrite env md op md' e) :
    MetadataStep env md op md'

/-- **What a call does to the metadata** of an initialized token. -/
theorem call_metadata {md : AssetMetadata Address} (hmd : h.storage.metadata = some md)
    (hrun : call client env op h = .ok (u, h')) :
    ∃ md', h'.storage.metadata = some md' ∧ MetadataStep env md op md' := by
  have hsome : ∀ md₁, h.storage.metadata = some md₁ → md₁ = md := fun md₁ h₁ => Option.some.inj (h₁.symm.trans hmd)
  by_cases hop : op.administrative = true
  · by_cases happrove : ∃ from_ spender amount expirationLedger, op = .approve from_ spender amount expirationLedger
    · obtain ⟨from_, spender, amount, expirationLedger, rfl⟩ := happrove
      obtain ⟨-, -, md₁, hmd₁, hactive, -, hr⟩ := approve_ok.1 hrun
      cases hr
      obtain rfl := hsome md₁ hmd₁
      exact ⟨md₁, hmd₁, .kept hactive⟩
    · push Not at happrove
      obtain ⟨md₁, md', e, x, hmd₁, hrewrite, -, rfl⟩ := call_rewrite hop happrove hrun
      obtain rfl := hsome md₁ hmd₁
      exact ⟨md', rfl, .rewritten hrewrite⟩
  · cases op <;> first | exact absurd rfl hop | skip
    case initializeToken =>
      have hnone := (initializeToken_ok.1 hrun).1
      cases hnone.symm.trans hmd
    case transfer =>
      obtain ⟨-, -, md₁, hmd₁, hactive, x, -, hsend⟩ := transfer_ok.1 hrun
      obtain rfl := hsome md₁ hmd₁
      exact ⟨md₁, (sendTo_terms hsend).metadata.trans hmd₁, .kept hactive⟩
    case transferBatch =>
      obtain ⟨-, md₁, hmd₁, hactive, x, -, hloop⟩ := transferBatch_ok.1 hrun
      obtain rfl := hsome md₁ hmd₁
      exact ⟨md₁, (sendEntries_terms hloop).metadata.trans hmd₁, .kept hactive⟩
    case mint =>
      obtain ⟨md₁, hmd₁, hsigned, rfl, hamount, hactive, n, h₁, hmint, hr⟩ := mint_ok.1 hrun
      cases hr
      obtain rfl := hsome md₁ hmd₁
      have hn := (mintTo_terms hmint).2
      exact ⟨_, rfl, .minted hactive rfl hsigned (by omega)⟩
    case mintBatch =>
      obtain ⟨md₁, hmd₁, hsigned, rfl, hactive, n, h₁, hloop, hr⟩ := mintBatch_ok.1 hrun
      cases hr
      obtain rfl := hsome md₁ hmd₁
      exact ⟨_, rfl, .minted hactive rfl hsigned (mintEntries_terms hloop).2⟩
    case burn =>
      obtain ⟨hsigned, hamount, md₁, hmd₁, hactive, x, -, -, newFromBal, newSupply, -, hsupply, hr⟩ := burn_ok.1 hrun
      cases hr
      obtain rfl := hsome md₁ hmd₁
      exact ⟨_, rfl, .burnt hactive hsigned (by omega)⟩
    case transferFrom =>
      obtain ⟨-, -, md₁, hmd₁, hactive, x, -, y, -, -, -, newFromBal, newToBal, left, -, -, -, hr⟩ :=
        transferFrom_ok.1 hrun
      cases hr
      obtain rfl := hsome md₁ hmd₁
      exact ⟨md₁, hmd₁, .kept hactive⟩

/-- Before `initialize` no other call is answered. -/
theorem call_uninitialized (hnone : h.storage.metadata = none) (hrun : call client env op h = .ok (u, h')) :
    ∃ admin name symbol assetType totalSupply decimals complianceContract assetDescription valuation,
      op = .initializeToken admin name symbol assetType totalSupply decimals complianceContract assetDescription
        valuation := by
  have hno : ∀ md, h.storage.metadata ≠ some md := by simp [hnone]
  by_cases hop : op.administrative = true
  · obtain ⟨-, ⟨md, -, hmd, -⟩, -⟩ := call_administrative hop hrun
    exact absurd hmd (hno md)
  · cases op <;> first | exact absurd rfl hop | skip
    case initializeToken => exact ⟨_, _, _, _, _, _, _, _, _, rfl⟩
    case transfer =>
      obtain ⟨-, -, md, hmd, -⟩ := transfer_ok.1 hrun
      exact absurd hmd (hno md)
    case transferBatch =>
      obtain ⟨-, md, hmd, -⟩ := transferBatch_ok.1 hrun
      exact absurd hmd (hno md)
    case mint =>
      obtain ⟨md, hmd, -⟩ := mint_ok.1 hrun
      exact absurd hmd (hno md)
    case mintBatch =>
      obtain ⟨md, hmd, -⟩ := mintBatch_ok.1 hrun
      exact absurd hmd (hno md)
    case burn =>
      obtain ⟨-, -, md, hmd, -⟩ := burn_ok.1 hrun
      exact absurd hmd (hno md)
    case transferFrom =>
      obtain ⟨-, -, md, hmd, -⟩ := transferFrom_ok.1 hrun
      exact absurd hmd (hno md)

/-! ## Each field has one owner -/

section Fields

variable {md md' : AssetMetadata Address}

omit [DecidableEq Address] in
theorem MetadataStep.terms (hs : MetadataStep env md op md') :
    md'.name = md.name ∧ md'.symbol = md.symbol ∧ md'.assetType = md.assetType ∧ md'.decimals = md.decimals ∧
      md'.assetDescription = md.assetDescription := by
  cases hs with
  | rewritten hr => cases hr <;> exact ⟨rfl, rfl, rfl, rfl, rfl⟩
  | _ => exact ⟨rfl, rfl, rfl, rfl, rfl⟩

omit [DecidableEq Address] in
theorem MetadataStep.valuation (hs : MetadataStep env md op md') (hne : md'.valuation ≠ md.valuation) :
    op = .updateValuation md.admin md'.valuation ∧ env.authorized md.admin = true := by
  cases hs with
  | rewritten hr =>
    cases hr with
    | updateValuation hsigned => exact ⟨rfl, hsigned⟩
    | _ => exact absurd rfl hne
  | _ => exact absurd rfl hne

omit [DecidableEq Address] in
theorem MetadataStep.complianceContract (hs : MetadataStep env md op md')
    (hne : md'.complianceContract ≠ md.complianceContract) :
    op = .setCompliance md.admin md'.complianceContract ∧ env.authorized md.admin = true := by
  cases hs with
  | rewritten hr =>
    cases hr with
    | setCompliance hsigned => exact ⟨rfl, hsigned⟩
    | _ => exact absurd rfl hne
  | _ => exact absurd rfl hne

omit [DecidableEq Address] in
theorem MetadataStep.guardian (hs : MetadataStep env md op md') (hne : md'.guardian ≠ md.guardian) :
    op = .setGuardian md.admin md'.guardian ∧ env.authorized md.admin = true := by
  cases hs with
  | rewritten hr =>
    cases hr with
    | setGuardian hsigned => exact ⟨rfl, hsigned⟩
    | _ => exact absurd rfl hne
  | _ => exact absurd rfl hne

omit [DecidableEq Address] in
theorem MetadataStep.unpaused (hs : MetadataStep env md op md') (hbefore : md.paused = true)
    (hafter : md'.paused = false) : op = .unpause md.admin ∧ env.authorized md.admin = true := by
  have hne : md'.paused ≠ md.paused := by simp [hbefore, hafter]
  cases hs with
  | rewritten hr =>
    cases hr with
    | pause _ _ => cases hafter
    | unpause hsigned => exact ⟨rfl, hsigned⟩
    | _ => exact absurd rfl hne
  | _ => exact absurd rfl hne

omit [DecidableEq Address] in
theorem MetadataStep.paused (hs : MetadataStep env md op md') (hbefore : md.paused = false)
    (hafter : md'.paused = true) :
    ∃ caller, op = .pause caller ∧ env.authorized caller = true ∧
      (caller = md.admin ∨ md.guardian = some caller) := by
  have hne : md'.paused ≠ md.paused := by simp [hbefore, hafter]
  cases hs with
  | rewritten hr =>
    cases hr with
    | pause hsigned hrole => exact ⟨_, rfl, hsigned, hrole.imp_left Eq.symm⟩
    | unpause _ => cases hafter
    | _ => exact absurd rfl hne
  | _ => exact absurd rfl hne

omit [DecidableEq Address] in
theorem MetadataStep.nominated (hs : MetadataStep env md op md') {b : Address} (hbefore : md.pendingAdmin ≠ some b)
    (hafter : md'.pendingAdmin = some b) : op = .proposeAdmin md.admin b ∧ env.authorized md.admin = true := by
  cases hs with
  | rewritten hr =>
    cases hr with
    | proposeAdmin hsigned =>
      cases hafter
      exact ⟨rfl, hsigned⟩
    | cancelAdminProposal _ _ => cases hafter
    | acceptAdmin _ _ => cases hafter
    | _ => exact absurd hafter hbefore
  | _ => exact absurd hafter hbefore

omit [DecidableEq Address] in
theorem MetadataStep.grown (hs : MetadataStep env md op md') (hlt : md.totalSupply.val < md'.totalSupply.val) :
    op.Mints md.admin ∧ env.authorized md.admin = true := by
  cases hs with
  | minted _ hop hsigned _ => exact ⟨hop, hsigned⟩
  | burnt _ _ hless => exact absurd hlt (lt_asymm hless)
  | rewritten hr => exact absurd hlt (hr.kept.1 ▸ lt_irrefl _)
  | kept _ => exact absurd hlt (lt_irrefl _)

omit [DecidableEq Address] in
theorem MetadataStep.shrunk (hs : MetadataStep env md op md') (hlt : md'.totalSupply.val < md.totalSupply.val) :
    ∃ from_ amount, op = .burn from_ amount ∧ env.authorized from_ = true := by
  cases hs with
  | minted _ _ _ hle => exact absurd hlt (not_lt.2 hle)
  | burnt _ hsigned _ => exact ⟨_, _, rfl, hsigned⟩
  | rewritten hr => exact absurd hlt (hr.kept.1 ▸ lt_irrefl _)
  | kept _ => exact absurd hlt (lt_irrefl _)

omit [DecidableEq Address] in
theorem MetadataStep.handed (hs : MetadataStep env md op md') (hne : md'.admin ≠ md.admin) :
    op = .acceptAdmin md'.admin ∧ env.authorized md'.admin = true ∧ md.pendingAdmin = some md'.admin := by
  cases hs with
  | rewritten hr =>
    cases hr with
    | acceptAdmin hsigned hpending => exact ⟨rfl, hsigned, hpending⟩
    | _ => exact absurd rfl hne
  | _ => exact absurd rfl hne

end Fields

/-- The metadata `md'` after a call, against the metadata `md` before it: which field changes in which entry point, and
who must have signed. -/
structure Framed (env : Env Address) (op : Op Address) (md md' : AssetMetadata Address) : Prop where
  terms : md'.name = md.name ∧ md'.symbol = md.symbol ∧ md'.assetType = md.assetType ∧ md'.decimals = md.decimals ∧
    md'.assetDescription = md.assetDescription
  valuation : md'.valuation ≠ md.valuation →
    op = .updateValuation md.admin md'.valuation ∧ env.authorized md.admin = true
  complianceContract : md'.complianceContract ≠ md.complianceContract →
    op = .setCompliance md.admin md'.complianceContract ∧ env.authorized md.admin = true
  guardian : md'.guardian ≠ md.guardian → op = .setGuardian md.admin md'.guardian ∧ env.authorized md.admin = true
  unpaused : md.paused = true → md'.paused = false → op = .unpause md.admin ∧ env.authorized md.admin = true
  paused : md.paused = false → md'.paused = true →
    ∃ caller, op = .pause caller ∧ env.authorized caller = true ∧ (caller = md.admin ∨ md.guardian = some caller)
  nominated : ∀ b, md.pendingAdmin ≠ some b → md'.pendingAdmin = some b →
    op = .proposeAdmin md.admin b ∧ env.authorized md.admin = true
  grown : md.totalSupply < md'.totalSupply → op.Mints md.admin ∧ env.authorized md.admin = true
  shrunk : md'.totalSupply < md.totalSupply → ∃ from_ amount, op = .burn from_ amount ∧ env.authorized from_ = true
  handed : md'.admin ≠ md.admin →
    op = .acceptAdmin md'.admin ∧ env.authorized md'.admin = true ∧ md.pendingAdmin = some md'.admin

omit [DecidableEq Address] in
theorem MetadataStep.framed {md md' : AssetMetadata Address} (hs : MetadataStep env md op md') :
    Framed env op md md' where
  terms := hs.terms
  valuation := hs.valuation
  complianceContract := hs.complianceContract
  guardian := hs.guardian
  unpaused := hs.unpaused
  paused := hs.paused
  nominated _ := hs.nominated
  grown := hs.grown
  shrunk := hs.shrunk
  handed := hs.handed

/-! ## A signer without a role -/

/-- `g` may not act for anybody: it is neither the admin nor nominated, holds nothing, and has no live allowance. -/
structure Powerless (env : Env Address) (s : State Address) (md : AssetMetadata Address) (g : Address) : Prop where
  admin : g ≠ md.admin
  pending : md.pendingAdmin ≠ some g
  holder : ¬ 0 < (balance s g).val
  spender : ∀ o, ¬ 0 < (allowance env s o g).val

theorem allowance_of_live {s : State Address} {o g : Address}
    (hlive : env.sequence.val ≤ (currentAllowance s o g).expirationLedger.val)
    (hpos : 0 < (currentAllowance s o g).amount.val) : 0 < (allowance env s o g).val := by
  unfold allowance
  cases hget : s.allowance.get (o, g) with
  | none =>
    rw [currentAllowance, hget] at hpos
    exact absurd hpos (lt_irrefl _)
  | some v =>
    rw [currentAllowance, hget, Option.getD_some] at hlive hpos
    show 0 < (if env.sequence ≤ v.expirationLedger then v.amount else 0).val
    rw [if_pos (MInt.le_def.2 hlive)]
    exact hpos

/-- Without the signature of the admin the administration can at most pause the token. -/
theorem Rewrite.powerless {md md' : AssetMetadata Address} {e : Event Address} {s : State Address} {g : Address}
    (hr : Rewrite env md op md' e) (honly : ∀ b, env.authorized b = true → b = g) (hg : Powerless env s md g) :
    md' = md ∨ md' = { md with paused := true } := by
  have hadmin : env.authorized md.admin ≠ true := fun hsigned => hg.admin (honly _ hsigned).symm
  cases hr with
  | pause _ _ => exact .inr rfl
  | acceptAdmin hsigned hpending => exact absurd (honly _ hsigned ▸ hpending) hg.pending
  | unpause hsigned => exact absurd hsigned hadmin
  | setGuardian hsigned => exact absurd hsigned hadmin
  | updateValuation hsigned => exact absurd hsigned hadmin
  | setCompliance hsigned => exact absurd hsigned hadmin
  | proposeAdmin hsigned => exact absurd hsigned hadmin
  | cancelAdminProposal hsigned _ => exact absurd hsigned hadmin

/-- A call that only a powerless address has signed moves no balance and can at most pause the token. -/
theorem call_powerless {md md' : AssetMetadata Address} {g : Address} (hmd : h.storage.metadata = some md)
    (hrun : call client env op h = .ok (u, h')) (hmd' : h'.storage.metadata = some md')
    (honly : ∀ b, env.authorized b = true → b = g) (hg : Powerless env h.storage md g) :
    h'.storage.balance = h.storage.balance ∧ (md' = md ∨ md' = { md with paused := true }) := by
  have hsome : ∀ md₁, h.storage.metadata = some md₁ → md₁ = md := fun md₁ h₁ => Option.some.inj (h₁.symm.trans hmd)
  have hadmin : env.authorized md.admin ≠ true := fun hsigned => hg.admin (honly _ hsigned).symm
  by_cases hop : op.administrative = true
  · by_cases happrove : ∃ from_ spender amount expirationLedger, op = .approve from_ spender amount expirationLedger
    · obtain ⟨from_, spender, amount, expirationLedger, rfl⟩ := happrove
      obtain ⟨-, -, md₁, hmd₁, -, -, hr⟩ := approve_ok.1 hrun
      cases hr
      exact ⟨rfl, .inl (hsome _ hmd')⟩
    · push Not at happrove
      obtain ⟨md₁, md₂, e, x, hmd₁, hrewrite, -, rfl⟩ := call_rewrite hop happrove hrun
      obtain rfl := hsome md₁ hmd₁
      obtain rfl : md₂ = md' := Option.some.inj hmd'
      exact ⟨rfl, hrewrite.powerless honly hg⟩
  · have hholder := hg.holder
    cases op <;> first | exact absurd rfl hop | skip
    case initializeToken =>
      have hnone := (initializeToken_ok.1 hrun).1
      cases hnone.symm.trans hmd
    case transfer =>
      obtain ⟨hsigned, hamount, md₁, -, -, x, -, hsend⟩ := transfer_ok.1 hrun
      obtain rfl := honly _ hsigned
      obtain ⟨-, -, hle, -⟩ := sendTo_ok.1 hsend
      exact absurd (lt_of_lt_of_le hamount hle) hholder
    case transferBatch from_ transfers =>
      obtain ⟨hsigned, md₁, -, -, x, -, hloop⟩ := transferBatch_ok.1 hrun
      obtain rfl := honly _ hsigned
      cases transfers with
      | nil =>
        rw [Call.forEach_nil, Call.pure_ok] at hloop
        cases hloop
        exact ⟨rfl, .inl (hsome _ hmd')⟩
      | cons p transfers =>
        simp only [Call.forEach_cons, Call.bind_ok, checkAmount_ok] at hloop
        obtain ⟨_, _, ⟨_, _, ⟨hamount, e⟩, hsend⟩, -⟩ := hloop
        cases e
        obtain ⟨-, -, hle, -⟩ := sendTo_ok.1 hsend
        exact absurd (lt_of_lt_of_le hamount hle) hholder
    case mint =>
      obtain ⟨md₁, hmd₁, hsigned, rfl, -⟩ := mint_ok.1 hrun
      obtain rfl := hsome md₁ hmd₁
      exact absurd hsigned hadmin
    case mintBatch =>
      obtain ⟨md₁, hmd₁, hsigned, rfl, -⟩ := mintBatch_ok.1 hrun
      obtain rfl := hsome md₁ hmd₁
      exact absurd hsigned hadmin
    case burn =>
      obtain ⟨hsigned, hamount, md₁, -, -, x, -, hle, -⟩ := burn_ok.1 hrun
      obtain rfl := honly _ hsigned
      exact absurd (lt_of_lt_of_le hamount hle) hholder
    case transferFrom spender from_ _ _ =>
      obtain ⟨hsigned, hamount, md₁, -, -, x, -, y, -, ⟨hlive, hallowed⟩, -⟩ := transferFrom_ok.1 hrun
      obtain rfl := honly _ hsigned
      exact absurd (allowance_of_live hlive (lt_of_lt_of_le hamount hallowed)) (hg.spender from_)

/-- **Frame and authority of the metadata.** Every answered call on an initialized token changes each field of the
metadata only in its own entry point and under the signature of its owner; and a call that only an address without any
role has signed, such as a guardian that is nothing else, changes no balance and can at most set `paused`. -/
theorem metadata_framed {md : AssetMetadata Address} (hmd : h.storage.metadata = some md)
    (hstep : (token client).step h (.call env op) = some (u, h')) :
    ∃ md', h'.storage.metadata = some md' ∧ Framed env op md md' ∧
      ∀ g, (∀ b, env.authorized b = true → b = g) → Powerless env h.storage md g →
        (∀ a, balance h'.storage a = balance h.storage a) ∧ (md' = md ∨ md' = { md with paused := true }) := by
  have hrun := Call.returned_eq_some.1 hstep
  obtain ⟨md', hmd', hs⟩ := call_metadata hmd hrun
  refine ⟨md', hmd', hs.framed, ?_⟩
  intro g honly hg
  obtain ⟨hbalance, hsame⟩ := call_powerless hmd hrun hmd' honly hg
  exact ⟨fun a => by rw [balance, hbalance, ← balance], hsame⟩

/-- A token of the admin 1 with the guardian 5. -/
def guardedRun : List (Label ℕ Unit) :=
  [.call (.signed 0) (.initializeToken 1 [65] [65] [65] 100 0 9 [65] 0), .call (.signed 0) (.setGuardian 1 (some 5))]

/-- The guardian pauses it, and does nothing else. -/
theorem metadata_framed_guarded :
    let h := (token fun _ x _ _ => some (true, x)).run (Contract.fresh ℕ ()) guardedRun
    ∃ h' : Contract ℕ Unit,
      (token fun _ x _ _ => some (true, x)).step h (.call ⟨0, fun a => a = 5⟩ (.pause 5)) = some ((), h') ∧
        ∀ a, balance h'.storage a = balance h.storage a := by
  intro h
  have hmeta : h.storage.metadata.isSome = true := by decide +kernel
  obtain ⟨md, hmd⟩ := Option.isSome_iff_exists.1 hmeta
  have hanswered : ((token fun _ x _ _ => some (true, x)).step h
      (.call ⟨0, fun a => a = 5⟩ (.pause 5))).isSome = true := by decide +kernel
  obtain ⟨⟨u, h'⟩, hstep⟩ := Option.isSome_iff_exists.1 hanswered
  have hadmin : h.storage.metadata.map (fun md => (md.admin, md.pendingAdmin)) = some (1, none) := by decide +kernel
  rw [hmd, Option.map_some, Option.some.injEq, Prod.mk.injEq] at hadmin
  have hg : Powerless ⟨0, fun a => a = 5⟩ h.storage md 5 := by
    refine ⟨by simp [hadmin.1], by simp [hadmin.2], by decide +kernel, fun o => ?_⟩
    have hempty : h.storage.allowance = ∅ := by decide +kernel
    simp [allowance, hempty]
  obtain ⟨md', -, -, hsame⟩ := metadata_framed hmd hstep
  exact ⟨h', hstep, (hsame 5 (by simp) hg).1⟩

/-! ## The pause -/

omit [DecidableEq Address] in
theorem Rewrite.administrative {md md' : AssetMetadata Address} {e : Event Address} (hr : Rewrite env md op md' e) :
    op.administrative = true ∧
      ∀ from_ spender amount expirationLedger, op ≠ .approve from_ spender amount expirationLedger := by
  cases hr <;> exact ⟨rfl, by simp⟩

/-- **A paused token** answers the administration only, and keeps its balances and allowances. -/
theorem call_paused {md : AssetMetadata Address} (hmd : h.storage.metadata = some md) (hpaused : md.paused = true)
    (hrun : call client env op h = .ok (u, h')) :
    ∃ md' e, Rewrite env md op md' e ∧ h'.storage = { h.storage with metadata := some md' } := by
  have hno : md.paused ≠ false := by simp [hpaused]
  obtain ⟨md', -, hs⟩ := call_metadata hmd hrun
  cases hs with
  | rewritten hr =>
    obtain ⟨hop, hnot⟩ := hr.administrative
    obtain ⟨md₁, md₂, e, x, hmd₁, hrewrite, -, rfl⟩ := call_rewrite hop hnot hrun
    cases hmd₁.symm.trans hmd
    exact ⟨md₂, e, hrewrite, rfl⟩
  | kept hactive => exact absurd hactive hno
  | minted hactive _ _ _ => exact absurd hactive hno
  | burnt hactive _ _ => exact absurd hactive hno

/-- The storage of a paused token with the supply, the balances and the allowances of `s`. -/
structure Frozen (s s' : State Address) : Prop where
  balance : s'.balance = s.balance
  allowance : s'.allowance = s.allowance
  metadata : ∃ md md', s.metadata = some md ∧ s'.metadata = some md' ∧ md'.paused = true ∧
    md'.totalSupply = md.totalSupply

/-- The address has signed the call. -/
def Label.SignedBy (a : Address) : Label Address X → Prop
  | .call env _ => env.authorized a = true
  | .others _ => False

/-- The label lifts the pause. -/
def Label.Unpauses : Label Address X → Prop
  | .call _ (.unpause _) => True
  | _ => False

/-- **One answered call** that is no unpause keeps a paused token frozen. -/
theorem Frozen.step {s : State Address} {l : Label Address X} (hf : Frozen s h.storage) (hno : ¬ l.Unpauses)
    (hstep : (token client).step h l = some (u, h')) : Frozen s h'.storage := by
  cases l with
  | others y =>
    cases hstep
    exact hf
  | call env op =>
    obtain ⟨md, md₁, hmd, hmd₁, hpaused, hsupply⟩ := hf.metadata
    obtain ⟨md₂, e, hrewrite, hs⟩ := call_paused hmd₁ hpaused (Call.returned_eq_some.1 hstep)
    rw [hs]
    refine ⟨hf.balance, hf.allowance, md, md₂, hmd, rfl, ?_, hrewrite.kept.1.trans hsupply⟩
    cases hrewrite with
    | pause _ _ => rfl
    | unpause _ => exact absurd trivial hno
    | _ => exact hpaused

/-- **The pause is a total freeze.** From every paused state that a token can reach, any calls without an answered
unpause leave the balances, the supply and the stored allowances as they are and the token paused. An unpause is
answered only to the admin of that moment, by its signature; to nobody else, so not to a guardian as such. -/
theorem pause_freezes (client : ComplianceClient Address X) (x : X) (ls : List (Label Address X)) :
    let h := (token client).run (Contract.fresh Address x) ls
    (∀ md, h.storage.metadata = some md → md.paused = true → ∀ ls' : List (Label Address X),
      (∀ d ∈ (token client).trace h ls', ¬ d.label.Unpauses) →
        let h' := (token client).run h ls'
        (∀ a, balance h'.storage a = balance h.storage a) ∧
          (∀ o s, h'.storage.allowance.get (o, s) = h.storage.allowance.get (o, s)) ∧
          ∃ md', h'.storage.metadata = some md' ∧ md'.totalSupply = md.totalSupply ∧ md'.paused = true) ∧
      ∀ md, h.storage.metadata = some md → ∀ env a, a ≠ md.admin ∨ env.authorized md.admin = false →
        (token client).step h (.call env (.unpause a)) = none := by
  intro h
  constructor
  · intro md hmd hpaused ls' hno h'
    have hf : Frozen h.storage h'.storage :=
      System.run_rule_on (G := fun d => ¬ d.label.Unpauses) (P := fun _ h₁ => Frozen h.storage h₁.storage)
        ⟨rfl, rfl, md, md, hmd, hmd, hpaused, rfl⟩ (fun _ _ _ _ _ hl hf hstep => hf.step hl hstep) ls' hno
    obtain ⟨md₁, md', hmd₁, hmd', hpaused', hsupply⟩ := hf.metadata
    cases hmd₁.symm.trans hmd
    refine ⟨fun a => by rw [balance, hf.balance, ← balance], fun o s => by rw [hf.allowance], md', hmd', hsupply,
      hpaused'⟩
  · intro md hmd env a hnot
    by_contra hanswered
    obtain ⟨⟨u, h'⟩, hstep⟩ := Option.ne_none_iff_exists'.1 hanswered
    obtain ⟨md₁, hmd₁, hsigned, rfl, -⟩ := unpause_ok.1 (Call.returned_eq_some.1 hstep)
    cases hmd₁.symm.trans hmd
    rcases hnot with hne | hunsigned
    · exact hne rfl
    · rw [hunsigned] at hsigned
      cases hsigned

end StellarRwa.Token
