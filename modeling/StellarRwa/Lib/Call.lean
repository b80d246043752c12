import StellarRwa.Lib.MachineInt
import Mathlib.Tactic.Common

/-!
# Calls

A contract call reads and writes the contract's storage, may call other contracts (`invoke`) and publishes events; it
returns a value or ends in a fault, and a fault leaves no trace, since the state is only returned with a value. A
fault is an error of the contract or a trap of the host (a missing signature, an overflow check, a failed callee).

The rules read off when a call returns: `bind_ok` for sequencing and one rule for each primitive. With them `simp`
turns "this call returned" into its guards and the state it left. The rules `bind_error` and so on say when a call
fails, and with what.
-/

namespace Lib

/-- A string of the host: bytes. -/
abbrev Bytes := List UInt8

/-- What a call knows of its ledger and its signatures. -/
structure Env (Address : Type) where
  sequence : U32
  authorized : Address → Bool

/-- A call at ledger `sequence` that everyone has signed. -/
def Env.signed {Address : Type} (sequence : U32) : Env Address := ⟨sequence, fun _ => true⟩

/-- A call at ledger `sequence` that nobody has signed. -/
def Env.unsigned {Address : Type} (sequence : U32) : Env Address := ⟨sequence, fun _ => false⟩

/-- How a call ends without a value. -/
inductive Fault (E : Type)
  | error (e : E)
  | trap
deriving DecidableEq, Repr

/-- What a call can change: the contract's storage, the other contracts, the event log. -/
structure Host (S X Ev : Type) where
  storage : S
  outside : X
  events : List Ev
deriving DecidableEq

/-- The same contract among other contracts. -/
def Host.among {S X X' Ev : Type} (h : Host S X Ev) (x : X') : Host S X' Ev := ⟨h.storage, x, h.events⟩

/-- The contract by itself. -/
def Host.alone {S X Ev : Type} (h : Host S X Ev) : Host S Unit Ev := h.among ()

/-- A call of a contract with storage `S`, other contracts `X`, events `Ev` and errors `E`. -/
abbrev Call (S X Ev E α : Type) := StateT (Host S X Ev) (Except (Fault E)) α

namespace Call

variable {S X Ev E α β : Type}

/-- The storage. -/
def storage : Call S X Ev E S := fun h => .ok (h.storage, h)

/-- Write the storage. -/
def update (f : S → S) : Call S X Ev E Unit := fun h => .ok ((), { h with storage := f h.storage })

/-- Publish an event. -/
def publish (e : Ev) : Call S X Ev E Unit := fun h => .ok ((), { h with events := h.events ++ [e] })

/-- Call another contract; the call traps when the callee fails. Here `.trap` stands for every failure of a callee,
whatever number the host then reports: a contract error is one that the contract raises itself. -/
def invoke (f : X → Option (α × X)) : Call S X Ev E α := fun h =>
  match f h.outside with
  | some (a, x) => .ok (a, { h with outside := x })
  | none => .error .trap

/-- Read a view of another contract; the call traps when the view fails. -/
def query (f : X → Option α) : Call S X Ev E α := invoke fun x => (f x).map fun a => (a, x)

/-- End with an error of the contract. -/
def fail (e : E) : Call S X Ev E α := fun _ => .error (.error e)

/-- End with a trap of the host. -/
def trap : Call S X Ev E α := fun _ => .error .trap

/-- `if c { panic_err(e) }`. -/
def panicIf (c : Prop) [Decidable c] (e : E) : Call S X Ev E Unit := if c then fail e else pure ()

/-- `if c { x }`. -/
def onlyIf (c : Prop) [Decidable c] (x : Call S X Ev E Unit) : Call S X Ev E Unit := if c then x else pure ()

/-- `unwrap_or_else(|| panic_err(e))`. -/
def unwrapOrElse (o : Option α) (e : E) : Call S X Ev E α :=
  match o with
  | some a => pure a
  | none => fail e

/-- The value of an operation that the compiler checks for overflow. -/
def orTrap (o : Option α) : Call S X Ev E α :=
  match o with
  | some a => pure a
  | none => trap

/-- `require_auth`: the host traps when the signature is missing. -/
def requireAuth {Address : Type} (env : Env Address) (a : Address) : Call S X Ev E Unit :=
  if env.authorized a then pure () else trap

/-- The outcome of a computation that only reads. -/
def lift (x : Except (Fault E) α) : Call S X Ev E α := fun h =>
  match x with
  | .ok a => .ok (a, h)
  | .error e => .error e

/-! ## When a call returns -/

section Rules

variable {h h' : Host S X Ev}

theorem bind_ok {x : Call S X Ev E α} {f : α → Call S X Ev E β} {r : β × Host S X Ev} :
    (x >>= f) h = .ok r ↔ ∃ a h₁, x h = .ok (a, h₁) ∧ f a h₁ = .ok r := by
  show (x h >>= fun p => f p.1 p.2) = .ok r ↔ _
  cases hx : x h with
  | error e => simp [bind, Except.bind]
  | ok p =>
    obtain ⟨a, h₁⟩ := p
    simp [bind, Except.bind]

theorem pure_ok {a : α} {r : α × Host S X Ev} : (pure a : Call S X Ev E α) h = .ok r ↔ (a, h) = r := by
  show Except.ok (a, h) = .ok r ↔ _
  simp

theorem storage_ok {r : S × Host S X Ev} : (storage : Call S X Ev E S) h = .ok r ↔ (h.storage, h) = r := by
  simp [storage]

theorem update_ok {f : S → S} {r : Unit × Host S X Ev} :
    (update f : Call S X Ev E Unit) h = .ok r ↔ ((), { h with storage := f h.storage }) = r := by
  simp [update]

theorem publish_ok {e : Ev} {r : Unit × Host S X Ev} :
    (publish e : Call S X Ev E Unit) h = .ok r ↔ ((), { h with events := h.events ++ [e] }) = r := by
  simp [publish]

theorem invoke_ok {f : X → Option (α × X)} {r : α × Host S X Ev} :
    (invoke f : Call S X Ev E α) h = .ok r ↔
      ∃ a x, f h.outside = some (a, x) ∧ (a, { h with outside := x }) = r := by
  unfold invoke
  cases hf : f h.outside with
  | none => simp
  | some p =>
    obtain ⟨a, x⟩ := p
    simp

theorem query_ok {f : X → Option α} {r : α × Host S X Ev} :
    (query f : Call S X Ev E α) h = .ok r ↔ ∃ a, f h.outside = some a ∧ (a, h) = r := by
  unfold query
  rw [invoke_ok]
  cases f h.outside <;> simp

theorem fail_ok {e : E} {r : α × Host S X Ev} : ¬ (fail e : Call S X Ev E α) h = .ok r := by simp [fail]

theorem panicIf_ok {c : Prop} [Decidable c] {e : E} {r : Unit × Host S X Ev} :
    (panicIf c e : Call S X Ev E Unit) h = .ok r ↔ ¬ c ∧ ((), h) = r := by
  unfold panicIf
  split
  · rename_i hc; simp [hc, fail]
  · rename_i hc; simp [hc, pure_ok]

theorem onlyIf_ok {c : Prop} [Decidable c] {x : Call S X Ev E Unit} {r : Unit × Host S X Ev} :
    onlyIf c x h = .ok r ↔ (c ∧ x h = .ok r) ∨ (¬ c ∧ ((), h) = r) := by
  unfold onlyIf
  split
  · rename_i hc; simp [hc]
  · rename_i hc; simp [hc, pure_ok]

theorem unwrapOrElse_ok {o : Option α} {e : E} {r : α × Host S X Ev} :
    (unwrapOrElse o e : Call S X Ev E α) h = .ok r ↔ ∃ a, o = some a ∧ (a, h) = r := by
  cases o with
  | none => simp [unwrapOrElse, fail]
  | some a => simp [unwrapOrElse, pure_ok]

theorem orTrap_ok {o : Option α} {r : α × Host S X Ev} :
    (orTrap o : Call S X Ev E α) h = .ok r ↔ ∃ a, o = some a ∧ (a, h) = r := by
  cases o with
  | none => simp [orTrap, trap]
  | some a => simp [orTrap, pure_ok]

theorem requireAuth_ok {Address : Type} {env : Env Address} {a : Address} {r : Unit × Host S X Ev} :
    (requireAuth env a : Call S X Ev E Unit) h = .ok r ↔ env.authorized a = true ∧ ((), h) = r := by
  unfold requireAuth
  split
  · rename_i ha; simp [ha, pure_ok]
  · rename_i ha; simp [ha, trap]

theorem lift_ok {x : Except (Fault E) α} {r : α × Host S X Ev} :
    (lift x : Call S X Ev E α) h = .ok r ↔ ∃ a, x = .ok a ∧ (a, h) = r := by
  cases x with
  | error e => simp [lift]
  | ok a => simp [lift]

theorem map_ok {x : Call S X Ev E α} {f : α → β} {r : β × Host S X Ev} :
    (f <$> x) h = .ok r ↔ ∃ a h₁, x h = .ok (a, h₁) ∧ (f a, h₁) = r := by
  rw [← bind_pure_comp, bind_ok]
  simp only [pure_ok]

/-- A branch returns when the branch taken does. -/
theorem ite_ok {c : Prop} [Decidable c] {x y : Call S X Ev E α} {r : α × Host S X Ev} :
    (if c then x else y) h = .ok r ↔ (c ∧ x h = .ok r) ∨ (¬ c ∧ y h = .ok r) := by
  split <;> simp_all

/-- The value and the state of a call that returned; nothing when it faulted. -/
def returned (x : Call S X Ev E α) (h : Host S X Ev) : Option (α × Host S X Ev) :=
  match x h with
  | .ok r => some r
  | .error _ => none

theorem returned_eq_some {x : Call S X Ev E α} {r : α × Host S X Ev} : x.returned h = some r ↔ x h = .ok r := by
  unfold returned
  cases x h with
  | error e => simp
  | ok r' => simp

theorem returned_eq_none {x : Call S X Ev E α} : x.returned h = none ↔ ∃ f, x h = .error f := by
  unfold returned
  cases x h with
  | error e => simp
  | ok r' => simp

/-- What returned the value `a` left some state. -/
theorem exists_of_map_fst {x : Except (Fault E) (α × Host S X Ev)} {a : α} (hx : x.map Prod.fst = .ok a) :
    ∃ h', x = .ok (a, h') := by
  cases x with
  | error f => cases hx
  | ok r =>
    cases hx
    exact ⟨r.2, rfl⟩

/-- Two outcomes on either side of a bound exclude each other, so each of them decides the bound. -/
theorem outcome_iff {ι : Type} {x : Except (Fault E) α} {f : Fault E} {g : ι → α} {n m : Int}
    (hreturns : n ≤ m → ∃ i, x = .ok (g i)) (hfails : m < n → x = .error f) :
    (x = .error f ↔ m < n) ∧ ((∃ i, x = .ok (g i)) ↔ n ≤ m) := by
  by_cases hfits : n ≤ m
  · obtain ⟨i, rfl⟩ := hreturns hfits
    exact ⟨iff_of_false nofun (not_lt.2 hfits), iff_of_true ⟨i, rfl⟩ hfits⟩
  · obtain rfl := hfails (not_le.1 hfits)
    exact ⟨iff_of_true rfl (not_le.1 hfits), iff_of_false nofun hfits⟩

end Rules

attribute [simp] bind_ok pure_ok map_ok storage_ok update_ok publish_ok invoke_ok query_ok fail_ok panicIf_ok
  onlyIf_ok unwrapOrElse_ok orTrap_ok requireAuth_ok lift_ok

/-! ## When a call fails -/

section Faults

variable {h : Host S X Ev} {f : Fault E}

theorem bind_error {x : Call S X Ev E α} {g : α → Call S X Ev E β} :
    (x >>= g) h = .error f ↔ x h = .error f ∨ ∃ a h₁, x h = .ok (a, h₁) ∧ g a h₁ = .error f := by
  show (x h >>= fun p => g p.1 p.2) = .error f ↔ _
  cases hx : x h with
  | error e => simp [bind, Except.bind]
  | ok p =>
    obtain ⟨a, h₁⟩ := p
    simp [bind, Except.bind]

theorem pure_error {a : α} : ¬ (pure a : Call S X Ev E α) h = .error f := nofun

theorem storage_error : ¬ (storage : Call S X Ev E S) h = .error f := nofun

theorem update_error {g : S → S} : ¬ (update g : Call S X Ev E Unit) h = .error f := nofun

theorem publish_error {e : Ev} : ¬ (publish e : Call S X Ev E Unit) h = .error f := nofun

theorem invoke_error {g : X → Option (α × X)} :
    (invoke g : Call S X Ev E α) h = .error f ↔ g h.outside = none ∧ .trap = f := by
  unfold invoke
  cases g h.outside <;> simp

theorem fail_error {e : E} : (fail e : Call S X Ev E α) h = .error f ↔ .error e = f := by simp [fail]

theorem panicIf_error {c : Prop} [Decidable c] {e : E} :
    (panicIf c e : Call S X Ev E Unit) h = .error f ↔ c ∧ .error e = f := by
  unfold panicIf
  split
  · rename_i hc; simp [hc, fail]
  · rename_i hc; simp [hc, pure_error]

theorem onlyIf_error {c : Prop} [Decidable c] {x : Call S X Ev E Unit} :
    onlyIf c x h = .error f ↔ c ∧ x h = .error f := by
  unfold onlyIf
  split
  · rename_i hc; simp [hc]
  · rename_i hc; simp [hc, pure_error]

theorem unwrapOrElse_error {o : Option α} {e : E} :
    (unwrapOrElse o e : Call S X Ev E α) h = .error f ↔ o = none ∧ .error e = f := by
  cases o with
  | none => simp [unwrapOrElse, fail]
  | some a => simp [unwrapOrElse, pure_error]

theorem orTrap_error {o : Option α} : (orTrap o : Call S X Ev E α) h = .error f ↔ o = none ∧ .trap = f := by
  cases o with
  | none => simp [orTrap, trap]
  | some a => simp [orTrap, pure_error]

theorem requireAuth_error {Address : Type} {env : Env Address} {a : Address} :
    (requireAuth env a : Call S X Ev E Unit) h = .error f ↔ env.authorized a = false ∧ .trap = f := by
  unfold requireAuth
  split
  · rename_i ha; simp [ha, pure_error]
  · rename_i ha; simp [ha, trap]

theorem lift_error {x : Except (Fault E) α} : (lift x : Call S X Ev E α) h = .error f ↔ x = .error f := by
  cases x with
  | error e => simp [lift]
  | ok a => simp [lift]

theorem map_error {x : Call S X Ev E α} {g : α → β} : (g <$> x) h = .error f ↔ x h = .error f := by
  rw [← bind_pure_comp, bind_error]
  simp only [pure_error, and_false, exists_false, or_false]

/-- A branch fails when the branch taken does. -/
theorem ite_error {c : Prop} [Decidable c] {x y : Call S X Ev E α} :
    (if c then x else y) h = .error f ↔ (c ∧ x h = .error f) ∨ (¬ c ∧ y h = .error f) := by
  split <;> simp_all

end Faults

/-- What returned is followed by the rest. -/
theorem bind_eq_of_ok {x : Call S X Ev E α} {g : α → Call S X Ev E β} {a : α} {h h₁ : Host S X Ev}
    (hx : x h = .ok (a, h₁)) : (x >>= g) h = g a h₁ := by
  show (x h >>= fun p => g p.1 p.2) = _
  rw [hx]
  rfl

/-- What failed ends the call. -/
theorem bind_eq_of_error {x : Call S X Ev E α} {g : α → Call S X Ev E β} {h : Host S X Ev} {f : Fault E}
    (hx : x h = .error f) : (x >>= g) h = .error f := bind_error.2 (.inl hx)

attribute [simp] bind_error pure_error map_error storage_error update_error publish_error invoke_error fail_error
  panicIf_error onlyIf_error unwrapOrElse_error orTrap_error requireAuth_error lift_error

/-! ## Loops -/

/-- `for a in l.iter()` with the value `b` carried from round to round. -/
def foldEach (f : β → α → Call S X Ev E β) : β → List α → Call S X Ev E β
  | b, [] => pure b
  | b, a :: l => do
    let b' ← f b a
    foldEach f b' l

/-- `for a in l.iter()`. -/
def forEach (l : List α) (f : α → Call S X Ev E Unit) : Call S X Ev E Unit := foldEach (fun _ a => f a) () l

@[simp] theorem foldEach_nil {f : β → α → Call S X Ev E β} {b : β} : foldEach f b [] = pure b := rfl

@[simp] theorem foldEach_cons {f : β → α → Call S X Ev E β} {b : β} {a : α} {l : List α} :
    foldEach f b (a :: l) = f b a >>= fun b' => foldEach f b' l := rfl

@[simp] theorem forEach_nil {f : α → Call S X Ev E Unit} : forEach [] f = pure () := rfl

@[simp] theorem forEach_cons {f : α → Call S X Ev E Unit} {a : α} {l : List α} :
    forEach (a :: l) f = f a >>= fun _ => forEach l f := rfl

/-- What every round of a loop keeps, the loop keeps. -/
theorem foldEach_rule {P : β → Host S X Ev → Prop} {f : β → α → Call S X Ev E β} {l : List α} {b b' : β}
    {h h' : Host S X Ev} (hstep : ∀ a ∈ l, ∀ b₁ h₁ b₂ h₂, P b₁ h₁ → f b₁ a h₁ = .ok (b₂, h₂) → P b₂ h₂) (hP : P b h)
    (hrun : foldEach f b l h = .ok (b', h')) : P b' h' := by
  induction l generalizing b h with
  | nil =>
    rw [foldEach_nil, pure_ok] at hrun
    cases hrun
    exact hP
  | cons a l ih =>
    rw [foldEach_cons, bind_ok] at hrun
    obtain ⟨b₁, h₁, ha, hl⟩ := hrun
    exact ih (fun c hc => hstep c (List.mem_cons_of_mem _ hc)) (hstep a List.mem_cons_self b h b₁ h₁ hP ha) hl

theorem forEach_rule {P : Host S X Ev → Prop} {f : α → Call S X Ev E Unit} {l : List α} {h h' : Host S X Ev}
    (hstep : ∀ a ∈ l, ∀ h₁ h₂, P h₁ → f a h₁ = .ok ((), h₂) → P h₂) (hP : P h)
    (hrun : forEach l f h = .ok ((), h')) : P h' :=
  foldEach_rule (P := fun _ => P) (fun a ha _ h₁ _ h₂ h₃ h₄ => hstep a ha h₁ h₂ h₃ h₄) hP hrun

/-! ## Two loops over one list -/

/-- A loop fails where its first failing round does. -/
theorem forEach_error {f : α → Call S X Ev E Unit} {l : List α} {h : Host S X Ev} {e : Fault E} :
    forEach l f h = .error e ↔
      ∃ l₁ a l₂ h₁, l = l₁ ++ a :: l₂ ∧ forEach l₁ f h = .ok ((), h₁) ∧ f a h₁ = .error e := by
  induction l generalizing h with
  | nil =>
    refine ⟨fun hrun => absurd hrun pure_error, ?_⟩
    rintro ⟨l₁, a, l₂, -, hl, -⟩
    cases l₁ <;> cases hl
  | cons a l ih =>
    rw [forEach_cons, bind_error]
    constructor
    · rintro (hfirst | ⟨_, h₁, hfirst, hrest⟩)
      · exact ⟨[], a, l, h, rfl, rfl, hfirst⟩
      · obtain ⟨l₁, b, l₂, h₂, rfl, hdone, hb⟩ := ih.1 hrest
        refine ⟨a :: l₁, b, l₂, h₂, rfl, ?_, hb⟩
        rw [forEach_cons, bind_ok]
        exact ⟨(), h₁, hfirst, hdone⟩
    · rintro ⟨l₁, b, l₂, h₂, hl, hdone, hb⟩
      cases l₁ with
      | nil =>
        cases hl
        cases hdone
        exact .inl hb
      | cons c l₁ =>
        cases hl
        rw [forEach_cons, bind_ok] at hdone
        obtain ⟨_, h₁, hfirst, hdone⟩ := hdone
        exact .inr ⟨(), h₁, hfirst, ih.2 ⟨l₁, b, l₂, h₂, rfl, hdone, hb⟩⟩

/-- **The simulation rule for loops.** When every round that returns is matched by a round of the other loop that
returns and keeps the relation, a loop that returns is matched by the other loop. -/
theorem foldEach_sim {γ S' X' Ev' E' : Type} {P : β → Host S X Ev → γ → Host S' X' Ev' → Prop}
    {f : β → α → Call S X Ev E β} {g : γ → α → Call S' X' Ev' E' γ} {l : List α} {b b' : β} {c : γ}
    {h h' : Host S X Ev} {k : Host S' X' Ev'}
    (hstep : ∀ a ∈ l, ∀ b₁ h₁ c₁ k₁ b₂ h₂, P b₁ h₁ c₁ k₁ → f b₁ a h₁ = .ok (b₂, h₂) →
      ∃ c₂ k₂, g c₁ a k₁ = .ok (c₂, k₂) ∧ P b₂ h₂ c₂ k₂) (hP : P b h c k)
    (hrun : foldEach f b l h = .ok (b', h')) : ∃ c' k', foldEach g c l k = .ok (c', k') ∧ P b' h' c' k' := by
  induction l generalizing b h c k with
  | nil =>
    rw [foldEach_nil, pure_ok] at hrun
    cases hrun
    exact ⟨c, k, rfl, hP⟩
  | cons a l ih =>
    rw [foldEach_cons, bind_ok] at hrun
    obtain ⟨b₁, h₁, hround, hloop⟩ := hrun
    obtain ⟨c₁, k₁, hround', hP₁⟩ := hstep a List.mem_cons_self b h c k b₁ h₁ hP hround
    obtain ⟨c', k', hloop', hP'⟩ := ih (fun d hd => hstep d (List.mem_cons_of_mem _ hd)) hP₁ hloop
    refine ⟨c', k', ?_, hP'⟩
    rw [foldEach_cons, bind_ok]
    exact ⟨c₁, k₁, hround', hloop'⟩

end Call

end Lib
