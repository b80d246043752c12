import StellarRwa.Lib.Call

/-!
# The same call at two hosts

Two hosts are `Twins` when they hold the same storage and related other contracts and have published the same events
since some moment. A call is `Alike` at them when it ends in the same fault at both, or returns the same value at both
and leaves twins again. There is a rule for each primitive, to be followed by the rest of the call; what only reads
leaves the hosts as they are, so that what is known of them stays known. Only of calls of other contracts it is left to
show that they are answered alike.
-/

namespace Lib

variable {S X Ev E α β : Type}

/-- Related answers stay related when both are made into something else. -/
theorem rel_map {γ δ : Type} {r : α → β → Prop} {r' : γ → δ → Prop} {o : Option α} {o' : Option β} {f : α → γ}
    {g : β → δ}
    (h : Option.Rel r o o') (hr : ∀ a b, r a b → r' (f a) (g b)) : Option.Rel r' (o.map f) (o'.map g) := by
  cases h with
  | none => exact .none
  | some hab => exact .some (hr _ _ hab)

/-- Two hosts with the same storage, other contracts related by `R`, and the same events after `e₁` and `e₂`. -/
structure Twins (R : X → X → Prop) (e₁ e₂ : List Ev) (h₁ h₂ : Host S X Ev) : Prop where
  storage : h₁.storage = h₂.storage
  outside : R h₁.outside h₂.outside
  events : ∃ es, h₁.events = e₁ ++ es ∧ h₂.events = e₂ ++ es

/-- Two calls ended in the same fault, or returned the same value and left twins. -/
inductive SameEnd (R : X → X → Prop) (e₁ e₂ : List Ev) :
    Except (Fault E) (α × Host S X Ev) → Except (Fault E) (α × Host S X Ev) → Prop
  | faulted {f : Fault E} : SameEnd R e₁ e₂ (.error f) (.error f)
  | returned {a : α} {h₁ h₂ : Host S X Ev} (ht : Twins R e₁ e₂ h₁ h₂) : SameEnd R e₁ e₂ (.ok (a, h₁)) (.ok (a, h₂))

/-- The call ends the same at both hosts. -/
def Alike (R : X → X → Prop) (e₁ e₂ : List Ev) (x : Call S X Ev E α) (h₁ h₂ : Host S X Ev) : Prop :=
  SameEnd R e₁ e₂ (x h₁) (x h₂)

variable {R : X → X → Prop} {e₁ e₂ : List Ev} {h₁ h₂ : Host S X Ev} {x y : Call S X Ev E α}
  {k : α → Call S X Ev E β} {next : Unit → Call S X Ev E β}

theorem twins_start (hs : h₁.storage = h₂.storage) (hx : R h₁.outside h₂.outside) :
    Twins R h₁.events h₂.events h₁ h₂ := ⟨hs, hx, [], by simp, by simp⟩

/-- One contract among related others. -/
theorem twins_among {Z : Type} {x y : X} (h : Host S Z Ev) (hx : R x y) :
    Twins R h.events h.events (h.among x) (h.among y) :=
  ⟨rfl, hx, [], (List.append_nil _).symm, (List.append_nil _).symm⟩

theorem Twins.update (ht : Twins R e₁ e₂ h₁ h₂) (f : S → S) :
    Twins R e₁ e₂ { h₁ with storage := f h₁.storage } { h₂ with storage := f h₂.storage } :=
  ⟨congrArg f ht.storage, ht.outside, ht.events⟩

theorem Twins.publish (ht : Twins R e₁ e₂ h₁ h₂) (e : Ev) :
    Twins R e₁ e₂ { h₁ with events := h₁.events ++ [e] } { h₂ with events := h₂.events ++ [e] } := by
  obtain ⟨es, hes₁, hes₂⟩ := ht.events
  exact ⟨ht.storage, ht.outside, es ++ [e], by simp [hes₁], by simp [hes₂]⟩

namespace Alike

/-! ## Sequencing -/

theorem bind (hx : Alike R e₁ e₂ x h₁ h₂)
    (hk : ∀ a h₁' h₂', Twins R e₁ e₂ h₁' h₂' → Alike R e₁ e₂ (k a) h₁' h₂') : Alike R e₁ e₂ (x >>= k) h₁ h₂ := by
  show SameEnd R e₁ e₂ (x h₁ >>= fun p => k p.1 p.2) (x h₂ >>= fun p => k p.1 p.2)
  unfold Alike at hx
  generalize x h₁ = r₁ at hx ⊢
  generalize x h₂ = r₂ at hx ⊢
  cases hx with
  | faulted => exact .faulted
  | returned ht => exact hk _ _ _ ht

theorem done (ht : Twins R e₁ e₂ h₁ h₂) {a : α} : Alike R e₁ e₂ (pure a : Call S X Ev E α) h₁ h₂ := .returned ht

theorem value {a : α} (hk : Alike R e₁ e₂ (k a) h₁ h₂) : Alike R e₁ e₂ (pure a >>= k) h₁ h₂ := by
  rwa [pure_bind]

/-- The last step of a call, as a step with nothing after it. -/
theorem last (hx : Alike R e₁ e₂ (x >>= pure) h₁ h₂) : Alike R e₁ e₂ x h₁ h₂ := by
  rwa [bind_pure] at hx

theorem assoc {γ : Type} {g : β → Call S X Ev E γ} (hx : Alike R e₁ e₂ (x >>= fun a => k a >>= g) h₁ h₂) :
    Alike R e₁ e₂ ((x >>= k) >>= g) h₁ h₂ := by
  rwa [bind_assoc]

theorem ite {c : Prop} [Decidable c] (hx : c → Alike R e₁ e₂ x h₁ h₂) (hy : ¬ c → Alike R e₁ e₂ y h₁ h₂) :
    Alike R e₁ e₂ (if c then x else y) h₁ h₂ := by
  split
  · rename_i hc
    exact hx hc
  · rename_i hc
    exact hy hc

/-! ## Reading and checking -/

theorem storage {k : S → Call S X Ev E β} (ht : Twins R e₁ e₂ h₁ h₂) (hk : Alike R e₁ e₂ (k h₁.storage) h₁ h₂) :
    Alike R e₁ e₂ (Call.storage >>= k) h₁ h₂ := by
  show SameEnd R e₁ e₂ (k h₁.storage h₁) (k h₂.storage h₂)
  rw [← ht.storage]
  exact hk

theorem panicIf {c : Prop} [Decidable c] {e : E} (hk : ¬ c → Alike R e₁ e₂ (next ()) h₁ h₂) :
    Alike R e₁ e₂ (Call.panicIf c e >>= next) h₁ h₂ := by
  unfold Call.panicIf
  split
  · exact .faulted
  · rename_i hc
    exact hk hc

theorem unwrapOrElse {o : Option α} {e : E} (hk : ∀ a, o = some a → Alike R e₁ e₂ (k a) h₁ h₂) :
    Alike R e₁ e₂ (Call.unwrapOrElse o e >>= k) h₁ h₂ := by
  cases o with
  | none => exact .faulted
  | some a => exact hk a rfl

theorem orTrap {o : Option α} (hk : ∀ a, o = some a → Alike R e₁ e₂ (k a) h₁ h₂) :
    Alike R e₁ e₂ (Call.orTrap o >>= k) h₁ h₂ := by
  cases o with
  | none => exact .faulted
  | some a => exact hk a rfl

theorem requireAuth {Address : Type} {env : Env Address} {a : Address} (hk : Alike R e₁ e₂ (next ()) h₁ h₂) :
    Alike R e₁ e₂ (Call.requireAuth env a >>= next) h₁ h₂ := by
  unfold Call.requireAuth
  split
  · exact hk
  · exact .faulted

theorem onlyIf {c : Prop} [Decidable c] {x : Call S X Ev E Unit} (ht : Twins R e₁ e₂ h₁ h₂)
    (hx : Alike R e₁ e₂ x h₁ h₂) : Alike R e₁ e₂ (Call.onlyIf c x) h₁ h₂ := by
  unfold Call.onlyIf
  exact ite (fun _ => hx) fun _ => done ht

/-! ## Other contracts -/

/-- A view that is the same at both. -/
theorem query {f : X → Option α} (hf : f h₁.outside = f h₂.outside)
    (hk : ∀ a, f h₁.outside = some a → Alike R e₁ e₂ (k a) h₁ h₂) : Alike R e₁ e₂ (Call.query f >>= k) h₁ h₂ := by
  cases ha : f h₁.outside with
  | none =>
    have hrun : ∀ h : Host S X Ev, f h.outside = none → (Call.query f >>= k) h = .error .trap := fun h hnone => by
      exact Call.bind_eq_of_error (by simp [Call.query, hnone])
    unfold Alike
    rw [hrun h₁ ha, hrun h₂ (hf ▸ ha)]
    exact .faulted
  | some a =>
    have hrun : ∀ h : Host S X Ev, f h.outside = some a → (Call.query f >>= k) h = k a h := fun h hsome =>
      Call.bind_eq_of_ok (Call.query_ok.2 ⟨a, hsome, rfl⟩)
    unfold Alike
    rw [hrun h₁ ha, hrun h₂ (hf ▸ ha)]
    exact hk a ha

/-- A call that is answered at both, with the same value and related states, or at neither. -/
theorem invoke {f : X → Option (α × X)} (ht : Twins R e₁ e₂ h₁ h₂)
    (hf : Option.Rel (fun p q => p.1 = q.1 ∧ R p.2 q.2) (f h₁.outside) (f h₂.outside))
    (hk : ∀ a h₁' h₂', Twins R e₁ e₂ h₁' h₂' → Alike R e₁ e₂ (k a) h₁' h₂') :
    Alike R e₁ e₂ (Call.invoke f >>= k) h₁ h₂ := by
  refine bind ?_ hk
  unfold Alike Call.invoke
  generalize f h₁.outside = r₁ at hf ⊢
  generalize f h₂.outside = r₂ at hf ⊢
  cases hf with
  | none => exact .faulted
  | @some p q hpq =>
    obtain ⟨a, x⟩ := p
    obtain ⟨b, y⟩ := q
    obtain ⟨rfl, hR⟩ := hpq
    exact .returned ⟨ht.storage, hR, ht.events⟩

/-! ## Writing -/

theorem update {f : S → S} (ht : Twins R e₁ e₂ h₁ h₂)
    (hk : ∀ h₁' h₂', Twins R e₁ e₂ h₁' h₂' → Alike R e₁ e₂ (next ()) h₁' h₂') :
    Alike R e₁ e₂ (Call.update f >>= next) h₁ h₂ := hk _ _ (ht.update f)

theorem publish {e : Ev} (ht : Twins R e₁ e₂ h₁ h₂)
    (hk : ∀ h₁' h₂', Twins R e₁ e₂ h₁' h₂' → Alike R e₁ e₂ (next ()) h₁' h₂') :
    Alike R e₁ e₂ (Call.publish e >>= next) h₁ h₂ := hk _ _ (ht.publish e)

/-! ## Loops -/

theorem foldEach {f : β → α → Call S X Ev E β} {l : List α} {b : β}
    (hf : ∀ a ∈ l, ∀ b h₁ h₂, Twins R e₁ e₂ h₁ h₂ → Alike R e₁ e₂ (f b a) h₁ h₂) (ht : Twins R e₁ e₂ h₁ h₂) :
    Alike R e₁ e₂ (Call.foldEach f b l) h₁ h₂ := by
  induction l generalizing b h₁ h₂ with
  | nil => exact done ht
  | cons a l ih =>
    rw [Call.foldEach_cons]
    refine bind (hf a List.mem_cons_self b h₁ h₂ ht) fun b' h₁' h₂' ht' => ?_
    exact ih (fun a' ha' => hf a' (List.mem_cons_of_mem _ ha')) ht'

/-! ## What ends the same -/

/-- The value that is returned, or the fault. -/
theorem outcome (hx : Alike R e₁ e₂ x h₁ h₂) : (x h₁).map Prod.fst = (x h₂).map Prod.fst := by
  unfold Alike at hx
  generalize x h₁ = r₁ at hx ⊢
  generalize x h₂ = r₂ at hx ⊢
  cases hx <;> rfl

/-- Asked at hosts with the same log, the call is answered at both or at neither, and the contract is the same
afterwards. -/
theorem returned {e : List Ev} (hx : Alike R e e x h₁ h₂) :
    Option.Rel (fun p q => p.1 = q.1 ∧ R p.2.outside q.2.outside ∧ p.2.alone = q.2.alone) (x.returned h₁)
      (x.returned h₂) := by
  unfold Alike at hx
  unfold Call.returned
  generalize x h₁ = r₁ at hx ⊢
  generalize x h₂ = r₂ at hx ⊢
  cases hx with
  | faulted => exact .none
  | @returned a k₁ k₂ ht =>
    obtain ⟨es, hes₁, hes₂⟩ := ht.events
    refine .some ⟨rfl, ht.outside, ?_⟩
    show Host.mk k₁.storage () k₁.events = Host.mk k₂.storage () k₂.events
    rw [ht.storage, hes₁, hes₂]

/-- A call that is refused at one of the hosts is refused at the other. -/
theorem refused {f : Fault E} (hx : Alike R e₁ e₂ x h₁ h₂) : x h₁ = .error f ↔ x h₂ = .error f := by
  have hout := hx.outcome
  generalize x h₁ = r₁ at hout ⊢
  generalize x h₂ = r₂ at hout ⊢
  cases r₁ with
  | error f₁ =>
    cases r₂ with
    | error f₂ => rw [Except.error.inj hout]
    | ok r => cases hout
  | ok r =>
    cases r₂ with
    | error f₂ => cases hout
    | ok r' => simp

end Alike

end Lib
