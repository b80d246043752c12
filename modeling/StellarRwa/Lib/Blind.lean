import StellarRwa.Lib.Call

/-!
# Calls that do not look

A call is `Blind` to a change `f` of the storage when it makes no difference whether the change is made before it or
after it: the call does not read what `f` changes and does not write it. There is a rule for each primitive; the one for
reading the storage asks that the rest of the call does not depend on the change.
-/

namespace Lib

variable {S X Ev E α β : Type}

/-- The host with `f` of its storage. -/
def Host.changed (f : S → S) (h : Host S X Ev) : Host S X Ev := { h with storage := f h.storage }

/-- The outcome with `f` of the storage that it leaves. -/
def changedEnd (f : S → S) (x : Except (Fault E) (α × Host S X Ev)) : Except (Fault E) (α × Host S X Ev) :=
  x.map fun r => (r.1, r.2.changed f)

/-- The call commutes with `f`. -/
def Blind (f : S → S) (x : Call S X Ev E α) : Prop := ∀ h, x (h.changed f) = changedEnd f (x h)

namespace Blind

variable {f : S → S} {x y : Call S X Ev E α} {k : α → Call S X Ev E β}

theorem pure {a : α} : Blind f (Pure.pure a : Call S X Ev E α) := fun _ => rfl

theorem bind (hx : Blind f x) (hk : ∀ a, Blind f (k a)) : Blind f (x >>= k) := by
  intro h
  show (x (h.changed f) >>= fun p => k p.1 p.2) = changedEnd f (x h >>= fun p => k p.1 p.2)
  rw [hx h]
  cases hrun : x h with
  | error e => rfl
  | ok r => exact hk r.1 r.2

theorem storage {k : S → Call S X Ev E β} (hsame : ∀ s, k (f s) = k s) (hk : ∀ s, Blind f (k s)) :
    Blind f (Call.storage >>= k) := by
  intro h
  show k (f h.storage) (h.changed f) = changedEnd f (k h.storage h)
  rw [hsame]
  exact hk h.storage h

theorem update {g : S → S} (hg : ∀ s, g (f s) = f (g s)) : Blind f (Call.update g : Call S X Ev E Unit) := by
  intro h
  show Except.ok ((), { h with storage := g (f h.storage) }) = _
  rw [hg]
  rfl

theorem publish {e : Ev} : Blind f (Call.publish e : Call S X Ev E Unit) := fun _ => rfl

theorem invoke {g : X → Option (α × X)} : Blind f (Call.invoke g : Call S X Ev E α) := by
  intro h
  have hsame : (h.changed f).outside = h.outside := rfl
  unfold Call.invoke changedEnd
  rw [hsame]
  cases g h.outside <;> rfl

theorem fail {e : E} : Blind f (Call.fail e : Call S X Ev E α) := fun _ => rfl

theorem trap : Blind f (Call.trap : Call S X Ev E α) := fun _ => rfl

theorem ite {c : Prop} [Decidable c] (hx : Blind f x) (hy : Blind f y) : Blind f (if c then x else y) := by
  split
  · exact hx
  · exact hy

theorem panicIf {c : Prop} [Decidable c] {e : E} : Blind f (Call.panicIf c e : Call S X Ev E Unit) := .ite .fail .pure

theorem onlyIf {c : Prop} [Decidable c] {x : Call S X Ev E Unit} (hx : Blind f x) : Blind f (Call.onlyIf c x) :=
  .ite hx .pure

theorem unwrapOrElse {o : Option α} {e : E} : Blind f (Call.unwrapOrElse o e : Call S X Ev E α) := by
  cases o with
  | none => exact .fail
  | some a => exact .pure

theorem orTrap {o : Option α} : Blind f (Call.orTrap o : Call S X Ev E α) := by
  cases o with
  | none => exact .trap
  | some a => exact .pure

theorem requireAuth {Address : Type} {env : Env Address} {a : Address} :
    Blind f (Call.requireAuth env a : Call S X Ev E Unit) := .ite .pure .trap

theorem foldEach {g : β → α → Call S X Ev E β} {l : List α} {b : β} (hg : ∀ b a, Blind f (g b a)) :
    Blind f (Call.foldEach g b l) := by
  induction l generalizing b with
  | nil => exact .pure
  | cons a l ih =>
    rw [Call.foldEach_cons]
    exact .bind (hg b a) fun _ => ih

end Blind

end Lib
