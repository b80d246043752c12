import StellarRwa.Lib.Call
import Mathlib.Data.List.Basic

/-!
# Jurisdiction codes

`normalizeJurisdiction` reads a byte string into a two-byte buffer: spaces are skipped, letters are uppercased, any
other byte and any third letter is an error. `canon` says what it is for, without the buffer: delete the spaces and
uppercase. The reader succeeds exactly on the strings that are two letters after deleting spaces, and returns their
canonical form (`normalizeJurisdiction_ok`), which is one and the same for all spellings of a code
(`normalization_exact`).
-/

namespace StellarRwa.Compliance

open Lib

inductive Error
  | alreadyInitialized
  | notInitialized
  | recordNotFound
  | invalidExpiry
  | unauthorized
  | invalidJurisdiction
  | noPendingAdmin
  | notSuspended
  | invalidHoldingPeriod
deriving DecidableEq, Repr

def isAsciiAlphabetic (b : UInt8) : Bool := (65 ≤ b && b ≤ 90) || (97 ≤ b && b ≤ 122)

def toAsciiUppercase (b : UInt8) : UInt8 := if 97 ≤ b ∧ b ≤ 122 then b - 32 else b

/-- The loop of `normalize_jurisdiction` over the bytes still to read; a write outside the buffer traps. -/
def normalizeLoop (buf : Bytes) (outLen : Nat) : Bytes → Except (Fault Error) (Bytes × Nat)
  | [] => .ok (buf, outLen)
  | b :: rest =>
    if b = 32 then normalizeLoop buf outLen rest
    else if 2 ≤ outLen ∨ isAsciiAlphabetic b = false then .error (.error .invalidJurisdiction)
    else if outLen < buf.length then normalizeLoop (buf.set outLen (toAsciiUppercase b)) (outLen + 1) rest
    else .error .trap

def normalizeJurisdiction (jurisdiction : Bytes) : Except (Fault Error) Bytes :=
  match normalizeLoop [0, 0] 0 jurisdiction with
  | .error e => .error e
  | .ok (buf, outLen) => if outLen ≠ 2 then .error (.error .invalidJurisdiction) else .ok (buf.take 2)

/-! ## The canonical form -/

/-- The string without its spaces. -/
def squeeze (s : Bytes) : Bytes := s.filter (· ≠ 32)

/-- The string without its spaces, uppercased. -/
def canon (s : Bytes) : Bytes := (squeeze s).map toAsciiUppercase

/-- Two letters, give or take spaces. -/
def TwoLetters (s : Bytes) : Prop := (squeeze s).length = 2 ∧ ∀ b ∈ squeeze s, isAsciiAlphabetic b = true

instance (s : Bytes) : Decidable (TwoLetters s) := inferInstanceAs (Decidable (_ ∧ _))

theorem squeeze_cons_space (s : Bytes) : squeeze (32 :: s) = squeeze s := by simp [squeeze]

theorem squeeze_cons {b : UInt8} (h : b ≠ 32) (s : Bytes) : squeeze (b :: s) = b :: squeeze s := by
  simp [squeeze, h]

theorem canon_cons_space (s : Bytes) : canon (32 :: s) = canon s := by rw [canon, squeeze_cons_space, canon]

theorem canon_cons {b : UInt8} (h : b ≠ 32) (s : Bytes) : canon (b :: s) = toAsciiUppercase b :: canon s := by
  rw [canon, squeeze_cons h, List.map_cons, canon]

theorem length_canon (s : Bytes) : (canon s).length = (squeeze s).length := List.length_map _

/-- What the loop returns when `out` is written and `free` is not: the letters of `s` go on after `out`, or the string
is refused. The buffer is never overrun. -/
theorem normalizeLoop_eq : ∀ (s out free : Bytes), out.length + free.length = 2 →
    normalizeLoop (out ++ free) out.length s =
      if (squeeze s).all isAsciiAlphabetic ∧ out.length + (squeeze s).length ≤ 2 then
        .ok (out ++ canon s ++ free.drop (squeeze s).length, out.length + (squeeze s).length)
      else .error (.error .invalidJurisdiction)
  | [], out, free, h => by
    rw [if_pos ⟨by simp [squeeze], by simp [squeeze]; omega⟩]
    simp [normalizeLoop, squeeze, canon]
  | b :: s, out, free, h => by
    by_cases hb : b = 32
    · subst hb
      rw [normalizeLoop, if_pos rfl, normalizeLoop_eq s out free h, canon_cons_space, squeeze_cons_space]
    · rw [normalizeLoop, if_neg hb, canon_cons hb, squeeze_cons hb]
      by_cases hbad : 2 ≤ out.length ∨ isAsciiAlphabetic b = false
      · rw [if_pos hbad, if_neg]
        rintro ⟨hall, hlen⟩
        have := List.all_eq_true.1 hall b List.mem_cons_self
        rw [List.length_cons] at hlen
        rcases hbad with h2 | h2
        · omega
        · rw [h2] at this; cases this
      · rw [if_neg hbad, if_pos (by rw [List.length_append]; omega)]
        rw [not_or, Bool.not_eq_false] at hbad
        match free, h with
        | [], h => rw [List.length_nil] at h; omega
        | f :: free, h =>
          have hset : (out ++ f :: free).set out.length (toAsciiUppercase b) = out ++ [toAsciiUppercase b] ++ free := by
            rw [List.set_append_right _ _ (Nat.le_refl _), Nat.sub_self]
            simp
          have ih := normalizeLoop_eq s (out ++ [toAsciiUppercase b]) free (by simp at h ⊢; omega)
          rw [List.length_append, List.length_singleton] at ih
          rw [hset, ih]
          simp only [List.all_cons, hbad.2, Bool.true_and, List.length_cons, List.append_assoc, List.cons_append,
            List.nil_append, List.drop_succ_cons, Nat.add_right_comm _ 1, Nat.add_assoc]

/-- **The reader is exact**: it returns the canonical form of a string that is two letters up to spaces, and refuses
every other string. -/
theorem normalizeJurisdiction_eq (s : Bytes) :
    normalizeJurisdiction s =
      if TwoLetters s then .ok (canon s) else .error (.error .invalidJurisdiction) := by
  have h := normalizeLoop_eq s [] [0, 0] rfl
  simp only [List.nil_append, List.length_nil, Nat.zero_add] at h
  rw [normalizeJurisdiction, h]
  by_cases hall : (squeeze s).all isAsciiAlphabetic
  · by_cases hlen : (squeeze s).length ≤ 2
    · rw [if_pos ⟨hall, hlen⟩]
      by_cases h2 : (squeeze s).length = 2
      · rw [if_pos ⟨h2, List.all_eq_true.1 hall⟩]
        have htake : (canon s).take 2 = canon s := List.take_of_length_le (by rw [length_canon, h2])
        simp [h2, htake]
      · rw [if_neg (fun h => h2 h.1)]
        simp [h2]
    · rw [if_neg (fun h => hlen h.2), if_neg (fun h => hlen h.1.le)]
  · rw [if_neg (fun h => hall h.1), if_neg (fun h => hall (List.all_eq_true.2 h.2))]

theorem normalizeJurisdiction_ok {s c : Bytes} :
    normalizeJurisdiction s = .ok c ↔ TwoLetters s ∧ canon s = c := by
  rw [normalizeJurisdiction_eq]
  split
  · rename_i h; simp [h]
  · rename_i h; simp [h]

theorem toAsciiUppercase_letter {b : UInt8} (h : isAsciiAlphabetic b = true) :
    isAsciiAlphabetic (toAsciiUppercase b) = true ∧ toAsciiUppercase b ≠ 32 ∧
      toAsciiUppercase (toAsciiUppercase b) = toAsciiUppercase b := by
  simp only [isAsciiAlphabetic, Bool.or_eq_true, Bool.and_eq_true, decide_eq_true_eq] at h ⊢
  by_cases hb : 97 ≤ b ∧ b ≤ 122
  · have hup : toAsciiUppercase b = b - 32 := if_pos hb
    have hlow : ¬ (97 ≤ b - 32 ∧ b - 32 ≤ 122) := by grind
    rw [hup, toAsciiUppercase, if_neg hlow]
    grind
  · have hup : toAsciiUppercase b = b := if_neg hb
    rw [hup, hup]
    grind

theorem squeeze_canon {s : Bytes} (h : TwoLetters s) : squeeze (canon s) = canon s := by
  refine List.filter_eq_self.2 fun c hc => ?_
  obtain ⟨b, hb, rfl⟩ := List.mem_map.1 hc
  simpa using (toAsciiUppercase_letter (h.2 b hb)).2.1

/-- A canonical code is a code, and its own canonical form. -/
theorem twoLetters_canon {s : Bytes} (h : TwoLetters s) : TwoLetters (canon s) := by
  refine ⟨by rw [squeeze_canon h, length_canon, h.1], fun c hc => ?_⟩
  rw [squeeze_canon h] at hc
  obtain ⟨b, hb, rfl⟩ := List.mem_map.1 hc
  exact (toAsciiUppercase_letter (h.2 b hb)).1

theorem canon_canon {s : Bytes} (h : TwoLetters s) : canon (canon s) = canon s := by
  rw [canon, squeeze_canon h]
  conv_rhs => rw [← List.map_id (canon s)]
  refine List.map_congr_left fun c hc => ?_
  obtain ⟨b, hb, rfl⟩ := List.mem_map.1 hc
  exact (toAsciiUppercase_letter (h.2 b hb)).2.2

/-- Two letters, named. -/
theorem twoLetters_iff {s : Bytes} :
    TwoLetters s ↔ ∃ a b, isAsciiAlphabetic a = true ∧ isAsciiAlphabetic b = true ∧ squeeze s = [a, b] := by
  constructor
  · rintro ⟨hlen, hall⟩
    obtain ⟨a, b, hab⟩ := List.length_eq_two.1 hlen
    exact ⟨a, b, hall a (by simp [hab]), hall b (by simp [hab]), hab⟩
  · rintro ⟨a, b, ha, hb, hab⟩
    refine ⟨by rw [hab]; rfl, fun c hc => ?_⟩
    rw [hab, List.mem_pair] at hc
    rcases hc with rfl | rfl
    · exact ha
    · exact hb

/-! ## Spellings of one code -/

def toAsciiLowercase (b : UInt8) : UInt8 := if 65 ≤ b ∧ b ≤ 90 then b + 32 else b

/-- The strings differ in the case of ASCII letters at most. -/
def EqIgnoreAsciiCase (s s' : Bytes) : Prop := s.map toAsciiLowercase = s'.map toAsciiLowercase

theorem toAsciiLowercase_uppercase (b : UInt8) : toAsciiLowercase (toAsciiUppercase b) = toAsciiLowercase b := by
  unfold toAsciiLowercase toAsciiUppercase
  grind

theorem toAsciiUppercase_lowercase (b : UInt8) : toAsciiUppercase (toAsciiLowercase b) = toAsciiUppercase b := by
  unfold toAsciiLowercase toAsciiUppercase
  grind

/-- Uppercasing forgets the case and nothing else. -/
theorem eqIgnoreAsciiCase_iff {s s' : Bytes} :
    EqIgnoreAsciiCase s s' ↔ s.map toAsciiUppercase = s'.map toAsciiUppercase := by
  have hlower : ∀ t : Bytes, (t.map toAsciiUppercase).map toAsciiLowercase = t.map toAsciiLowercase := fun t => by
    rw [List.map_map]
    exact List.map_congr_left fun b _ => toAsciiLowercase_uppercase b
  have hupper : ∀ t : Bytes, (t.map toAsciiLowercase).map toAsciiUppercase = t.map toAsciiUppercase := fun t => by
    rw [List.map_map]
    exact List.map_congr_left fun b _ => toAsciiUppercase_lowercase b
  constructor
  · intro h
    rw [← hupper s, ← hupper s', h]
  · intro h
    rw [EqIgnoreAsciiCase, ← hlower s, ← hlower s', h]

/-- **The reader accepts its grammar and returns a canonical form**: a string is read exactly when two letters are left
without its spaces, and then as those letters in uppercase; every other string is refused with the one error, so that no
read ends in a write outside the buffer. What was read reads as itself, and two strings read alike exactly when they
differ in spaces and in case only. -/
theorem normalization_exact :
    (∀ s c, normalizeJurisdiction s = .ok c ↔
        ∃ a b, isAsciiAlphabetic a = true ∧ isAsciiAlphabetic b = true ∧ s.filter (· ≠ 32) = [a, b] ∧
          c = [toAsciiUppercase a, toAsciiUppercase b]) ∧
      (∀ s f, normalizeJurisdiction s = .error f → f = .error .invalidJurisdiction) ∧
      (∀ s c, normalizeJurisdiction s = .ok c → normalizeJurisdiction c = .ok c) ∧
      ∀ s s' c c', normalizeJurisdiction s = .ok c → normalizeJurisdiction s' = .ok c' →
        (c = c' ↔ EqIgnoreAsciiCase (s.filter (· ≠ 32)) (s'.filter (· ≠ 32))) := by
  refine ⟨fun s c => ?_, fun s f hf => ?_, fun s c hc => ?_, fun s s' c c' hc hc' => ?_⟩
  · rw [normalizeJurisdiction_ok, twoLetters_iff]
    constructor
    · rintro ⟨⟨a, b, ha, hb, hab⟩, rfl⟩
      exact ⟨a, b, ha, hb, hab, by rw [canon, hab]; rfl⟩
    · rintro ⟨a, b, ha, hb, hab, rfl⟩
      exact ⟨⟨a, b, ha, hb, hab⟩, by rw [canon, squeeze, hab]; rfl⟩
  · rw [normalizeJurisdiction_eq] at hf
    split at hf
    · cases hf
    · cases hf
      rfl
  · obtain ⟨hs, rfl⟩ := normalizeJurisdiction_ok.1 hc
    exact normalizeJurisdiction_ok.2 ⟨twoLetters_canon hs, canon_canon hs⟩
  · obtain ⟨-, rfl⟩ := normalizeJurisdiction_ok.1 hc
    obtain ⟨-, rfl⟩ := normalizeJurisdiction_ok.1 hc'
    exact eqIgnoreAsciiCase_iff.symm

end StellarRwa.Compliance
