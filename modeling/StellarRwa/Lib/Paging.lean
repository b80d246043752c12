import Mathlib.Data.List.Range
import Mathlib.Data.List.Nodup
import Mathlib.Tactic.Common

/-!
# Pages of a list

A paged view answers a position with a slice of one reference list. The slices that follow each other are the list
(`flatMap_slice`, `collect_pages`).

A client may go on by the length of the answer, until it is empty; that reads the list, whatever sizes it asks for
(`reading_iff`). Or it reads the list by a walk: it asks at a position, and goes on at a fixed distance as long as its
own test says so (`Walk`). What a walk returns is determined (`Walk.unique`), and it is what remains of the list when
every page is the part up to the next position (`walk_rest`). A view that clamps the size of its pages to `cap`, while
the client goes by the size it asked for, is walked completely exactly when the clamp does not matter
(`short_walk_iff`, `stride_walk_iff`).
-/

namespace Lib.Paging

variable {α β : Type}

/-! ## Slices -/

/-- At most `n` elements, from position `k` on. -/
def slice (l : List α) (k n : ℕ) : List α := (l.drop k).take n

theorem length_slice (l : List α) (k n : ℕ) : (slice l k n).length = min n (l.length - k) := by
  rw [slice, List.length_take, List.length_drop]

theorem slice_eq_nil {l : List α} {k n : ℕ} (h : l.length ≤ k ∨ n = 0) : slice l k n = [] := by
  rw [← List.length_eq_zero_iff, length_slice]
  omega

theorem slice_cons_skip (a : α) (l : List α) (k n : ℕ) : slice (a :: l) (k + 1) n = slice l k n := rfl

theorem slice_cons_take (a : α) (l : List α) (n : ℕ) : slice (a :: l) 0 (n + 1) = a :: slice l 0 n := rfl

/-- A size beyond the end does not matter. -/
theorem slice_congr {l : List α} {k n n' : ℕ} (h : min n (l.length - k) = min n' (l.length - k)) :
    slice l k n = slice l k n' := by
  rw [slice, slice, List.take_eq_take_iff, List.length_drop]
  exact h

/-- A slice that reaches the end. -/
theorem slice_eq_drop {l : List α} {k n : ℕ} (h : l.length ≤ k + n) : slice l k n = l.drop k := by
  refine List.take_of_length_le ?_
  rw [List.length_drop]
  omega

/-- A slice, and what comes after it. -/
theorem slice_append_drop (l : List α) (k n : ℕ) : slice l k n ++ l.drop (k + n) = l.drop k := by
  rw [slice, ← List.drop_drop, List.take_append_drop]

/-- A slice of two lists, one after the other: what is skipped and what is taken in the first is no longer to be skipped
and taken in the second. -/
theorem slice_append (l l' : List α) (k n : ℕ) :
    slice (l ++ l') k n = slice l k n ++ slice l' (k - l.length) (n - (slice l k n).length) := by
  rw [length_slice, slice, List.drop_append, List.take_append, List.length_drop, slice, slice]
  congr 2
  omega

theorem getElem?_slice (l : List α) (k n i : ℕ) : (slice l k n)[i]? = if i < n then l[k + i]? else none := by
  rw [slice, List.getElem?_take, List.getElem?_drop]

theorem mem_slice {l : List α} {k n : ℕ} {a : α} (h : a ∈ slice l k n) :
    ∃ i, k ≤ i ∧ i < k + n ∧ l[i]? = some a := by
  obtain ⟨i, hi⟩ := List.mem_iff_getElem?.1 h
  rw [getElem?_slice] at hi
  split at hi
  · exact ⟨k + i, by omega, by omega, hi⟩
  · cases hi

/-- What has an image everywhere keeps its positions. -/
theorem getElem?_filterMap {f : α → Option β} {l : List α} (h : ∀ a ∈ l, (f a).isSome) (i : ℕ) :
    (l.filterMap f)[i]? = l[i]?.bind f := by
  induction l generalizing i with
  | nil => rfl
  | cons a l ih =>
    obtain ⟨b, hb⟩ := Option.isSome_iff_exists.1 (h a List.mem_cons_self)
    rw [List.filterMap_cons_some hb]
    cases i with
    | zero => exact hb.symm
    | succ i => exact ih (fun c hc => h c (List.mem_cons_of_mem _ hc)) i

theorem filterMap_slice {f : α → Option β} {l : List α} (h : ∀ a ∈ l, (f a).isSome) (k n : ℕ) :
    (slice l k n).filterMap f = slice (l.filterMap f) k n := by
  have hslice : ∀ a ∈ slice l k n, (f a).isSome := fun a ha => h a (List.mem_of_mem_drop (List.mem_of_mem_take ha))
  refine List.ext_getElem? fun i => ?_
  rw [getElem?_filterMap hslice, getElem?_slice, getElem?_slice, getElem?_filterMap h]
  split <;> rfl

theorem slice_range' (a m k n : ℕ) : slice (List.range' a m) k n = List.range' (a + k) (min n (m - k)) := by
  rw [slice, List.drop_range', Nat.mul_one]
  rcases Nat.le_total (m - k) n with h | h
  · rw [List.take_range'_of_length_le h, Nat.min_eq_right h]
  · rw [List.take_range'_of_length_ge h, Nat.min_eq_left h]

/-- The positions of a slice, looked up one by one. -/
theorem filterMap_getElem?_range' (l : List α) (k n : ℕ) :
    (List.range' k n).filterMap (fun i => l[i]?) = slice l k n := by
  induction n generalizing k with
  | zero => simp [slice]
  | succ n ih =>
    rw [List.range'_succ, List.filterMap_cons, ih]
    cases hk : l[k]? with
    | none =>
      have hlen := List.getElem?_eq_none_iff.1 hk
      rw [slice_eq_nil (.inl (by omega)), slice_eq_nil (.inl hlen)]
    | some a =>
      obtain ⟨hlt, rfl⟩ := List.getElem?_eq_some_iff.1 hk
      rw [slice, slice, List.drop_eq_getElem_cons hlt, List.take_succ_cons]

/-! ## Consecutive pages -/

theorem flatMap_slice (l : List α) (size k : ℕ) :
    (List.range k).flatMap (fun j => slice l (j * size) size) = l.take (k * size) := by
  induction k with
  | zero => simp
  | succ k ih =>
    rw [List.range_succ, List.flatMap_append, ih, List.flatMap_singleton, slice, ← List.take_add, Nat.succ_mul]

/-- How many pages of `size` elements `n` elements take. -/
def pageCount (n size : ℕ) : ℕ := (n + size - 1) / size

theorem le_pageCount_mul {n size : ℕ} (hsize : 0 < size) : n ≤ pageCount n size * size := by
  have hdiv := Nat.div_add_mod (n + size - 1) size
  have hmod := Nat.mod_lt (n + size - 1) hsize
  rw [pageCount, Nat.mul_comm]
  omega

/-- Every page counted starts inside the list. -/
theorem mul_lt_of_lt_pageCount {j n size : ℕ} (hj : j < pageCount n size) : j * size < n := by
  have hle := Nat.mul_le_of_le_div size (j + 1) (n + size - 1) hj
  rw [Nat.succ_mul] at hle
  rcases Nat.eq_zero_or_pos size with rfl | hsize
  · simp [pageCount] at hj
  · omega

/-- The answers of a view at several positions, one after the other, if there are all of them. -/
def collect (view : ℕ → Option (List α)) : List ℕ → Option (List α)
  | [] => some []
  | p :: ps => do
    let page ← view p
    let pages ← collect view ps
    pure (page ++ pages)

theorem collect_eq {view : ℕ → Option (List α)} {g : ℕ → List α} {ps : List ℕ} (h : ∀ p ∈ ps, view p = some (g p)) :
    collect view ps = some (ps.flatMap g) := by
  induction ps with
  | nil => rfl
  | cons p ps ih =>
    have hrest := ih fun q hq => h q (List.mem_cons_of_mem _ hq)
    simp [collect, h p List.mem_cons_self, hrest]

/-- **Consecutive pages are the list**: every element, once, in order. -/
theorem collect_pages {view : ℕ → Option (List α)} {l : List α} {size : ℕ} {pos : ℕ → ℕ} (hsize : 0 < size)
    (hview : ∀ j, j * size < l.length → view (pos j) = some (slice l (j * size) size)) :
    collect view ((List.range (pageCount l.length size)).map pos) = some l := by
  have hpage : ∀ j ∈ List.range (pageCount l.length size), view (pos j) = some (slice l (j * size) size) :=
    fun j hj => hview j (mul_lt_of_lt_pageCount (List.mem_range.1 hj))
  have hmap : ∀ ps : List ℕ, collect view (ps.map pos) = collect (fun j => view (pos j)) ps := by
    intro ps
    induction ps with
    | nil => rfl
    | cons p ps ih => rw [List.map_cons, collect, collect, ih]
  rw [hmap, collect_eq hpage, flatMap_slice, List.take_of_length_le (le_pageCount_mul hsize)]

/-! ## Walks -/

/-- The walk of a client from position `p` on. It asks for a page, and as long as `More` holds it goes on `stride`
positions further. -/
inductive Walk (view : ℕ → Option (List α)) (stride : ℕ) (More : ℕ → List α → Prop) : ℕ → List α → Prop
  | last {p : ℕ} {page : List α} (hview : view p = some page) (hstop : ¬ More p page) : Walk view stride More p page
  | next {p : ℕ} {page rest : List α} (hview : view p = some page) (hmore : More p page)
    (hrest : Walk view stride More (p + stride) rest) : Walk view stride More p (page ++ rest)

section Walks

variable {view : ℕ → Option (List α)} {stride : ℕ} {More : ℕ → List α → Prop} {p : ℕ} {out out' : List α}

/-- A walk returns one list. -/
theorem Walk.unique (h : Walk view stride More p out) (h' : Walk view stride More p out') : out = out' := by
  induction h generalizing out' with
  | last hview hstop =>
    cases h' with
    | last hview' => exact Option.some.inj (hview.symm.trans hview')
    | next hview' hmore =>
      obtain rfl := Option.some.inj (hview.symm.trans hview')
      exact absurd hmore hstop
  | next hview hmore _ ih =>
    cases h' with
    | last hview' hstop =>
      obtain rfl := Option.some.inj (hview.symm.trans hview')
      exact absurd hmore hstop
    | next hview' _ hrest =>
      obtain rfl := Option.some.inj (hview.symm.trans hview')
      rw [ih hrest]

/-- A walk that returns was answered at its first position. -/
theorem Walk.answered (h : Walk view stride More p out) : ∃ page, view p = some page := by
  cases h with
  | last hview => exact ⟨_, hview⟩
  | next hview => exact ⟨_, hview⟩

/-- What holds on every page that is asked for holds of all that the walk returns. -/
theorem Walk.rule {P : ℕ → Prop} {Q : α → Prop} (hpage : ∀ p page, P p → view p = some page → ∀ a ∈ page, Q a)
    (hnext : ∀ p page, P p → More p page → P (p + stride)) (h : Walk view stride More p out) (hp : P p) :
    ∀ a ∈ out, Q a := by
  induction h with
  | last hview => exact hpage _ _ hp hview
  | next hview hmore _ ih =>
    intro a ha
    rcases List.mem_append.1 ha with hleft | hright
    · exact hpage _ _ hp hview a hleft
    · exact ih (hnext _ _ hp hmore) a hright

/-- `R` is what remains at a position: a page is all of it, or a part that is not empty and leaves what remains at
the next position. -/
theorem walk_rest {P : ℕ → Prop} {R : ℕ → List α}
    (hstep : ∀ p, P p → ∃ page, view p = some page ∧ ((¬ More p page ∧ R p = page) ∨
      (More p page ∧ page ≠ [] ∧ P (p + stride) ∧ R p = page ++ R (p + stride)))) (hp : P p) :
    Walk view stride More p (R p) := by
  induction hlen : (R p).length using Nat.strongRecOn generalizing p with
  | ind n ih =>
    obtain ⟨page, hview, ⟨hstop, hrest⟩ | ⟨hmore, hne, hp', hrest⟩⟩ := hstep p hp
    · rw [hrest]
      exact .last hview hstop
    · have hpos := List.length_pos_iff.2 hne
      have hshort : (R (p + stride)).length < n := by
        rw [← hlen, hrest, List.length_append]
        omega
      rw [hrest]
      exact .next hview hmore (ih _ hshort hp' rfl)

end Walks

/-! ## Readings -/

/-- A client that goes on by as many elements as it was given, until it is given none. -/
inductive Reading (view : ℕ → Option (List α)) : ℕ → List α → Prop
  | done {p : ℕ} (hview : view p = some []) : Reading view p []
  | next {p : ℕ} {page rest : List α} (hview : view p = some page) (hne : page ≠ [])
    (hrest : Reading view (p + page.length) rest) : Reading view p (page ++ rest)

/-- A reading returns one list. -/
theorem Reading.unique {view : ℕ → Option (List α)} {p : ℕ} {out out' : List α} (h : Reading view p out)
    (h' : Reading view p out') : out = out' := by
  induction h generalizing out' with
  | done hview =>
    cases h' with
    | done => rfl
    | next hview' hne => exact absurd (Option.some.inj (hview'.symm.trans hview)) hne
  | next hview hne _ ih =>
    cases h' with
    | done hview' => exact absurd (Option.some.inj (hview.symm.trans hview')) hne
    | next hview' _ hrest' =>
      obtain rfl := Option.some.inj (hview.symm.trans hview')
      rw [ih hrest']

/-- **A reading of slices is the list**, whatever the sizes asked for, and a reading that ends returns nothing else. -/
theorem reading_iff {view : ℕ → Option (List α)} {l out : List α} {size : ℕ → ℕ} (hsize : ∀ p, 0 < size p)
    (hview : ∀ p, p ≤ l.length → view p = some (slice l p (size p))) : Reading view 0 out ↔ out = l := by
  have hrest : ∀ p, p ≤ l.length → Reading view p (l.drop p) := by
    intro p hp
    induction hlen : l.length - p using Nat.strongRecOn generalizing p with
    | ind n ih =>
      have hpage := length_slice l p (size p)
      have hpos := hsize p
      by_cases hend : p = l.length
      · have hnil : slice l p (size p) = [] := slice_eq_nil (.inl (by omega))
        rw [List.drop_of_length_le (by omega)]
        exact .done ((hview p hp).trans (congrArg some hnil))
      · have hsame : slice l p (slice l p (size p)).length = slice l p (size p) := slice_congr (by omega)
        rw [← slice_append_drop l p (slice l p (size p)).length, hsame]
        refine .next (hview p hp) ?_ (ih _ ?_ _ ?_ rfl)
        · rw [← List.length_pos_iff]
          omega
        · omega
        · omega
  have hall := hrest 0 (Nat.zero_le _)
  rw [List.drop_zero] at hall
  constructor
  · intro h
    exact h.unique hall
  · rintro rfl
    exact hall

/-! ## Walks of a clamped view -/

section Clamped

variable {view : ℕ → Option (List α)} {l : List α} {n cap : ℕ}

/-- **The walk over page numbers**, until a page is shorter than the size asked for, returns the whole list exactly when
the size is not clamped or one page holds the list. -/
theorem short_walk_iff (hn : 0 < n)
    (hview : ∀ p, p * min n cap ≤ l.length → view p = some (slice l (p * min n cap) (min n cap))) :
    (∃ out, Walk view 1 (fun _ page => n ≤ page.length) 0 out ∧ out.Perm l) ↔ n ≤ cap ∨ l.length ≤ cap := by
  have hfirst : view 0 = some (slice l 0 (min n cap)) := by simpa using hview 0 (by omega)
  constructor
  · rintro ⟨out, hwalk, hperm⟩
    by_contra hno
    -- the first page is already shorter than the size asked for
    have hlen : (slice l 0 (min n cap)).length = cap := by
      rw [length_slice]
      omega
    have hout := hwalk.unique (.last hfirst (by omega))
    rw [hout] at hperm
    have := hperm.length_eq
    omega
  · intro h
    refine ⟨l, ?_, .refl l⟩
    by_cases hle : n ≤ cap
    · rw [Nat.min_eq_left hle] at hview
      have hwalk : Walk view 1 (fun _ page => n ≤ page.length) 0 (l.drop (0 * n)) := by
        refine walk_rest (P := fun p => p * n ≤ l.length) (R := fun p => l.drop (p * n)) (fun p hp => ?_) (by omega)
        refine ⟨slice l (p * n) n, hview p hp, ?_⟩
        rw [length_slice, Nat.succ_mul]
        by_cases hlast : l.length < p * n + n
        · exact .inl ⟨by omega, (slice_eq_drop (by omega)).symm⟩
        · refine .inr ⟨by omega, ?_, by omega, (slice_append_drop _ _ _).symm⟩
          rw [← List.length_pos_iff, length_slice]
          omega
      simpa using hwalk
    · have hall : slice l 0 (min n cap) = l := slice_eq_drop (by omega)
      rw [hall] at hfirst
      exact .last hfirst (by omega)

/-- **The walk over positions**, the size asked for apart, until the position passes the length, returns the whole list
exactly when the size is not clamped or one page holds the list. Positions start at 1. -/
theorem stride_walk_iff (hn : 0 < n) (hl : l.Nodup)
    (hview : ∀ p, p = 1 ∨ 1 < p ∧ p ≤ l.length → view p = some (slice l (p - 1) (min n cap))) :
    (∃ out, Walk view n (fun p _ => p + n ≤ l.length) 1 out ∧ out.Perm l) ↔ n ≤ cap ∨ l.length ≤ cap := by
  constructor
  · rintro ⟨out, hwalk, hperm⟩
    by_contra hno
    have hlt : cap < l.length := by omega
    -- the element after the first page is on no page asked for
    have hmiss : ∀ a ∈ out, a ≠ l[cap] := by
      refine Walk.rule (P := fun p => p = 1 ∨ n < p ∧ p ≤ l.length) ?_ ?_ hwalk (.inl rfl)
      · rintro p page hp hpage a ha rfl
        rw [hview p (by omega)] at hpage
        cases hpage
        obtain ⟨i, hlo, hhi, hi⟩ := mem_slice ha
        obtain ⟨hlen, hi⟩ := List.getElem?_eq_some_iff.1 hi
        have := (hl.getElem_inj_iff).1 hi
        omega
      · intro p page hp hmore
        omega
    exact hmiss l[cap] (hperm.mem_iff.2 (List.getElem_mem hlt)) rfl
  · intro h
    refine ⟨l, ?_, .refl l⟩
    have hwalk : Walk view n (fun p _ => p + n ≤ l.length) 1 (l.drop (1 - 1)) := by
      refine walk_rest (P := fun p => p = 1 ∨ 1 < p ∧ p ≤ l.length) (R := fun p => l.drop (p - 1)) (fun p hp => ?_)
        (.inl rfl)
      refine ⟨_, hview p hp, ?_⟩
      by_cases hmore : p + n ≤ l.length
      · have hle : n ≤ cap := by omega
        rw [Nat.min_eq_left hle]
        refine .inr ⟨hmore, ?_, by omega, ?_⟩
        · rw [← List.length_pos_iff, length_slice]
          omega
        · rw [← slice_append_drop l (p - 1) n]
          congr 2
          omega
      · exact .inl ⟨hmore, (slice_eq_drop (by omega)).symm⟩
    exact hwalk

end Clamped

end Lib.Paging
