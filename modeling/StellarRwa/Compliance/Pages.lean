import StellarRwa.Compliance.Spec

/-!
# The paged allowlist

`WellPaged` ties the four structures that hold the allowlist: the records, the pages, the page of each address and the
append cursor. Appending a new address at the next slot keeps it and puts the address at the end of the list
(`WellPaged.appended`, `getAllowlist_appended`). Striking addresses, from the records, the page-of entries and the
pages at once, keeps it and takes them out of the list (`Struck.wellPaged`, `Struck.getAllowlist`); `remove` strikes
one address and `prune_expired` strikes the expired ones it examined.
-/

namespace StellarRwa.Compliance

open Lib

variable {Address : Type} [DecidableEq Address]

/-- The allowlist is well paged. -/
structure WellPaged (s : State Address) : Prop where
  nodup : (getAllowlist s).Nodup
  mem_page : ∀ a p, a ∈ page s p ↔ s.allowlistPageOf.get a = some p
  recorded : ∀ a, s.record.has a = s.allowlistPageOf.has a
  beyond : ∀ p : U32, (allowlistMeta s).1.val < p.val → s.allowlistPage.get p = none
  page_le : ∀ p, (page s p).length ≤ 200
  cursor_le : (allowlistMeta s).2.val ≤ 200
  le_cursor : ((page s (allowlistMeta s).1).length : Int) ≤ (allowlistMeta s).2.val

omit [DecidableEq Address] in
theorem page_eq_nil_of_get {s : State Address} {p : U32} (h : s.allowlistPage.get p = none) : page s p = [] := by
  simp [page, h]

namespace WellPaged

variable {s : State Address}

/-- The listed addresses are those with a page. -/
theorem mem_getAllowlist (hw : WellPaged s) {a : Address} :
    a ∈ getAllowlist s ↔ s.allowlistPageOf.has a = true := by
  rw [getAllowlist, List.mem_flatMap, Storage.has_iff]
  constructor
  · rintro ⟨p, -, ha⟩
    exact ⟨p, (hw.mem_page a p).1 ha⟩
  · rintro ⟨p, hp⟩
    have ha := (hw.mem_page a p).2 hp
    refine ⟨p, MInt.mem_upTo.2 ?_, ha⟩
    by_contra hlt
    rw [page_eq_nil_of_get (hw.beyond p (by omega))] at ha
    cases ha

/-- The listed addresses are those with a record. -/
theorem mem_getAllowlist_iff_record (hw : WellPaged s) {a : Address} :
    a ∈ getAllowlist s ↔ s.record.has a = true := by rw [hw.mem_getAllowlist, hw.recorded]

/-- The record of a listed address may be overwritten. -/
theorem withRecord (hw : WellPaged s) {a : Address} {old : KycRecord Address} (r : KycRecord Address)
    (hold : s.record.get a = some old) : WellPaged (s.withRecord a r) where
  nodup := hw.nodup
  mem_page := hw.mem_page
  recorded b := by
    refine Eq.trans ?_ (hw.recorded b)
    by_cases hb : b = a
    · subst hb
      simp [State.withRecord, Storage.has, hold]
    · simp [State.withRecord, Storage.has, Storage.get_set_of_ne _ _ hb]
  beyond := hw.beyond
  page_le := hw.page_le
  cursor_le := hw.cursor_le
  le_cursor := hw.le_cursor

end WellPaged

/-! ## Appending -/

section Append

variable {s : State Address} {a : Address} {p n count : U32}

theorem page_appended (q : U32) :
    page (s.appended a p n count) q = if q = p then page s p ++ [a] else page s q := by
  unfold page State.appended
  rw [Storage.get_set]
  split <;> rfl

theorem nextSlot_bounds (hw : WellPaged s) (hslot : NextSlot s p n) :
    (allowlistMeta s).1.val ≤ p.val ∧ n.val ≤ 200 ∧ ((page s p).length : Int) + 1 ≤ n.val := by
  rcases hslot with ⟨hfull, hp, hn⟩ | ⟨hroom, rfl, hn⟩
  · have hnil := page_eq_nil_of_get (hw.beyond p (by omega))
    rw [hnil]
    simp
    omega
  · have := hw.le_cursor
    omega

/-- The pages up to the next slot: the same list of addresses, with the slot's page last. -/
theorem getAllowlist_slot (hw : WellPaged s) (hslot : NextSlot s p n) :
    ∃ ps, p.upTo = ps ++ [p] ∧ p ∉ ps ∧ getAllowlist s = ps.flatMap (page s) ++ page s p := by
  obtain ⟨ps, hps, hnot⟩ := p.upTo_concat
  refine ⟨ps, hps, hnot, ?_⟩
  rcases hslot with ⟨hfull, hp, hn⟩ | ⟨hroom, rfl, hn⟩
  · have hnil := page_eq_nil_of_get (hw.beyond p (by omega))
    have heq : ps = (allowlistMeta s).1.upTo := by
      rw [MInt.upTo_succ hp] at hps
      exact (List.append_cancel_right hps).symm
    rw [hnil, List.append_nil, heq, getAllowlist]
  · rw [getAllowlist, hps, List.flatMap_append]
    simp

theorem getAllowlist_appended (hw : WellPaged s) (hslot : NextSlot s p n) (count : U32) :
    getAllowlist (s.appended a p n count) = getAllowlist s ++ [a] := by
  obtain ⟨ps, hps, hnot, hlist⟩ := getAllowlist_slot hw hslot
  have hsame : ps.flatMap (page (s.appended a p n count)) = ps.flatMap (page s) :=
    List.flatMap_congr fun q hq => by
      rw [page_appended, if_neg (by rintro rfl; exact hnot hq)]
  have hlast : page (s.appended a p n count) p = page s p ++ [a] := by rw [page_appended, if_pos rfl]
  calc getAllowlist (s.appended a p n count)
      = p.upTo.flatMap (page (s.appended a p n count)) := rfl
    _ = ps.flatMap (page s) ++ (page s p ++ [a]) := by
        rw [hps, List.flatMap_append, hsame, List.flatMap_singleton, hlast]
    _ = getAllowlist s ++ [a] := by rw [hlist, List.append_assoc]

/-- Appending an address without a record, whose record is written too. -/
theorem WellPaged.appended (hw : WellPaged s) (hslot : NextSlot s p n) (r : KycRecord Address)
    (hnew : s.record.get a = none) : WellPaged ((s.withRecord a r).appended a p n count) := by
  have hfresh : s.allowlistPageOf.get a = none := by
    have := hw.recorded a
    rw [Storage.has_eq_false.2 hnew] at this
    exact Storage.has_eq_false.1 this.symm
  obtain ⟨hle, hn, hlen⟩ := nextSlot_bounds hw hslot
  have hpage : ∀ q, page ((s.withRecord a r).appended a p n count) q = if q = p then page s p ++ [a] else page s q :=
    fun q => page_appended q
  refine ⟨?_, ?_, ?_, ?_, ?_, hn, ?_⟩
  · have hlist : getAllowlist ((s.withRecord a r).appended a p n count) = getAllowlist s ++ [a] :=
      getAllowlist_appended (s := s) hw hslot count
    rw [hlist, List.nodup_append]
    refine ⟨hw.nodup, List.nodup_singleton a, ?_⟩
    rintro b hb c hc rfl
    rw [List.mem_singleton] at hc
    subst hc
    rw [hw.mem_getAllowlist_iff_record, Storage.has_iff] at hb
    obtain ⟨v, hv⟩ := hb
    rw [hnew] at hv
    cases hv
  · intro b q
    rw [hpage]
    show _ ↔ (s.allowlistPageOf.set a p).get b = some q
    rw [Storage.get_set]
    by_cases hq : q = p <;> by_cases hb : b = a
    · simp [hq, hb]
    · simp [hq, hb, hw.mem_page b p]
    · subst hb
      have hno := hw.mem_page b q
      rw [hfresh] at hno
      simp only [if_neg hq, hno, reduceCtorEq, false_iff, ↓reduceIte, Option.some.injEq]
      exact fun e => hq e.symm
    · simp [hq, hb, hw.mem_page b q]
  · intro b
    show (s.record.set a r).has b = (s.allowlistPageOf.set a p).has b
    have := hw.recorded b
    unfold Storage.has at this ⊢
    rw [Storage.get_set, Storage.get_set]
    split
    · rfl
    · exact this
  · intro q hq
    have hq' : p.val < q.val := hq
    show (s.allowlistPage.set p _).get q = none
    rw [Storage.get_set_of_ne _ _ (by rintro rfl; omega)]
    exact hw.beyond q (by omega)
  · intro q
    rw [hpage]
    split
    · rw [List.length_append, List.length_singleton]
      omega
    · exact hw.page_le q
  · show ((page _ p).length : Int) ≤ n.val
    rw [hpage, if_pos rfl, List.length_append, List.length_singleton]
    push_cast
    exact hlen

end Append

/-! ## Striking -/

/-- `s'` is `s` with the addresses `D` struck from the records, the page-of entries and the pages. -/
structure Struck (D : List Address) (s s' : State Address) : Prop where
  record : ∀ a, s'.record.get a = if a ∈ D then none else s.record.get a
  pageOf : ∀ a, s'.allowlistPageOf.get a = if a ∈ D then none else s.allowlistPageOf.get a
  page : ∀ p, page s' p = (page s p).filter (· ∉ D)
  absent : ∀ p, s.allowlistPage.get p = none → s'.allowlistPage.get p = none
  cursor : s'.allowlistMeta = s.allowlistMeta

namespace Struck

variable {D : List Address} {s s' : State Address}

/-- The struck addresses leave the list, the others keep their order. -/
theorem getAllowlist (h : Struck D s s') : getAllowlist s' = (getAllowlist s).filter (· ∉ D) := by
  have hmeta : allowlistMeta s' = allowlistMeta s := by rw [allowlistMeta, h.cursor, ← allowlistMeta]
  rw [Compliance.getAllowlist, Compliance.getAllowlist, hmeta, List.filter_flatMap]
  exact List.flatMap_congr fun p _ => h.page p

theorem wellPaged (h : Struck D s s') (hw : WellPaged s) : WellPaged s' := by
  have hmeta : allowlistMeta s' = allowlistMeta s := by rw [allowlistMeta, h.cursor, ← allowlistMeta]
  have hlen : ∀ p, (Compliance.page s' p).length ≤ (Compliance.page s p).length := fun p => by
    rw [h.page p]
    exact List.length_filter_le _ _
  refine ⟨?_, ?_, ?_, ?_, fun p => (hlen p).trans (hw.page_le p), by rw [hmeta]; exact hw.cursor_le, ?_⟩
  · rw [h.getAllowlist]
    exact hw.nodup.filter _
  · intro a p
    rw [h.page, h.pageOf, List.mem_filter, hw.mem_page]
    by_cases ha : a ∈ D <;> simp [ha]
  · intro a
    have := hw.recorded a
    unfold Storage.has at this ⊢
    rw [h.record, h.pageOf]
    split
    · rfl
    · exact this
  · intro p hp
    rw [hmeta] at hp
    exact h.absent p (hw.beyond p hp)
  · rw [hmeta]
    have := hlen (allowlistMeta s).1
    have := hw.le_cursor
    omega

end Struck

end StellarRwa.Compliance
