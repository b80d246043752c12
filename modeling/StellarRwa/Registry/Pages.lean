import StellarRwa.Lib.Paging
import StellarRwa.Registry.Indexes

/-!
# The paged views

Five loops read the registry page by page, each with its own conventions. One spec lemma for each says which slice of
one list it returns: the entries in the order of their ids (`entries`), or those of them that have an issuer, a type or
a flag (`fetchIndexPage_eq`, `getAllAssets_eq`, `getAssetsPage_eq`, `getActiveAssetsPage_eq`). `registry_pages_exact`
collects them over runs, and adds that consecutive pages are the list.
-/

namespace StellarRwa.Registry

open Lib Lib.Paging

variable {Address X : Type} {assetAdmin : X → Address → Option Address} {s : State Address} {h : Contract Address X}

/-- The entries in the order of their ids. -/
def entries (s : State Address) : List (AssetEntry Address) :=
  (MInt.through 1 (assetCount s)).filterMap s.asset.get

/-! ## The list of the entries -/

theorem Totalled.length_entries (ht : Totalled s) : (entries s).length = (assetCount s).val.toNat :=
  ht.ids.length_values

theorem Totalled.entries_ascending (ht : Totalled s) : (entries s).Pairwise fun e e' => e.id < e'.id := by
  refine List.pairwise_filterMap.2 ((MInt.through_ascending _ _).imp ?_)
  intro id id' hlt e he e' he'
  rw [ht.entry_id id e he, ht.entry_id id' e' he']
  exact hlt

/-- The entry at position `j` has the id `j + 1`. -/
theorem Totalled.id_of_getElem? (ht : Totalled s) {j : ℕ} {e : AssetEntry Address} (he : (entries s)[j]? = some e) :
    e.id.val = j + 1 := by
  obtain ⟨id, hget, hval⟩ := ht.ids.id_of_getElem? he
  rw [ht.entry_id id e hget, hval]

/-- The entries from an id on. -/
theorem Totalled.filter_from (ht : Totalled s) {start : U64} (hstart : 1 ≤ start.val) :
    ((entries s).filter fun e => start ≤ e.id) = (entries s).drop (start.val.toNat - 1) := by
  have hbelow : ((entries s).take (start.val.toNat - 1)).filter (fun e => start ≤ e.id) = [] := by
    refine List.filter_eq_nil_iff.2 fun e he => ?_
    obtain ⟨j, hj⟩ := List.mem_iff_getElem?.1 he
    rw [List.getElem?_take] at hj
    split at hj
    · have := ht.id_of_getElem? hj
      rw [decide_eq_true_eq, MInt.le_def]
      omega
    · cases hj
  have habove : ((entries s).drop (start.val.toNat - 1)).filter (fun e => start ≤ e.id) =
      (entries s).drop (start.val.toNat - 1) := by
    refine List.filter_eq_self.2 fun e he => ?_
    obtain ⟨j, hj⟩ := List.mem_iff_getElem?.1 he
    rw [List.getElem?_drop] at hj
    have := ht.id_of_getElem? hj
    rw [decide_eq_true_eq, MInt.le_def]
    omega
  calc (entries s).filter (fun e => start ≤ e.id)
      = ((entries s).take (start.val.toNat - 1) ++ (entries s).drop (start.val.toNat - 1)).filter
          fun e => start ≤ e.id := by rw [List.take_append_drop]
    _ = (entries s).drop (start.val.toNat - 1) := by rw [List.filter_append, hbelow, habove, List.nil_append]

/-- The entries of a window of ids are a slice. -/
theorem Totalled.filterMap_window (ht : Totalled s) {a k next : U64} (ha : 1 ≤ a.val)
    (hnext : next.val = (assetCount s).val + 1) :
    (a.between (min (a.saturatingAdd k) next)).filterMap s.asset.get =
      slice (entries s) (a.val.toNat - 1) k.val.toNat := ht.ids.filterMap_window ha hnext

/-! ## Looking up ids -/

theorem val_maxPageSize : maxPageSize.val = 100 := rfl

theorem min_maxPageSize (n : U32) : (min n maxPageSize).val.toNat = min n.val.toNat 100 := by
  have hlo := n.lo_le
  rw [MInt.val_min, val_maxPageSize]
  omega

theorem pushEntry_eq (out : List (AssetEntry Address)) (id : U64) :
    (pushEntry out id : M Address X _) h = .ok (out ++ (h.storage.asset.get id).toList, h) := by
  unfold pushEntry
  rw [Call.bind_ok]
  refine ⟨h.storage, h, rfl, ?_⟩
  cases h.storage.asset.get id with
  | none => simp
  | some e => simp

theorem foldEach_pushEntry (out : List (AssetEntry Address)) (ids : List U64) :
    (Call.foldEach pushEntry out ids : M Address X _) h = .ok (out ++ ids.filterMap h.storage.asset.get, h) := by
  induction ids generalizing out with
  | nil => simp
  | cons id ids ih =>
    rw [Call.foldEach_cons, Call.bind_eq_of_ok (pushEntry_eq out id), ih]
    cases hget : h.storage.asset.get id <;> simp [hget]

theorem foldEach_pushAt {ids : List U64} (out : List (AssetEntry Address)) {idxs : List U32}
    (hidxs : ∀ idx ∈ idxs, idx.val < ids.length) :
    (Call.foldEach (pushAt ids) out idxs : M Address X _) h =
      .ok (out ++ (idxs.filterMap fun idx => ids[idx.val.toNat]?).filterMap h.storage.asset.get, h) := by
  induction idxs generalizing out with
  | nil => simp
  | cons idx idxs ih =>
    have hlt := hidxs idx List.mem_cons_self
    have hlo := idx.lo_le
    obtain ⟨id, hid⟩ : ∃ id, ids[idx.val.toNat]? = some id := ⟨_, List.getElem?_eq_getElem (by omega)⟩
    have hround : (pushAt ids out idx : M Address X _) h = .ok (out ++ (h.storage.asset.get id).toList, h) := by
      rw [pushAt, Call.bind_eq_of_ok (Call.orTrap_ok.2 ⟨id, hid, rfl⟩), pushEntry_eq]
    rw [Call.foldEach_cons, Call.bind_eq_of_ok hround, ih _ fun idx' hmem => hidxs idx' (List.mem_cons_of_mem _ hmem)]
    cases hget : h.storage.asset.get id <;> simp [hid, hget]

/-- The slice of an id list whose ids all have entries. A list that is too long for a host vector is not read. -/
theorem fetchAssetsPage_eq {ids : List U64} (hids : ∀ id ∈ ids, (h.storage.asset.get id).isSome) (offset limit : U32) :
    (fetchAssetsPage ids offset limit : M Address X _) h =
      if ids.length < 2 ^ 32 then
        .ok (slice (ids.filterMap h.storage.asset.get) offset.val.toNat limit.val.toNat, h)
      else .error .trap := by
  split
  · rename_i hlen
    obtain ⟨total, htotal⟩ : ∃ total : U32, total.val = ids.length := MInt.exists_val (by omega) (by omega)
    have hlo := offset.lo_le
    have hlimit := limit.lo_le
    rw [fetchAssetsPage, Call.bind_eq_of_ok (Call.orTrap_ok.2 ⟨total, MInt.ofNat?_eq_some.2 htotal, rfl⟩)]
    split
    · rename_i hout
      rw [MInt.le_def, MInt.eq_zero_iff] at hout
      rw [← filterMap_slice hids, slice_eq_nil (by omega)]
      rfl
    · rename_i hin
      rw [MInt.le_def, MInt.eq_zero_iff] at hin
      have hend :
          (min total (offset.saturatingAdd limit)).val = min total.val (min 4294967295 (offset.val + limit.val)) := by
        rw [MInt.val_min, MInt.val_saturatingAdd]
        omega
      generalize min total (offset.saturatingAdd limit) = end_ at hend ⊢
      have hidxs : ∀ idx ∈ offset.between end_, idx.val < ids.length := by
        intro idx hidx
        have hlt := MInt.lt_of_mem_between hidx
        omega
      rw [foldEach_pushAt _ hidxs, List.nil_append, MInt.between]
      rw [MInt.filterMap_upFrom (g := fun i => ids[i]?), filterMap_getElem?_range', ← filterMap_slice hids]
      · congr 3
        refine slice_congr ?_
        omega
      · omega
      · intro i m hm
        rw [MInt.ofNat?_eq_some.1 hm, Int.toNat_natCast]
  · rename_i hlen
    refine Call.bind_eq_of_error (Call.orTrap_error.2 ⟨?_, rfl⟩)
    refine MInt.ofInt?_eq_none.2 (.inr ?_)
    omega

/-- `start_id.max(1)`. -/
theorem one_le_start (startId : U64) : 1 ≤ (max startId 1).val := by
  rw [MInt.val_max, MInt.val_one]
  exact le_max_right _ _

theorem getAllAssets_eq (ht : Totalled h.storage) (hfits : (assetCount h.storage).val < 2 ^ 64 - 1) (startId : U64)
    (limit : U32) :
    (getAllAssets startId limit : M Address X _) h =
      .ok (slice (entries h.storage) ((max startId 1).val.toNat - 1) (min limit.val.toNat 100), h) := by
  have hcount := (assetCount h.storage).lo_le
  obtain ⟨next, hnext⟩ : ∃ next : U64, next.val = (assetCount h.storage).val + 1 :=
    MInt.exists_val (by omega) (by omega)
  unfold getAllAssets
  simp only [Call.bind_ok, Call.storage_ok, Call.orTrap_ok]
  refine ⟨_, _, rfl, next, h, ⟨next, MInt.checkedAdd_eq_some.2 hnext, rfl⟩, ?_⟩
  rw [foldEach_pushEntry, List.nil_append, ht.filterMap_window (one_le_start startId) hnext, U32.val_toU64,
    min_maxPageSize]

/-- From an id on that is not zero. -/
theorem getAllAssets_from (ht : Totalled h.storage) (hfits : (assetCount h.storage).val < 2 ^ 64 - 1) {startId : U64}
    (hstart : 1 ≤ startId.val) (limit : U32) :
    (getAllAssets startId limit : M Address X _) h =
      .ok (slice (entries h.storage) (startId.val.toNat - 1) (min limit.val.toNat 100), h) := by
  have hmax : (max startId 1).val = startId.val := by
    rw [MInt.val_max, MInt.val_one, max_eq_left hstart]
  rw [getAllAssets_eq ht hfits, hmax]

/-! ## Pages of an index -/

section OfIndex

variable {K : Type} [DecidableEq K] {ids : Storage K (List U64)} {field : AssetEntry Address → K}

/-- Reading an index is filtering the entries. -/
theorem filterMap_indexIds (ht : Totalled s) (hx : Index.Exact (indexIds ids) field s.asset) (key : K) :
    (indexIds ids key).filterMap s.asset.get = (entries s).filter (field · = key) := by
  refine hx.entries_eq_filter (fun i j => lt_asymm (a := i.val) (b := j.val)) (MInt.through_ascending _ _)
    (fun id => ?_) key
  exact ht.ids.mem_through_iff

/-- An index lists as many ids as there are entries with its key. -/
theorem length_indexIds (ht : Totalled s) (hx : Index.Exact (indexIds ids) field s.asset) (key : K) :
    (indexIds ids key).length = ((entries s).filter (field · = key)).length := by
  rw [← filterMap_indexIds ht hx, ← List.length_map AssetEntry.id, hx.map_entries ht.entry_id]

theorem fetchIndexPage_eq {index : State Address → Storage K (List U64)} (ht : Totalled h.storage)
    (hx : Index.Exact (indexIds (index h.storage)) field h.storage.asset) (key : K) (page pageSize : U32) :
    (fetchIndexPage index key page pageSize : M Address X _) h =
      if ((entries h.storage).filter (field · = key)).length < 2 ^ 32 then
        .ok (slice ((entries h.storage).filter (field · = key)) (page.val.toNat * min pageSize.val.toNat 100)
          (min pageSize.val.toNat 100), h)
      else .error .trap := by
  have hids : ∀ id ∈ indexIds (index h.storage) key, (h.storage.asset.get id).isSome := fun id hid => by
    obtain ⟨e, he, -⟩ := (hx.mem key id).1 hid
    exact Option.isSome_iff_exists.2 ⟨e, he⟩
  rw [fetchIndexPage, Call.bind_eq_of_ok (Call.storage_ok.2 rfl), fetchAssetsPage_eq hids, length_indexIds ht hx,
    filterMap_indexIds ht hx]
  have hpage := page.lo_le
  split
  · rename_i hlen
    have hmul : (page.val * (min pageSize maxPageSize).val).toNat = page.val.toNat * min pageSize.val.toNat 100 := by
      rw [Int.toNat_mul hpage (min pageSize maxPageSize).lo_le, min_maxPageSize]
    congr 2
    rw [MInt.val_saturatingMul, min_maxPageSize]
    by_cases hsat : page.val * (min pageSize maxPageSize).val ≤ 4294967295
    · congr 1
      omega
    · rw [slice_eq_nil (.inl (by omega)), slice_eq_nil (.inl (by omega))]
  · rfl

end OfIndex

theorem cappedSize_val (n : U32) : (cappedSize n).val = if n.val = 0 ∨ 100 < n.val then 100 else n.val := by
  unfold cappedSize
  simp only [MInt.eq_zero_iff, MInt.lt_def, val_maxPageSize]
  split <;> rfl

theorem getAssetsPage_eq (ht : Totalled h.storage) (hfits : (assetCount h.storage).val < 2 ^ 64 - 1)
    (startIndex pageSize : U32) :
    (getAssetsPage startIndex pageSize : M Address X _) h =
      .ok (slice (entries h.storage) startIndex.val.toNat (cappedSize pageSize).val.toNat, h) := by
  have hlen := ht.length_entries
  have hcount := (assetCount h.storage).lo_le
  have hindex := startIndex.lo_le
  have hmax := startIndex.le_hi
  have hstart : (startIndex.toU64.saturatingAdd 1).val = startIndex.val + 1 := by
    rw [MInt.val_saturatingAdd, U32.val_toU64, MInt.val_one]
    omega
  have hnext : ((assetCount h.storage).saturatingAdd 1).val = (assetCount h.storage).val + 1 := by
    rw [MInt.val_saturatingAdd, MInt.val_one]
    omega
  simp only [getAssetsPage, Call.bind_ok, Call.storage_ok]
  refine ⟨_, _, rfl, ?_⟩
  generalize startIndex.toU64.saturatingAdd 1 = startId at hstart ⊢
  generalize (assetCount h.storage).saturatingAdd 1 = next at hnext ⊢
  split
  · rename_i hzero
    rw [MInt.eq_zero_iff] at hzero
    rw [slice_eq_nil (.inl (by omega))]
    rfl
  split
  · rename_i _ hbeyond
    rw [MInt.lt_def, hstart] at hbeyond
    rw [slice_eq_nil (.inl (by omega))]
    rfl
  · have hk : startId.val.toNat - 1 = startIndex.val.toNat := by omega
    rw [foldEach_pushEntry, List.nil_append, ht.filterMap_window (by omega) hnext, hk, U32.val_toU64]

/-! ## The scan for a flag -/

section Scan

variable (startIndex capped : U32) (activeOnly : Bool)

/-- One id of the scan: an entry with the flag is skipped or put out, the others change nothing. -/
theorem scanEntry_eq (scan : ActiveScan Address) {id : U64} {e : AssetEntry Address}
    (he : h.storage.asset.get id = some e) :
    ∃ scan', (scanEntry startIndex activeOnly scan id : M Address X _) h = .ok (scan', h) ∧
      ((e.active ≠ activeOnly ∧ scan' = scan) ∨
        (e.active = activeOnly ∧ scan.skipped.val < startIndex.val ∧ scan'.skipped.val = scan.skipped.val + 1 ∧
          scan'.out = scan.out) ∨
        (e.active = activeOnly ∧ startIndex.val ≤ scan.skipped.val ∧ scan'.skipped = scan.skipped ∧
          scan'.out = scan.out ++ [e])) := by
  unfold scanEntry
  simp only [Call.bind_ok, Call.storage_ok]
  by_cases hact : e.active = activeOnly
  · by_cases hskip : scan.skipped.val < startIndex.val
    · have hhi := startIndex.le_hi
      have hlo := scan.skipped.lo_le
      obtain ⟨next, hnext⟩ : ∃ next : U32, next.val = scan.skipped.val + 1 := MInt.exists_val (by omega) (by omega)
      refine ⟨{ scan with skipped := next }, ⟨_, _, rfl, ?_⟩, .inr (.inl ⟨hact, hskip, hnext, rfl⟩)⟩
      simp [he, hact, MInt.lt_def, hskip, hnext]
    · refine ⟨{ scan with out := scan.out ++ [e] }, ⟨_, _, rfl, ?_⟩, .inr (.inr ⟨hact, not_lt.1 hskip, rfl, rfl⟩)⟩
      simp [he, hact, MInt.lt_def, hskip]
  · refine ⟨scan, ⟨_, _, rfl, ?_⟩, .inl ⟨hact, rfl⟩⟩
    simp [he, hact]

/-- What is put out, and what remains to skip and to put out, over the ids still to visit. -/
theorem scanEntries_eq (scan : ActiveScan Address) {ids : List U64}
    (hids : ∀ id ∈ ids, (h.storage.asset.get id).isSome ∧ id.val < 2 ^ 64 - 1) :
    ∃ scan', (scanEntries startIndex capped activeOnly scan ids : M Address X _) h = .ok (scan', h) ∧
      scan'.out = scan.out ++ slice ((ids.filterMap h.storage.asset.get).filter (·.active = activeOnly))
        (startIndex.val - scan.skipped.val).toNat (capped.val.toNat - scan.out.length) := by
  induction ids generalizing scan with
  | nil => exact ⟨scan, rfl, by simp [slice]⟩
  | cons id ids ih =>
    have hrest := fun id' hid' => hids id' (List.mem_cons_of_mem _ hid')
    by_cases hroom : scan.out.length < capped.val
    · obtain ⟨hsome, hfits⟩ := hids id List.mem_cons_self
      obtain ⟨e, he⟩ := Option.isSome_iff_exists.1 hsome
      obtain ⟨scan₁, hround, hcase⟩ := scanEntry_eq startIndex activeOnly scan he
      obtain ⟨scan', hloop, hout⟩ := ih scan₁ hrest
      refine ⟨scan', ?_, ?_⟩
      · have hlo := id.lo_le
        obtain ⟨next, hnext⟩ : ∃ next : U64, next.val = id.val + 1 := MInt.exists_val (by omega) (by omega)
        have hadd : id.checkedAdd 1 = some next := MInt.checkedAdd_eq_some.2 hnext
        rw [scanEntries, if_pos hroom, Call.bind_eq_of_ok hround, Call.bind_eq_of_ok (by rw [hadd]; rfl), hloop]
      · rw [hout, List.filterMap_cons_some he]
        rcases hcase with ⟨hact, rfl⟩ | ⟨hact, hskip, hskipped, hsame⟩ | ⟨hact, hskip, hskipped, hput⟩
        · rw [List.filter_cons_of_neg (by simp [hact])]
        · have hk : (startIndex.val - scan.skipped.val).toNat = (startIndex.val - scan₁.skipped.val).toNat + 1 := by
            omega
          rw [List.filter_cons_of_pos (by simp [hact]), hk, slice_cons_skip, hsame]
        · have hk : (startIndex.val - scan.skipped.val).toNat = 0 := by omega
          have hn : capped.val.toNat - scan.out.length = capped.val.toNat - (scan.out ++ [e]).length + 1 := by
            rw [List.length_append, List.length_singleton]
            omega
          rw [List.filter_cons_of_pos (by simp [hact]), hk, hn, slice_cons_take, hput, hskipped, hk, List.append_assoc,
            List.singleton_append]
    · refine ⟨scan, by simp [scanEntries, hroom], ?_⟩
      rw [slice_eq_nil (.inr (by omega)), List.append_nil]

end Scan

theorem getActiveAssetsPage_eq (ht : Totalled h.storage) (hfits : (assetCount h.storage).val < 2 ^ 64 - 1)
    (startIndex pageSize : U32) (activeOnly : Bool) :
    (getActiveAssetsPage startIndex pageSize activeOnly : M Address X _) h =
      .ok (slice ((entries h.storage).filter (·.active = activeOnly)) startIndex.val.toNat
        (cappedSize pageSize).val.toNat, h) := by
  have hids : ∀ id ∈ MInt.through 1 (assetCount h.storage), (h.storage.asset.get id).isSome ∧ id.val < 2 ^ 64 - 1 := by
    intro id hid
    have hle := (MInt.mem_through.1 hid).2
    exact ⟨Option.isSome_iff_exists.2 (ht.ids.mem_through_iff.1 hid), by omega⟩
  obtain ⟨scan, hscan, hout⟩ := scanEntries_eq startIndex (cappedSize pageSize) activeOnly ⟨0, []⟩ hids
  simp only [getActiveAssetsPage, Call.bind_ok, Call.storage_ok]
  refine ⟨_, _, rfl, ?_⟩
  split
  · rename_i hzero
    have hlen := ht.length_entries
    rw [hzero] at hlen
    rw [List.length_eq_zero_iff.1 hlen, List.filter_nil, slice_eq_nil (.inl (Nat.zero_le _))]
    rfl
  · rw [Call.bind_eq_of_ok hscan, hout]
    simp [entries]

/-! ## Consecutive pages -/

section Consecutive

variable {hi : Int} {view : MInt 0 hi → M Address X (List (AssetEntry Address))} {pos : ℕ → ℕ} {size : U32}
  {l : List (AssetEntry Address)}

/-- What a view answers at a position; nothing where it fails, or where its argument has no such value. -/
def ask {α : Type} (view : MInt 0 hi → M Address X α) (h : Contract Address X) (p : ℕ) : Option α := do
  let i ← MInt.ofNat? p
  let r ← (view i).returned h
  pure r.1

theorem ask_eq {α : Type} {view : MInt 0 hi → M Address X α} {p : ℕ} {a : α} (hfits : (p : Int) ≤ hi)
    (hview : ∀ i : MInt 0 hi, i.val = p → view i h = .ok (a, h)) : ask view h p = some a := by
  obtain ⟨i, hval⟩ : ∃ i : MInt 0 hi, i.val = p := MInt.exists_val (by omega) hfits
  have hreturned : (view i).returned h = some (a, h) := Call.returned_eq_some.2 (hview i hval)
  simp [ask, MInt.ofNat?_eq_some.2 hval, hreturned]

/-- The pages of `size` elements at the positions `pos 0`, `pos 1` and so on are `l`, read once from start to end. -/
def Consecutive (view : MInt 0 hi → M Address X (List (AssetEntry Address))) (h : Contract Address X) (pos : ℕ → ℕ)
    (size : U32) (l : List (AssetEntry Address)) : Prop :=
  collect (ask view h) ((List.range (pageCount l.length size.val.toNat)).map pos) = some l

theorem consecutive_of_slices (hsize : 1 ≤ size.val)
    (hview : ∀ j, j * size.val.toNat < l.length → (pos j : Int) ≤ hi ∧ ∀ i : MInt 0 hi, i.val = pos j →
      view i h = .ok (slice l (j * size.val.toNat) size.val.toNat, h)) : Consecutive view h pos size l :=
  collect_pages (by omega) fun j hj => ask_eq (hview j hj).1 (hview j hj).2

/-- Pages that are counted. -/
theorem consecutive_numbered {view : U32 → M Address X (List (AssetEntry Address))} (hsize : 1 ≤ size.val)
    (hlen : l.length < 2 ^ 32)
    (hview : ∀ p, view p h = .ok (slice l (p.val.toNat * size.val.toNat) size.val.toNat, h)) :
    Consecutive view h id size l := by
  refine consecutive_of_slices hsize fun j hj => ⟨?_, fun i hval => ?_⟩
  · have hle := Nat.le_mul_of_pos_right j (show 0 < size.val.toNat by omega)
    rw [id_eq]
    omega
  · rw [hview, hval, id_eq, Int.toNat_natCast]

/-- Pages that start at a position. -/
theorem consecutive_offsets {view : U32 → M Address X (List (AssetEntry Address))} (hsize : 1 ≤ size.val)
    (hlen : l.length < 2 ^ 32)
    (hview : ∀ startIndex, view startIndex h = .ok (slice l startIndex.val.toNat size.val.toNat, h)) :
    Consecutive view h (fun j => j * size.val.toNat) size l := by
  refine consecutive_of_slices hsize fun j hj => ⟨?_, fun i hval => ?_⟩
  · omega
  · rw [hview, hval, Int.toNat_natCast]

end Consecutive

variable [DecidableEq Address]

/-- **Every page is a slice of one list**, in every reachable state with less than 2^32 assets and for all arguments:
the entries in the order of their ids, filtered by the issuer, the type or the flag asked for. The views by issuer and
by type count pages of `min n 100` entries, `get_all_assets` starts at an id, `get_assets_page` and
`get_active_assets_page` start at a position and take 100 entries for the sizes 0 and above 100. For every size from 1
to 100 the consecutive pages of each view are its list, each entry once, in the order of the ids. -/
theorem registry_pages_exact (assetAdmin : X → Address → Option Address) (x : X) (ls : List (Label Address X))
    (hcount : (assetCount ((registry assetAdmin).run (Contract.fresh Address x) ls).storage).val < 2 ^ 32) :
    let h := (registry assetAdmin).run (Contract.fresh Address x) ls
    let l := entries h.storage
    let capped (n : U32) : ℕ := min n.val.toNat 100
    let orMost (n : U32) : ℕ := if n.val = 0 ∨ 100 < n.val then 100 else n.val.toNat
    (l.Pairwise (fun e e' => e.id < e'.id) ∧ ∀ e, e ∈ l ↔ ∃ id, h.storage.asset.get id = some e) ∧
      (∀ issuer p n, getAssetsByIssuerPage issuer p n h =
        .ok (((l.filter (·.issuer = issuer)).drop (p.val.toNat * capped n)).take (capped n), h)) ∧
      (∀ assetType p n, getAssetsByTypePage assetType p n h =
        .ok (((l.filter (·.assetType = assetType)).drop (p.val.toNat * capped n)).take (capped n), h)) ∧
      (∀ issuer, (getAssetsByIssuer issuer : M Address X _) h = getAssetsByIssuerPage issuer 0 100 h) ∧
      (∀ assetType, (getAssetsByType assetType : M Address X _) h = getAssetsByTypePage assetType 0 100 h) ∧
      (∀ startId n, getAllAssets startId n h =
        .ok ((l.filter fun e => max startId 1 ≤ e.id).take (capped n), h)) ∧
      (∀ startIndex n, getAssetsPage startIndex n h = .ok ((l.drop startIndex.val.toNat).take (orMost n), h)) ∧
      (∀ startIndex n activeOnly, getActiveAssetsPage startIndex n activeOnly h =
        .ok (((l.filter (·.active = activeOnly)).drop startIndex.val.toNat).take (orMost n), h)) ∧
      ∀ size : U32, 1 ≤ size.val → size.val ≤ 100 →
        let n := size.val.toNat
        (∀ issuer, Consecutive (getAssetsByIssuerPage issuer · size) h id size (l.filter (·.issuer = issuer))) ∧
        (∀ assetType,
          Consecutive (getAssetsByTypePage assetType · size) h id size (l.filter (·.assetType = assetType))) ∧
        Consecutive (getAllAssets · size) h (fun j => 1 + j * n) size l ∧
        Consecutive (getAssetsPage · size) h (fun j => j * n) size l ∧
        ∀ activeOnly, Consecutive (getActiveAssetsPage · size activeOnly) h (fun j => j * n) size
          (l.filter (·.active = activeOnly)) := by
  intro h l capped orMost
  have ht : Totalled h.storage := run_totalled assetAdmin x ls
  have hi : Indexed h.storage := run_indexed assetAdmin x ls
  have hfits : (assetCount h.storage).val < 2 ^ 64 - 1 := by
    have : (assetCount h.storage).val < 2 ^ 32 := hcount
    omega
  have hlen : l.length < 2 ^ 32 := by
    have hcount' : (assetCount h.storage).val < 2 ^ 32 := hcount
    rw [ht.length_entries]
    omega
  have hfilter : ∀ p : AssetEntry Address → Bool, (l.filter p).length < 2 ^ 32 := fun p =>
    (List.length_filter_le p l).trans_lt hlen
  have hissuer : ∀ issuer p n, getAssetsByIssuerPage issuer p n h =
      .ok (slice (l.filter (·.issuer = issuer)) (p.val.toNat * capped n) (capped n), h) := fun issuer p n => by
    rw [getAssetsByIssuerPage, fetchIndexPage_eq ht hi.issuer, if_pos (hfilter _)]
  have htype : ∀ assetType p n, getAssetsByTypePage assetType p n h =
      .ok (slice (l.filter (·.assetType = assetType)) (p.val.toNat * capped n) (capped n), h) := fun assetType p n => by
    rw [getAssetsByTypePage, fetchIndexPage_eq ht hi.type, if_pos (hfilter _)]
  have hmost : ∀ n : U32, (cappedSize n).val.toNat = orMost n := fun n => by
    rw [cappedSize_val]
    exact apply_ite Int.toNat _ _ _
  refine ⟨⟨ht.entries_ascending, fun e => ht.ids.mem_values⟩, hissuer, htype, fun _ => rfl, fun _ => rfl, ?_, ?_, ?_,
    ?_⟩
  · intro startId n
    rw [getAllAssets_eq ht hfits, ht.filter_from (one_le_start startId)]
    rfl
  · intro startIndex n
    rw [getAssetsPage_eq ht hfits, hmost]
    rfl
  · intro startIndex n activeOnly
    rw [getActiveAssetsPage_eq ht hfits, hmost]
    rfl
  · intro size hsize hle n
    have hn : capped size = n := by
      show min size.val.toNat 100 = size.val.toNat
      omega
    have hsizeval : (cappedSize size).val.toNat = n := by
      rw [cappedSize_val, if_neg (by omega)]
    refine ⟨fun issuer => ?_, fun assetType => ?_, ?_, ?_, fun activeOnly => ?_⟩
    · exact consecutive_numbered hsize (hfilter _) fun p => by rw [hissuer, hn]
    · exact consecutive_numbered hsize (hfilter _) fun p => by rw [htype, hn]
    · refine consecutive_of_slices hsize fun j (hj : j * n < l.length) => ⟨by omega, fun i hval => ?_⟩
      have hstart : i.val.toNat - 1 = j * n := by omega
      rw [getAllAssets_from ht hfits (by omega), hstart]
      congr 3
    · exact consecutive_offsets hsize hlen fun startIndex => by rw [getAssetsPage_eq ht hfits, hsizeval]
    · exact consecutive_offsets hsize (hfilter _) fun startIndex => by rw [getActiveAssetsPage_eq ht hfits, hsizeval]

/-- Issuer 5 registers two assets, and issuer 6 one between them. -/
def twoIssuers : List (Label ℕ Unit) :=
  [.call (.signed 0) (.initializeRegistry 1),
    .call (.signed 1) (.registerAsset 5 20 [65] [98, 111, 110, 100] 100),
    .call (.signed 2) (.registerAsset 6 21 [66] [102, 117, 110, 100] 100),
    .call (.signed 3) (.registerAsset 5 22 [67] [98, 111, 110, 100] 100)]

/-- The second page of one asset of issuer 5 is the third asset. -/
theorem registry_pages_exact_second :
    let h := (registry fun _ _ => none).run (Contract.fresh ℕ ()) twoIssuers
    ∃ l, getAssetsByIssuerPage 5 1 1 h = .ok (l, h) ∧ l.map AssetEntry.id = [3] :=
  ⟨_, (registry_pages_exact (fun _ _ => none) () twoIssuers (by decide +kernel)).2.1 5 1 1, by decide +kernel⟩

end StellarRwa.Registry
