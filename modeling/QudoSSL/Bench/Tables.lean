import QudoSSL.Bench.Verdict

/-!
# What the tables say about the data

A section folds the rows of its file into dictionaries and reads its table off them.  The table has
one row for each cell that can be compared, made from exactly the repetitions both builds have, in
whatever order the file lists them.
-/

namespace QudoSSL

open Posix Python

/-! ## The three tables -/

def primitivesTable : List Row → Py (Option (List (TableRow PrimitiveCell × Verdict))) :=
  tableRows primitiveEntry primitiveCells primitiveRow

def handshakeTable : List Row → Py (Option (List (TableRow (Text × Text)))) :=
  tableRows handshakeEntry cellKeys (pairRow handshakeRatios)

def resumptionTable : List Row → Py (Option (List (TableRow (Text × Text)))) :=
  tableRows resumptionEntry cellKeys (pairRow Dict.paired)

/-! ## The orders of the cells -/

instance : Std.Total textLe := ⟨fun a b => List.le_total a b⟩

instance : IsTrans Text textLe := ⟨fun _ _ _ h h' => List.le_trans h h'⟩

instance : Std.Antisymm textLe := ⟨fun _ _ h h' => List.le_antisymm h h'⟩

theorem text_trichotomy (a b : Text) : a < b ∨ a = b ∨ b < a := by
  by_cases hab : a < b
  · exact .inl hab
  · by_cases hba : b < a
    · exact .inr (.inr hba)
    · exact .inr (.inl (List.le_antisymm hba hab))

-- Pairs are compared as tuples, and algorithms by the tuple of their key.
theorem pairLe_eq : pairLe = LexLe (· < ·) textLe Prod.fst Prod.snd := rfl

theorem algLe_eq : algLe = LexLe (fun x y => (!x && y) = true) textLe isDsa id := rfl

instance : Std.Total pairLe := pairLe_eq ▸ lexLe_total text_trichotomy

instance : IsTrans (Text × Text) pairLe :=
  pairLe_eq ▸ lexLe_trans fun _ _ _ h h' => List.lt_trans h h'

instance : Std.Antisymm pairLe :=
  pairLe_eq ▸ lexLe_antisymm (fun _ _ h h' => List.lt_asymm h h') fun _ _ => Prod.ext

instance : Std.Total algLe := algLe_eq ▸ lexLe_total (by decide)

instance : IsTrans Text algLe := algLe_eq ▸ lexLe_trans (by decide)

instance : Std.Antisymm algLe := algLe_eq ▸ lexLe_antisymm (by decide) fun _ _ _ h => h

/-! ## The cells of a table -/

theorem cellKeys_collect_congr {es es' : List (((Text × Text) × Text) × ℕ × ℚ)}
    (h : es.Perm es') : cellKeys (Dict.collect es) = cellKeys (Dict.collect es') := by
  refine sortedSet_congr pairLe fun k => ?_
  simp only [List.mem_map, Dict.mem_keys_collect_iff h]

theorem primitiveCells_collect_congr {es es' : List ((PrimitiveCell × Text) × ℕ × ℚ)}
    (h : es.Perm es') : primitiveCells (Dict.collect es) = primitiveCells (Dict.collect es') := by
  have hmodes : sortedSet textLe ((Dict.collect es).keys.map fun k => k.1.1) =
      sortedSet textLe ((Dict.collect es').keys.map fun k => k.1.1) :=
    sortedSet_congr textLe fun k => by simp only [List.mem_map, Dict.mem_keys_collect_iff h]
  have halgs : sortedSet algLe ((Dict.collect es).keys.map fun k => k.1.2.1) =
      sortedSet algLe ((Dict.collect es').keys.map fun k => k.1.2.1) :=
    sortedSet_congr algLe fun k => by simp only [List.mem_map, Dict.mem_keys_collect_iff h]
  unfold primitiveCells
  rw [hmodes, halgs]

theorem nodup_cellKeys (c : Cells (Text × Text)) : (cellKeys c).Nodup := nodup_sortedSet _ _

theorem nodup_primitiveCells (c : Cells PrimitiveCell) : (primitiveCells c).Nodup := by
  have hprod : primitiveCells c = (sortedSet textLe (c.keys.map fun k => k.1.1)).product
      ((sortedSet algLe (c.keys.map fun k => k.1.2.1)).product [1, 2, 3]) := by
    simp only [primitiveCells, List.product, List.map_flatMap, List.map_map]
    rfl
  rw [hprod]
  exact (nodup_sortedSet _ _).product ((nodup_sortedSet _ _).product (by decide))

/-! ## What the rows give -/

/-- The row has a value for the build and cell in repetition `k`: the number in column `value`,
where column `gate` is not empty. -/
def Gives {κ : Type} (cell : Row → κ) (gate value : Text) (r : Row) (c : κ) (build : Text) (k : ℕ)
    (v : ℚ) : Prop :=
  cell r = c ∧ field r (txt "build") = build ∧ int (r (txt "rep")) = .ok k ∧
    truthy (r gate) = true ∧ float (r value) = .ok v

/-- Two rows for one build, cell and repetition. -/
def SameKey {μ : Type} (key : Row → μ) (r r' : Row) : Prop :=
  key r = key r' ∧ field r (txt "build") = field r' (txt "build") ∧
    ∃ k, int (r (txt "rep")) = .ok k ∧ int (r' (txt "rep")) = .ok k

def DistinctKeys {μ : Type} (key : Row → μ) (rows : List Row) : Prop :=
  rows.Pairwise fun r r' => ¬ SameKey key r r'

/-- What an `entry` function takes from a row is what the row gives. -/
structure Reading {κ μ : Type} (entry : Row → Py (List ((κ × Text) × ℕ × ℚ))) (key : Row → μ)
    (gives : Row → κ → Text → ℕ → ℚ → Prop) : Prop where
  mem_iff : ∀ {r es}, entry r = .ok es → ∀ c b k v, ((c, b), k, v) ∈ es ↔ gives r c b k v
  sameKey : ∀ {r r' c b k v w}, gives r c b k v → gives r' c b k w → SameKey key r r'
  unique : ∀ {r c b k v w}, gives r c b k v → gives r c b k w → v = w

theorem Gives.unique {κ : Type} {cell : Row → κ} {gate value : Text} {r : Row} {c : κ}
    {build : Text} {k : ℕ} {v w : ℚ} (hv : Gives cell gate value r c build k v)
    (hw : Gives cell gate value r c build k w) : v = w :=
  Except.ok.inj (hv.2.2.2.2.symm.trans hw.2.2.2.2)

theorem Gives.sameKey {κ : Type} {cell : Row → κ} {gate value : Text} {r r' : Row} {c : κ}
    {build : Text} {k : ℕ} {v w : ℚ} (hv : Gives cell gate value r c build k v)
    (hw : Gives cell gate value r' c build k w) : SameKey cell r r' :=
  ⟨hv.1.trans hw.1.symm, hv.2.1.trans hw.2.1.symm, k, hv.2.2.1, hw.2.2.1⟩

theorem entry_reading {κ : Type} (cell : Row → κ) (value : Text) :
    Reading (entry cell value) cell (Gives cell value value) where
  mem_iff {r es} h c b k v := by
    unfold entry at h
    by_cases hgate : truthy (r value) = true
    · rw [if_pos hgate] at h
      obtain ⟨x, hx, h⟩ := bind_ok_iff.mp h
      obtain ⟨n, hn, h⟩ := bind_ok_iff.mp h
      cases h
      simp only [List.mem_singleton, Prod.mk.injEq, Gives, hx, hn, hgate, Except.ok.injEq]
      constructor
      · rintro ⟨⟨rfl, rfl⟩, rfl, rfl⟩
        exact ⟨rfl, rfl, rfl, trivial, rfl⟩
      · rintro ⟨rfl, rfl, rfl, _, rfl⟩
        exact ⟨⟨rfl, rfl⟩, rfl, rfl⟩
    · rw [if_neg hgate] at h
      cases h
      exact iff_of_false List.not_mem_nil fun h => hgate h.2.2.2.1
  sameKey := Gives.sameKey
  unique := Gives.unique

def primitiveKey (r : Row) : Text × Text := (field r (txt "mode"), field r (txt "alg"))

/-- The three operations of a row are one measurement, and its first column stands for it. -/
def GivesPrimitive (r : Row) (c : PrimitiveCell) (build : Text) (k : ℕ) (v : ℚ) : Prop :=
  c.2.2 ∈ [1, 2, 3] ∧
    Gives primitiveKey (txt "op1") (opColumn c.2.2) r (c.1, c.2.1) build k v

theorem primitiveEntry_reading : Reading primitiveEntry primitiveKey GivesPrimitive where
  mem_iff {r es} h c b k v := by
    obtain ⟨m, a, i⟩ := c
    unfold primitiveEntry at h
    by_cases hgate : truthy (r (txt "op1")) = true
    · rw [if_pos hgate] at h
      rw [mem_iff_of_mapM_ok h]
      constructor
      · rintro ⟨j, hj, hread⟩
        obtain ⟨x, hx, hread⟩ := bind_ok_iff.mp hread
        obtain ⟨n, hn, hread⟩ := bind_ok_iff.mp hread
        cases hread
        exact ⟨hj, rfl, rfl, hn, hgate, hx⟩
      · rintro ⟨hi, hkey, rfl, hn, _, hx⟩
        obtain ⟨rfl, rfl⟩ := Prod.mk.inj hkey
        exact ⟨i, hi, bind_ok_iff.mpr ⟨v, hx, bind_ok_iff.mpr ⟨k, hn, rfl⟩⟩⟩
    · rw [if_neg hgate] at h
      cases h
      exact iff_of_false List.not_mem_nil fun h => hgate h.2.2.2.2.1
  sameKey hv hw := hv.2.sameKey hw.2
  unique hv hw := hv.2.unique hw.2

namespace Reading

variable {κ μ : Type} {entry : Row → Py (List ((κ × Text) × ℕ × ℚ))} {key : Row → μ}
  {gives : Row → κ → Text → ℕ → ℚ → Prop} (hread : Reading entry key gives)

include hread

theorem mem_flatten_iff {rows : List Row} {es : List (List ((κ × Text) × ℕ × ℚ))}
    (hes : rows.mapM entry = .ok es) (c : κ) (b : Text) (k : ℕ) (v : ℚ) :
    ((c, b), k, v) ∈ es.flatten ↔ ∃ r ∈ rows, gives r c b k v := by
  rw [List.mem_flatten]
  constructor
  · rintro ⟨e, he, hmem⟩
    obtain ⟨r, hr, hre⟩ := (mem_iff_of_mapM_ok hes e).mp he
    exact ⟨r, hr, (hread.mem_iff hre c b k v).mp hmem⟩
  · rintro ⟨r, hr, hgives⟩
    obtain ⟨e, hre⟩ := exists_mapM_ok_iff.mp ⟨es, hes⟩ r hr
    exact ⟨e, (mem_iff_of_mapM_ok hes e).mpr ⟨r, hr, hre⟩, (hread.mem_iff hre c b k v).mpr hgives⟩

-- Rows with different keys never assign to one place, and a row assigns to a place once.
theorem functional {rows : List Row} {es : List (List ((κ × Text) × ℕ × ℚ))}
    (hes : rows.mapM entry = .ok es) (hkeys : DistinctKeys key rows) :
    Dict.Functional es.flatten := by
  rintro ⟨c, b⟩ k v w hv hw
  obtain ⟨r, hr, hrv⟩ := (hread.mem_flatten_iff hes c b k v).mp hv
  obtain ⟨r', hr', hrw⟩ := (hread.mem_flatten_iff hes c b k w).mp hw
  by_cases hsame : r = r'
  · subst hsame
    exact hread.unique hrv hrw
  · have hsymm : Std.Symm fun r r' => ¬ SameKey key r r' :=
      ⟨fun a b hab hba => hab ⟨hba.1.symm, hba.2.1.symm, hba.2.2.imp fun _ h => h.symm⟩⟩
    exact absurd (hread.sameKey hrv hrw) (hkeys.forall hr hr' hsame)

end Reading

/-! ## The rows of a table -/

section IsRow

variable {κ : Type} [DecidableEq κ]

/-- The ratios are taken over the common repetitions, by `f` of the two values. -/
def RatiosBy (f : ℚ → ℚ → ℚ) (ratio : Dict ℕ ℚ → Dict ℕ ℚ → Py (List ℚ)) : Prop :=
  ∀ q s rs, ratio q s = .ok rs →
    rs = (Dict.commonKeys q s).map fun k => f ((q.lookup k).getD 0) ((s.lookup k).getD 0)

theorem ratiosBy_paired : RatiosBy (fun v w => v / w) Dict.paired := by
  intro q s rs h
  have hne := (Dict.exists_ratios_iff _ q s).mp ⟨rs, h⟩
  exact Except.ok.inj (h.symm.trans (Dict.ratios_eq hne))

theorem ratiosBy_handshakeRatios : RatiosBy (fun v w => w / v) handshakeRatios := by
  intro q s rs h
  have hne := (Dict.exists_ratios_iff _ s q).mp ⟨rs, h⟩
  exact Except.ok.inj (h.symm.trans (Dict.ratios_eq hne))

theorem eq_of_mean {xs : List ℚ} {m : ℚ} (h : mean xs = .ok m) : m = xs.sum / xs.length := by
  unfold mean at h
  split at h
  · cases h
  · exact (Except.ok.inj h).symm

/-- Dictionaries with the same items in every cell. -/
def SameCells (c c' : Cells κ) : Prop := ∀ key, (c.sub key).Same (c'.sub key)

theorem pairRow_congr {ratio : Dict ℕ ℚ → Dict ℕ ℚ → Py (List ℚ)}
    (hratio : ∀ {q q' s s' : Dict ℕ ℚ}, q.Same q' → s.Same s' → ratio q s = ratio q' s')
    {c c' : Cells κ} (h : SameCells c c') : pairRow ratio c = pairRow ratio c' := by
  funext cell
  have hq := h (cell, qudoName)
  have hs := h (cell, stockName)
  simp only [pairRow]
  rw [hq.isEmpty_eq, hs.isEmpty_eq, hratio hq hs, mean_congr hq.values_perm,
    mean_congr hs.values_perm]

theorem paired_congr {q q' s s' : Dict ℕ ℚ} (hq : q.Same q') (hs : s.Same s') :
    Dict.paired q s = Dict.paired q' s' := by
  rw [Dict.paired, Dict.paired, Dict.commonKeys_congr hq hs, Dict.ratios_congr _ hq hs]

theorem handshakeRatios_congr {q q' s s' : Dict ℕ ℚ} (hq : q.Same q') (hs : s.Same s') :
    handshakeRatios q s = handshakeRatios q' s' := by
  rw [handshakeRatios, handshakeRatios, Dict.commonKeys_congr hq hs, Dict.ratios_congr _ hs hq]

theorem primitiveRow_congr {c c' : Cells PrimitiveCell} (h : SameCells c c') :
    primitiveRow c = primitiveRow c' := by
  funext cell
  have hq := h (cell, qudoName)
  have hs := h (cell, stockName)
  simp only [primitiveRow]
  rw [hq.isEmpty_eq, hs.isEmpty_eq, paired_congr hq hs, mean_congr hq.values_perm,
    mean_congr hs.values_perm]

end IsRow

-- The values at a common repetition are those of the entries.
theorem both_of_mem_commonKeys {κ : Type} [DecidableEq κ] {es : List ((κ × Text) × ℕ × ℚ)}
    (hfun : Dict.Functional es) {cell : κ} {k : ℕ}
    (hk : k ∈ Dict.commonKeys ((Dict.collect es).sub (cell, qudoName))
      ((Dict.collect es).sub (cell, stockName))) :
    Both es cell k ((((Dict.collect es).sub (cell, qudoName)).lookup k).getD 0)
      ((((Dict.collect es).sub (cell, stockName)).lookup k).getD 0) := by
  obtain ⟨v, w, hv, hw⟩ := (mem_commonKeys_collect hfun cell k).mp hk
  rw [(Dict.lookup_sub_collect hfun _ _ _).mpr hv, (Dict.lookup_sub_collect hfun _ _ _).mpr hw]
  exact ⟨hv, hw⟩

/-! ## Nothing lost, doubled or mispaired -/

/-- A table against the values it was made from: one row for each cell in which some repetition has
a value of both builds, none for any other, and in each row the mean over exactly those
repetitions. -/
structure FaithfulTable {κ : Type} (given : κ → Text → ℕ → ℚ → Prop) (f : ℚ → ℚ → ℚ)
    (table : List (TableRow κ)) : Prop where
  once : (table.map TableRow.cell).Nodup
  complete : ∀ c, c ∈ table.map TableRow.cell ↔
    ∃ k v w, given c qudoName k v ∧ given c stockName k w
  paired : ∀ r ∈ table, ∃ (ks : List ℕ) (q s : ℕ → ℚ), ks.Nodup ∧
    (∀ k, k ∈ ks ↔ ∃ v w, given r.cell qudoName k v ∧ given r.cell stockName k w) ∧
    (∀ k ∈ ks, given r.cell qudoName k (q k) ∧ given r.cell stockName k (s k)) ∧
    r.ratio = (ks.map fun k => f (q k) (s k)).sum / ks.length

/-- What the parts of a section have to satisfy for its table to be faithful. -/
structure Section {κ μ ρ : Type} [DecidableEq κ] (entry : Row → Py (List ((κ × Text) × ℕ × ℚ)))
    (cells : Cells κ → List κ) (row : Cells κ → κ → Py (Option ρ)) (key : Row → μ)
    (gives : Row → κ → Text → ℕ → ℚ → Prop) (ratio : Dict ℕ ℚ → Dict ℕ ℚ → Py (List ℚ))
    (f : ℚ → ℚ → ℚ) (name : ρ → TableRow κ) : Prop where
  reading : Reading entry key gives
  empty : cells ∅ = []
  nodup : ∀ c, (cells c).Nodup
  perm : ∀ {es es'}, es.Perm es' → cells (Dict.collect es) = cells (Dict.collect es')
  congr : ∀ {c c'}, SameCells c c' → row c = row c'
  isRow : ∀ {c k r}, row c k = .ok (some r) → IsRow ratio c k (name r)
  ratiosBy : RatiosBy f ratio
  some_iff : ∀ {es}, Dict.Functional es → ∀ {k}, (∃ o, row (Dict.collect es) k = .ok o) →
    ((∃ r, row (Dict.collect es) k = .ok (some r)) ↔ ∃ n v w, Both es k n v w)
  measured : ∀ {rows : List Row} {es}, rows.mapM entry = .ok es →
    ∀ {k}, Measured es.flatten k qudoName →
      k ∈ cells (Dict.collect es.flatten)

namespace Section

variable {κ μ ρ : Type} [DecidableEq κ] {entry : Row → Py (List ((κ × Text) × ℕ × ℚ))}
  {cells : Cells κ → List κ} {row : Cells κ → κ → Py (Option ρ)} {key : Row → μ}
  {gives : Row → κ → Text → ℕ → ℚ → Prop} {ratio : Dict ℕ ℚ → Dict ℕ ℚ → Py (List ℚ)}
  {f : ℚ → ℚ → ℚ} {name : ρ → TableRow κ}
  (S : Section entry cells row key gives ratio f name)

include S

-- The cells of the printed rows, in the order of the loop, are some of the cells looped over.
theorem cells_sublist {c : Cells κ} {ks : List κ} {outs : List (Option ρ)}
    (h : ks.mapM (row c) = .ok outs) :
    (outs.reduceOption.map fun r => (name r).cell).Sublist ks := by
  rw [mapM_ok_iff_forall₂] at h
  induction h with
  | nil => exact List.Sublist.slnil
  | @cons k o ks outs hrow _ ih =>
      cases o with
      | none => exact ih.cons k
      | some r =>
          rw [List.reduceOption_cons_of_some, List.map_cons, (S.isRow hrow).cell_eq]
          exact ih.cons_cons k

theorem mem_cells_iff {es : List ((κ × Text) × ℕ × ℚ)} {outs : List (Option ρ)}
    (houts : (cells (Dict.collect es)).mapM (row (Dict.collect es)) = .ok outs) (k : κ) :
    k ∈ outs.reduceOption.map (fun r => (name r).cell) ↔
      k ∈ cells (Dict.collect es) ∧ ∃ r, row (Dict.collect es) k = .ok (some r) := by
  simp only [List.mem_map, List.reduceOption_mem_iff, mem_iff_of_mapM_ok houts]
  constructor
  · rintro ⟨r, ⟨k', hk', hr⟩, rfl⟩
    rw [(S.isRow hr).cell_eq]
    exact ⟨hk', r, hr⟩
  · rintro ⟨hk, r, hr⟩
    exact ⟨r, ⟨k, hk, hr⟩, (S.isRow hr).cell_eq⟩

theorem faithful {rows : List Row} {out : Option (List ρ)} (hkeys : DistinctKeys key rows)
    (h : tableRows entry cells row rows = .ok out) :
    FaithfulTable (fun c b k v => ∃ r ∈ rows, gives r c b k v) f ((out.getD []).map name) := by
  obtain ⟨c, outs, hc, houts, hout⟩ := tableRows_ok S.empty h
  obtain ⟨es, hes, rfl⟩ := gather_ok_iff.mp hc
  have hfun := S.reading.functional hes hkeys
  have hgiven := S.reading.mem_flatten_iff hes
  have hrows := exists_mapM_ok_iff.mp ⟨outs, houts⟩
  have hcells : ((out.getD []).map name).map TableRow.cell =
      outs.reduceOption.map fun r => (name r).cell := by
    rw [hout, List.map_map]
    rfl
  refine ⟨?_, fun k => ?_, ?_⟩
  · rw [hcells]
    exact (S.nodup _).sublist (S.cells_sublist houts)
  · have hboth : (∃ n v w, Both es.flatten k n v w) ↔
        ∃ n v w, (∃ r ∈ rows, gives r k qudoName n v) ∧ ∃ r ∈ rows, gives r k stockName n w := by
      simp only [Both, hgiven]
    rw [hcells, S.mem_cells_iff houts, ← hboth]
    constructor
    · rintro ⟨hk, hsome⟩
      exact (S.some_iff hfun (hrows k hk)).mp hsome
    · rintro ⟨n, v, w, hvw⟩
      have hk := S.measured hes ⟨n, v, hvw.1⟩
      exact ⟨hk, (S.some_iff hfun (hrows k hk)).mpr ⟨n, v, w, hvw⟩⟩
  · intro r hr
    rw [hout] at hr
    obtain ⟨o, ho, rfl⟩ := List.mem_map.mp hr
    obtain ⟨k, hk, hrow⟩ := (mem_iff_of_mapM_ok houts _).mp (List.reduceOption_mem_iff.mp ho)
    have his := S.isRow hrow
    obtain ⟨rs, hrs, hmean⟩ := his.ratio_eq
    have hmeans := eq_of_mean hmean
    rw [S.ratiosBy _ _ _ hrs, List.length_map] at hmeans
    rw [his.cell_eq]
    refine ⟨_, _, _, Dict.nodup_commonKeys _ _, fun n => ?_, fun n hn => ?_, hmeans⟩
    · rw [mem_commonKeys_collect hfun]
      simp only [Both, hgiven]
    · have hpair := both_of_mem_commonKeys hfun hn
      exact ⟨(hgiven _ _ _ _).mp hpair.1, (hgiven _ _ _ _).mp hpair.2⟩

theorem isRow_of_mem {rows : List Row} {out : Option (List ρ)} {c : Cells κ} {r : ρ}
    (hc : gather entry rows = .ok c) (h : tableRows entry cells row rows = .ok out)
    (hr : r ∈ out.getD []) : IsRow ratio c (name r).cell (name r) := by
  rw [mem_tableRows_iff S.empty hc h] at hr
  obtain ⟨k, _, hrow⟩ := hr
  have his := S.isRow hrow
  rwa [his.cell_eq]

theorem perm_eq {rows rows' : List Row} {out : Option (List ρ)} (hkeys : DistinctKeys key rows)
    (hperm : rows.Perm rows') (h : tableRows entry cells row rows = .ok out) :
    tableRows entry cells row rows' = .ok out := by
  obtain ⟨c, _, hc, _, _⟩ := tableRows_ok S.empty h
  obtain ⟨es, hes, rfl⟩ := gather_ok_iff.mp hc
  obtain ⟨es', hes', hp⟩ := mapM_ok_perm hperm.symm hes
  have hflat : es.flatten.Perm es'.flatten := hp.symm.flatten
  have hsame : SameCells (Dict.collect es.flatten) (Dict.collect es'.flatten) :=
    fun k => Dict.collect_same (S.reading.functional hes hkeys) hflat k
  have hnil : rows = [] ↔ rows' = [] := by
    rw [← List.length_eq_zero_iff, ← List.length_eq_zero_iff, hperm.length_eq]
  rw [← h]
  exact (tableRows_congr hnil hc (gather_ok_iff.mpr ⟨es', hes', rfl⟩) (S.perm hflat)
    (S.congr hsame)).symm

end Section

theorem pairSection {cell : Row → Text × Text} {value : Text}
    {ratio : Dict ℕ ℚ → Dict ℕ ℚ → Py (List ℚ)} {divisor f : ℚ → ℚ → ℚ}
    (hdivides : DividesBy divisor ratio) (hby : RatiosBy f ratio)
    (hcongr : ∀ {q q' s s' : Dict ℕ ℚ}, q.Same q' → s.Same s' → ratio q s = ratio q' s') :
    Section (entry cell value) cellKeys (pairRow ratio) cell (Gives cell value value) ratio f
      id where
  reading := entry_reading cell value
  empty := by decide
  nodup := nodup_cellKeys
  perm := cellKeys_collect_congr
  congr := pairRow_congr hcongr
  isRow := isRow_of_pairRow
  ratiosBy := hby
  some_iff hfun _ := exists_some_pairRow_iff hfun hdivides
  measured _ _ := mem_cellKeys_of_measured

theorem primitiveSection : Section primitiveEntry primitiveCells primitiveRow primitiveKey
    GivesPrimitive Dict.paired (fun v w => v / w) Prod.fst where
  reading := primitiveEntry_reading
  empty := by decide
  nodup := nodup_primitiveCells
  perm := primitiveCells_collect_congr
  congr := primitiveRow_congr
  isRow := isRow_of_primitiveRow
  ratiosBy := ratiosBy_paired
  some_iff hfun _ := exists_some_primitiveRow_iff hfun
  measured {rows es} hes k := by
    refine mem_primitiveCells_of_measured fun c b n v hv => ?_
    obtain ⟨r, _, hr⟩ := (primitiveEntry_reading.mem_flatten_iff hes c b n v).mp hv
    exact hr.1

def handshakeKey (r : Row) : Text × Text := (field r (txt "mode"), field r (txt "group"))

def resumptionKey (r : Row) : Text × Text := (field r (txt "test"), field r (txt "side"))

theorem handshakeSection : Section handshakeEntry cellKeys (pairRow handshakeRatios) handshakeKey
    (Gives handshakeKey (txt "us_per_handshake") (txt "us_per_handshake")) handshakeRatios
    (fun v w => w / v) id :=
  pairSection dividesBy_handshakeRatios ratiosBy_handshakeRatios handshakeRatios_congr

theorem resumptionSection : Section resumptionEntry cellKeys (pairRow Dict.paired) resumptionKey
    (Gives resumptionKey (txt "handshakes_per_s") (txt "handshakes_per_s")) Dict.paired
    (fun v w => v / w) id :=
  pairSection dividesBy_paired ratiosBy_paired paired_congr

/-- In each of the three tables every comparable cell has one row, made from exactly the repetitions
that both builds have, and the order of the rows in the file makes no difference.  A row of the
primitives counts when its first operation is there. -/
theorem tables_faithful (rows : List Row) :
    (DistinctKeys primitiveKey rows → ∀ out, primitivesTable rows = .ok out →
        FaithfulTable (fun c b k v => ∃ r ∈ rows, GivesPrimitive r c b k v) (fun v w => v / w)
            ((out.getD []).map Prod.fst) ∧
          ∀ rows', rows.Perm rows' → primitivesTable rows' = .ok out) ∧
      (DistinctKeys handshakeKey rows → ∀ out, handshakeTable rows = .ok out →
        FaithfulTable (fun c b k v => ∃ r ∈ rows,
            Gives handshakeKey (txt "us_per_handshake") (txt "us_per_handshake") r c b k v)
            (fun v w => w / v) (out.getD []) ∧
          ∀ rows', rows.Perm rows' → handshakeTable rows' = .ok out) ∧
      (DistinctKeys resumptionKey rows → ∀ out, resumptionTable rows = .ok out →
        FaithfulTable (fun c b k v => ∃ r ∈ rows,
            Gives resumptionKey (txt "handshakes_per_s") (txt "handshakes_per_s") r c b k v)
            (fun v w => v / w) (out.getD []) ∧
          ∀ rows', rows.Perm rows' → resumptionTable rows' = .ok out) := by
  refine ⟨fun hkeys out h => ?_, fun hkeys out h => ?_, fun hkeys out h => ?_⟩
  · exact ⟨primitiveSection.faithful hkeys h, fun _ hp => primitiveSection.perm_eq hkeys hp h⟩
  · have hfaithful := handshakeSection.faithful hkeys h
    rw [List.map_id] at hfaithful
    exact ⟨hfaithful, fun _ hp => handshakeSection.perm_eq hkeys hp h⟩
  · have hfaithful := resumptionSection.faithful hkeys h
    rw [List.map_id] at hfaithful
    exact ⟨hfaithful, fun _ hp => resumptionSection.perm_eq hkeys hp h⟩

instance : DecidableEq (TableRow PrimitiveCell × Verdict) := inferInstance

theorem distinctKeys_of_nodup {μ : Type} {key : Row → μ} {rows : List Row}
    (h : (rows.map fun r => (key r, field r (txt "build"), int (r (txt "rep")))).Nodup) :
    DistinctKeys key rows := by
  refine (List.pairwise_map.mp h).imp fun hne hsame => hne ?_
  obtain ⟨hkey, hbuild, k, hk, hk'⟩ := hsame
  rw [hkey, hbuild, hk, hk']

/-- A row with every column, whose measurements are all the same text. -/
def uniformRow (mode test build : Text) (k : ℕ) (v : Text) : Row :=
  dictRow [txt "build", txt "rep", txt "mode", txt "alg", txt "group", txt "test", txt "side",
      txt "op1", txt "op2", txt "op3", txt "us_per_handshake", txt "handshakes_per_s"]
    [build, decimal k, mode, txt "ML-KEM-768", txt "X25519", test, txt "server", v, v, v, v, v]

/-- Two repetitions that both builds have, out of order; a third that only qudossl has, a fourth
where its value is empty, and another cell that only OpenSSL has. -/
def gappedRows : List Row :=
  [uniformRow (txt "pure") (txt "handshake") qudoName 1 (txt "8"),
    uniformRow (txt "pure") (txt "handshake") stockName 2 (txt "2"),
    uniformRow (txt "pure") (txt "handshake") qudoName 3 (txt "9"),
    uniformRow (txt "hybrid") (txt "resume") stockName 1 (txt "7"),
    uniformRow (txt "pure") (txt "handshake") stockName 4 (txt "5"),
    uniformRow (txt "pure") (txt "handshake") qudoName 4 [],
    uniformRow (txt "pure") (txt "handshake") qudoName 2 (txt "6"),
    uniformRow (txt "pure") (txt "handshake") stockName 1 (txt "4")]

theorem gappedRows_tables :
    primitivesTable gappedRows = .ok (some
        [(⟨(txt "pure", txt "ML-KEM-768", 1), 23 / 3, 11 / 3, 5 / 2⟩, .short 2),
          (⟨(txt "pure", txt "ML-KEM-768", 2), 23 / 3, 11 / 3, 5 / 2⟩, .short 2),
          (⟨(txt "pure", txt "ML-KEM-768", 3), 23 / 3, 11 / 3, 5 / 2⟩, .short 2)]) ∧
      handshakeTable gappedRows =
        .ok (some [⟨(txt "pure", txt "X25519"), 23 / 3, 11 / 3, 5 / 12⟩]) ∧
      resumptionTable gappedRows =
        .ok (some [⟨(txt "handshake", txt "server"), 23 / 3, 11 / 3, 5 / 2⟩]) :=
  ⟨by decide +kernel, by decide +kernel, by decide +kernel⟩

-- In either order the ratio is made from the first two repetitions.
theorem tables_faithful_gapped :
    FaithfulTable (fun c b k v => ∃ r ∈ gappedRows, GivesPrimitive r c b k v) (fun v w => v / w)
        [⟨(txt "pure", txt "ML-KEM-768", 1), 23 / 3, 11 / 3, 5 / 2⟩,
          ⟨(txt "pure", txt "ML-KEM-768", 2), 23 / 3, 11 / 3, 5 / 2⟩,
          ⟨(txt "pure", txt "ML-KEM-768", 3), 23 / 3, 11 / 3, 5 / 2⟩] ∧
      FaithfulTable (fun c b k v => ∃ r ∈ gappedRows,
          Gives handshakeKey (txt "us_per_handshake") (txt "us_per_handshake") r c b k v)
        (fun v w => w / v) [⟨(txt "pure", txt "X25519"), 23 / 3, 11 / 3, 5 / 12⟩] ∧
      FaithfulTable (fun c b k v => ∃ r ∈ gappedRows,
          Gives resumptionKey (txt "handshakes_per_s") (txt "handshakes_per_s") r c b k v)
        (fun v w => v / w) [⟨(txt "handshake", txt "server"), 23 / 3, 11 / 3, 5 / 2⟩] ∧
      primitivesTable gappedRows.reverse = primitivesTable gappedRows ∧
      handshakeTable gappedRows.reverse = handshakeTable gappedRows ∧
      resumptionTable gappedRows.reverse = resumptionTable gappedRows := by
  have hp : DistinctKeys primitiveKey gappedRows := distinctKeys_of_nodup (by decide +kernel)
  have hh : DistinctKeys handshakeKey gappedRows := distinctKeys_of_nodup (by decide +kernel)
  have hr : DistinctKeys resumptionKey gappedRows := distinctKeys_of_nodup (by decide +kernel)
  have hperm := (List.reverse_perm gappedRows).symm
  obtain ⟨ep, eh, er⟩ := gappedRows_tables
  obtain ⟨primitives, handshakes, resumptions⟩ := tables_faithful gappedRows
  obtain ⟨fp, rp⟩ := primitives hp _ ep
  obtain ⟨fh, rh⟩ := handshakes hh _ eh
  obtain ⟨fr, rr⟩ := resumptions hr _ er
  exact ⟨fp, fh, fr, (rp _ hperm).trans ep.symm, (rh _ hperm).trans eh.symm,
    (rr _ hperm).trans er.symm⟩

/-- A row of the primitives that lacks the first operation and has the other two. -/
def withoutFirst (build : Text) : Row :=
  dictRow primitiveColumns
    [txt "1", build, txt "pure", txt "ML-KEM-768", [], txt "10", txt "20"]

/-- Both builds have the second operation, and the table has no row for it. -/
theorem primitivesTable_drops_row :
    DistinctKeys primitiveKey [withoutFirst qudoName, withoutFirst stockName] ∧
      primitivesTable [withoutFirst qudoName, withoutFirst stockName] = .ok (some []) ∧
      ¬ FaithfulTable (fun c b k v => ∃ r ∈ [withoutFirst qudoName, withoutFirst stockName],
          c.2.2 ∈ [1, 2, 3] ∧
            Gives primitiveKey (opColumn c.2.2) (opColumn c.2.2) r (c.1, c.2.1) b k v)
        (fun v w => v / w) ([] : List (TableRow PrimitiveCell)) := by
  refine ⟨distinctKeys_of_nodup (by decide +kernel), by decide +kernel, fun h => ?_⟩
  have hgives : ∀ b, Gives primitiveKey (opColumn 2) (opColumn 2) (withoutFirst b)
      (txt "pure", txt "ML-KEM-768") b 1 10 := by
    have hten : float (some (txt "10")) = .ok 10 := by decide +kernel
    exact fun b => ⟨rfl, rfl, rfl, rfl, hten⟩
  have hrow := (h.complete (txt "pure", txt "ML-KEM-768", 2)).mpr
    ⟨1, 10, 10, ⟨_, by simp, by decide, hgives qudoName⟩, ⟨_, by simp, by decide, hgives stockName⟩⟩
  exact List.not_mem_nil hrow

end QudoSSL
