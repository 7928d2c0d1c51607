import Mathlib.Algebra.BigOperators.Group.List.Basic
import Mathlib.Data.List.AList
import Mathlib.Data.List.Dedup
import Mathlib.Data.List.Sort
import QudoSSL.Python.Values

/-!
# Dictionaries of measurements

Python's dictionaries as `AList`s, `defaultdict(dict)` filled by a loop of assignments, and the
pairing of two dictionaries over their common keys.
-/

namespace Python

open Posix

abbrev Dict (κ α : Type) := AList (fun _ : κ => α)

namespace Dict

variable {κ ι α : Type}

def values (d : Dict κ α) : List α := d.entries.map Sigma.snd

theorem entries_ne_nil_iff (d : Dict κ α) : d.entries ≠ [] ↔ ∃ k, k ∈ d := by
  constructor
  · intro h
    obtain ⟨e, es, he⟩ := List.exists_cons_of_ne_nil h
    exact ⟨e.1, AList.mem_keys.mpr (by simp [AList.keys, List.keys, he])⟩
  · rintro ⟨k, hk⟩ h
    rw [AList.mem_keys] at hk
    simp [AList.keys, List.keys, h] at hk

variable [DecidableEq κ] [DecidableEq ι]

/-- `d.get(k)`; a missing dictionary and an empty one are both false, and nothing else is asked of
either. -/
def sub (d : Dict κ (Dict ι α)) (k : κ) : Dict ι α := (d.lookup k).getD ∅

/-- `d[k][i] = v` on a `defaultdict(dict)`. -/
def store (d : Dict κ (Dict ι α)) (k : κ) (i : ι) (v : α) : Dict κ (Dict ι α) :=
  d.insert k ((d.sub k).insert i v)

/-- The loop of assignments, from the empty dictionary. -/
def collect (es : List (κ × ι × α)) : Dict κ (Dict ι α) :=
  es.foldl (fun d e => d.store e.1 e.2.1 e.2.2) ∅

theorem lookup_sub_store (d : Dict κ (Dict ι α)) (k k' : κ) (i i' : ι) (v : α) :
    ((d.store k i v).sub k').lookup i' =
      if k' = k ∧ i' = i then some v else (d.sub k').lookup i' := by
  unfold store
  by_cases hk : k' = k
  · subst hk
    by_cases hi : i' = i
    · subst hi
      simp [sub]
    · simp [sub, hi, AList.lookup_insert_ne hi]
  · simp [sub, hk, AList.lookup_insert_ne hk]

/-- No two assignments to one place differ. -/
def Functional (es : List (κ × ι × α)) : Prop :=
  ∀ k i v w, (k, i, v) ∈ es → (k, i, w) ∈ es → v = w

theorem lookup_sub_collect {es : List (κ × ι × α)} (hfun : Functional es) (k : κ) (i : ι) (v : α) :
    ((collect es).sub k).lookup i = some v ↔ (k, i, v) ∈ es := by
  induction es using List.reverseRecOn with
  | nil => simp [collect, sub]
  | append_singleton es e ih =>
      have hfun' : Functional es := fun k i v w hv hw =>
        hfun k i v w (List.mem_append_left _ hv) (List.mem_append_left _ hw)
      obtain ⟨k', i', v'⟩ := e
      rw [collect, List.foldl_append]
      change ((store (collect es) k' i' v').sub k).lookup i = some v ↔ _
      rw [lookup_sub_store]
      by_cases hsame : k = k' ∧ i = i'
      · obtain ⟨rfl, rfl⟩ := hsame
        have hlast : (k, i, v') ∈ es ++ [(k, i, v')] := by simp
        simp only [and_self, if_true, Option.some.injEq]
        constructor
        · rintro rfl
          exact hlast
        · exact fun hv => hfun k i v' v hlast hv
      · have hne : (k, i, v) ≠ (k', i', v') := by
          intro h
          simp only [Prod.mk.injEq] at h
          exact hsame ⟨h.1, h.2.1⟩
        rw [if_neg hsame, ih hfun']
        simp [hne]

theorem mem_keys_collect (es : List (κ × ι × α)) (k : κ) :
    k ∈ (collect es).keys ↔ ∃ i v, (k, i, v) ∈ es := by
  induction es using List.reverseRecOn with
  | nil => simp [collect]
  | append_singleton es e ih =>
      obtain ⟨k', i', v'⟩ := e
      rw [collect, List.foldl_append, ← AList.mem_keys]
      change k ∈ store (collect es) k' i' v' ↔ _
      rw [store, AList.mem_insert, AList.mem_keys, ih]
      constructor
      · rintro (rfl | ⟨i, v, h⟩)
        · exact ⟨i', v', by simp⟩
        · exact ⟨i, v, List.mem_append_left _ h⟩
      · rintro ⟨i, v, h⟩
        rcases List.mem_append.mp h with h | h
        · exact Or.inr ⟨i, v, h⟩
        · rw [List.mem_singleton, Prod.mk.injEq] at h
          exact Or.inl h.1

theorem mem_sub_collect {es : List (κ × ι × α)} (hfun : Functional es) (k : κ) (i : ι) :
    i ∈ (collect es).sub k ↔ ∃ v, (k, i, v) ∈ es := by
  rw [← AList.lookup_isSome, Option.isSome_iff_exists]
  exact exists_congr fun v => lookup_sub_collect hfun k i v

theorem values_eq (d : Dict ι α) (a : α) : d.values = d.keys.map fun i => (d.lookup i).getD a := by
  show d.entries.map Sigma.snd = (d.entries.map Sigma.fst).map _
  rw [List.map_map]
  refine List.map_congr_left fun e he => ?_
  show e.2 = (d.lookup e.1).getD a
  rw [show d.lookup e.1 = some e.2 from List.mem_dlookup d.nodupKeys he, Option.getD_some]

/-! ## Dictionaries with the same items -/

/-- The same items, in whatever order they were stored. -/
def Same (d d' : Dict ι α) : Prop := ∀ i, d.lookup i = d'.lookup i

namespace Same

variable {d d' : Dict ι α} (h : d.Same d')

include h

theorem entries_perm : d.entries.Perm d'.entries :=
  List.lookup_ext d.nodupKeys d'.nodupKeys fun i v => by
    rw [show d.entries.dlookup i = d'.entries.dlookup i from h i]

theorem keys_perm : d.keys.Perm d'.keys := h.entries_perm.map Sigma.fst

theorem values_perm : d.values.Perm d'.values := by
  unfold values
  exact h.entries_perm.map _

theorem mem_iff (i : ι) : i ∈ d ↔ i ∈ d' := by
  rw [← AList.lookup_isSome, ← AList.lookup_isSome, h i]

theorem isEmpty_eq : d.entries.isEmpty = d'.entries.isEmpty := by
  rw [Bool.eq_iff_iff, List.isEmpty_iff, List.isEmpty_iff]
  exact ⟨fun hd => (hd ▸ h.entries_perm).nil_eq.symm, fun hd => (hd ▸ h.entries_perm).eq_nil⟩

end Same

omit [DecidableEq κ] [DecidableEq ι] in
theorem Functional.perm {es es' : List (κ × ι × α)} (hfun : Functional es) (h : es.Perm es') :
    Functional es' :=
  fun k i v w hv hw => hfun k i v w (h.mem_iff.mpr hv) (h.mem_iff.mpr hw)

-- The loop of assignments may meet its rows in any order.
theorem collect_same {es es' : List (κ × ι × α)} (hfun : Functional es) (h : es.Perm es') (k : κ) :
    ((collect es).sub k).Same ((collect es').sub k) := by
  intro i
  refine Option.ext fun v => ?_
  rw [lookup_sub_collect hfun, lookup_sub_collect (hfun.perm h), h.mem_iff]

theorem mem_keys_collect_iff {es es' : List (κ × ι × α)} (h : es.Perm es') (k : κ) :
    k ∈ (collect es).keys ↔ k ∈ (collect es').keys := by
  rw [mem_keys_collect, mem_keys_collect]
  exact exists₂_congr fun i v => h.mem_iff

/-! ## Pairing -/

-- Sorting forgets the order in which a list was given.
theorem insertionSort_congr {κ : Type} (le : κ → κ → Prop) [DecidableRel le] [Std.Total le]
    [IsTrans κ le] [Std.Antisymm le] {l l' : List κ} (h : l.Perm l') :
    l.insertionSort le = l'.insertionSort le :=
  List.Perm.eq_of_pairwise' (List.pairwise_insertionSort le l) (List.pairwise_insertionSort le l')
    ((List.perm_insertionSort le l).trans (h.trans (List.perm_insertionSort le l').symm))

def commonKeys (a b : Dict ℕ α) : List ℕ :=
  -- sorted(set(a) & set(b))
  (a.keys.filter (· ∈ b)).insertionSort (· ≤ ·)

theorem mem_commonKeys (a b : Dict ℕ α) (k : ℕ) : k ∈ commonKeys a b ↔ k ∈ a ∧ k ∈ b := by
  simp [commonKeys, AList.mem_keys]

theorem nodup_commonKeys (a b : Dict ℕ α) : (commonKeys a b).Nodup :=
  (List.perm_insertionSort _ _).nodup_iff.mpr (a.keys_nodup.filter _)

-- Two dictionaries over the same keys have all of them in common.
theorem commonKeys_perm_keys {a b : Dict ℕ α} (h : ∀ k, k ∈ a ↔ k ∈ b) :
    (commonKeys a b).Perm a.keys := by
  refine (List.perm_insertionSort _ _).trans (List.Perm.of_eq (List.filter_eq_self.mpr ?_))
  exact fun k hk => decide_eq_true ((h k).mp (AList.mem_keys.mpr hk))

theorem commonKeys_comm (a b : Dict ℕ α) : commonKeys a b = commonKeys b a := by
  refine insertionSort_congr _ ?_
  rw [List.perm_ext_iff_of_nodup (a.keys_nodup.filter _) (b.keys_nodup.filter _)]
  intro k
  simp only [List.mem_filter, decide_eq_true_eq, ← AList.mem_keys, and_comm]

def ratios (ks : List ℕ) (a b : Dict ℕ ℚ) : Py (List ℚ) :=
  -- [a[k] / b[k] for k in ks]
  ks.mapM fun k => div ((a.lookup k).getD 0) ((b.lookup k).getD 0)

def paired (a b : Dict ℕ ℚ) : Py (List ℚ) := ratios (commonKeys a b) a b

theorem commonKeys_congr {a a' b b' : Dict ℕ α} (ha : a.Same a') (hb : b.Same b') :
    commonKeys a b = commonKeys a' b' := by
  refine insertionSort_congr _ ?_
  simp only [hb.mem_iff]
  exact ha.keys_perm.filter _

theorem ratios_congr {a a' b b' : Dict ℕ ℚ} (ks : List ℕ) (ha : a.Same a') (hb : b.Same b') :
    ratios ks a b = ratios ks a' b' := by
  unfold ratios
  refine congrArg ks.mapM (funext fun k => ?_)
  rw [ha k, hb k]

theorem exists_ratios_iff (ks : List ℕ) (a b : Dict ℕ ℚ) :
    (∃ rs, ratios ks a b = .ok rs) ↔ ∀ k ∈ ks, (b.lookup k).getD 0 ≠ 0 := by
  rw [ratios, exists_mapM_ok_iff]
  refine forall₂_congr fun k _ => ?_
  by_cases h : (b.lookup k).getD 0 = 0 <;> simp [div, h]

theorem ratios_eq {ks : List ℕ} {a b : Dict ℕ ℚ} (hne : ∀ k ∈ ks, (b.lookup k).getD 0 ≠ 0) :
    ratios ks a b = .ok (ks.map fun k => (a.lookup k).getD 0 / (b.lookup k).getD 0) :=
  mapM_ok_of_forall fun k hk => if_neg (hne k hk)

theorem ratios_eq_nil_iff {ks : List ℕ} {a b : Dict ℕ ℚ} {rs : List ℚ}
    (h : ratios ks a b = .ok rs) : rs = [] ↔ ks = [] := by
  rw [ratios_eq ((exists_ratios_iff ks a b).mp ⟨rs, h⟩)] at h
  rw [← Except.ok.inj h, List.map_eq_nil_iff]

-- The quotients exist and have a mean.
theorem exists_ratios_ne_nil_iff (ks : List ℕ) (a b : Dict ℕ ℚ) :
    (∃ rs, ratios ks a b = .ok rs ∧ rs ≠ []) ↔ ks ≠ [] ∧ ∀ k ∈ ks, (b.lookup k).getD 0 ≠ 0 := by
  rw [← exists_ratios_iff ks a b]
  constructor
  · rintro ⟨rs, hrs, hne⟩
    exact ⟨fun h => hne ((ratios_eq_nil_iff hrs).mpr h), rs, hrs⟩
  · rintro ⟨hne, rs, hrs⟩
    exact ⟨rs, hrs, fun h => hne ((ratios_eq_nil_iff hrs).mp h)⟩

end Dict

def mean (xs : List ℚ) : Py ℚ :=
  -- statistics.mean
  if xs = [] then .error .statisticsError else .ok (xs.sum / xs.length)

theorem exists_mean_iff (xs : List ℚ) : (∃ m, mean xs = .ok m) ↔ xs ≠ [] := by
  by_cases h : xs = [] <;> simp [mean, h]

theorem mean_congr {xs ys : List ℚ} (h : xs.Perm ys) : mean xs = mean ys := by
  unfold mean
  rw [h.sum_eq, h.length_eq]
  exact if_congr ⟨fun hx => (hx ▸ h).nil_eq.symm, fun hy => (hy ▸ h).eq_nil⟩ rfl rfl

/-! ## Sorted sets -/

/-- `sorted` of a set, by the given order. -/
def sortedSet {κ : Type} [DecidableEq κ] (le : κ → κ → Prop) [DecidableRel le] (l : List κ) :
    List κ :=
  l.dedup.insertionSort le

section SortedSet

variable {κ : Type} [DecidableEq κ] (le : κ → κ → Prop) [DecidableRel le]

theorem mem_sortedSet (l : List κ) (k : κ) : k ∈ sortedSet le l ↔ k ∈ l := by
  simp [sortedSet, List.mem_dedup]

theorem nodup_sortedSet (l : List κ) : (sortedSet le l).Nodup :=
  (List.perm_insertionSort le _).nodup_iff.mpr l.nodup_dedup

theorem pairwise_sortedSet [Std.Total le] [IsTrans κ le] (l : List κ) :
    (sortedSet le l).Pairwise fun a b => le a b ∧ a ≠ b :=
  (List.pairwise_insertionSort le _).and (nodup_sortedSet le l)

theorem sortedSet_congr [Std.Total le] [IsTrans κ le] [Std.Antisymm le] {l l' : List κ}
    (h : ∀ k, k ∈ l ↔ k ∈ l') : sortedSet le l = sortedSet le l' := by
  refine Dict.insertionSort_congr le ?_
  rw [List.perm_ext_iff_of_nodup l.nodup_dedup l'.nodup_dedup]
  simpa only [List.mem_dedup] using h

end SortedSet

/-- Comparison of pairs: the first components decide, and the second ones where those are equal. -/
def LexLe {κ α γ : Type} (lt : α → α → Prop) (le : γ → γ → Prop) (f : κ → α) (g : κ → γ)
    (a b : κ) : Prop :=
  lt (f a) (f b) ∨ (f a = f b ∧ le (g a) (g b))

section LexLe

variable {κ α γ : Type} {lt : α → α → Prop} {le : γ → γ → Prop} {f : κ → α} {g : κ → γ}

theorem lexLe_total (hlt : ∀ x y, lt x y ∨ x = y ∨ lt y x) [Std.Total le] :
    Std.Total (LexLe lt le f g) := by
  refine ⟨fun a b => ?_⟩
  rcases hlt (f a) (f b) with h | h | h
  · exact .inl (.inl h)
  · exact (Std.Total.total (g a) (g b)).imp (fun hg => .inr ⟨h, hg⟩) fun hg => .inr ⟨h.symm, hg⟩
  · exact .inr (.inl h)

theorem lexLe_trans (hlt : ∀ x y z, lt x y → lt y z → lt x z) [IsTrans γ le] :
    IsTrans κ (LexLe lt le f g) := by
  refine ⟨fun a b c hab hbc => ?_⟩
  rcases hab with hab | ⟨hab, hab'⟩
  · rcases hbc with hbc | ⟨hbc, _⟩
    · exact .inl (hlt _ _ _ hab hbc)
    · exact .inl (hbc ▸ hab)
  · rcases hbc with hbc | ⟨hbc, hbc'⟩
    · exact .inl (hab ▸ hbc)
    · exact .inr ⟨hab.trans hbc, IsTrans.trans _ _ _ hab' hbc'⟩

theorem lexLe_antisymm (hlt : ∀ x y, lt x y → ¬ lt y x) [Std.Antisymm le]
    (hinj : ∀ a b, f a = f b → g a = g b → a = b) : Std.Antisymm (LexLe lt le f g) := by
  refine ⟨fun a b hab hba => ?_⟩
  rcases hab with hab | ⟨hab, hab'⟩
  · rcases hba with hba | ⟨hba, _⟩
    · exact absurd hba (hlt _ _ hab)
    · exact absurd (hba ▸ hab) (fun h => hlt _ _ h h)
  · rcases hba with hba | ⟨_, hba'⟩
    · exact absurd (hab ▸ hba) (fun h => hlt _ _ h h)
    · exact hinj a b hab (Std.Antisymm.antisymm _ _ hab' hba')

end LexLe

end Python
