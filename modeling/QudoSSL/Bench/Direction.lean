import QudoSSL.Bench.Tables

/-!
# The ratio and the two means of a row

The ratio of a row is the mean of the ratios of its repetitions, and the other two figures are the
means of the builds.  Where the repetitions agree on the faster build, so do the three figures.
-/

namespace QudoSSL

open Posix Python

section Direction

variable {κ : Type} [DecidableEq κ]

/-- Positive measurements, and in every cell the same repetitions for both builds. -/
structure Comparable (c : Cells κ) : Prop where
  pos : ∀ key k v, (c.sub key).lookup k = some v → 0 < v
  same : ∀ cell k, k ∈ c.sub (cell, qudoName) ↔ k ∈ c.sub (cell, stockName)

/-- The measurement of a build in a repetition it has. -/
def measurement (c : Cells κ) (cell : κ) (build : Text) (k : ℕ) : ℚ :=
  ((c.sub (cell, build)).lookup k).getD 0

/-- No two repetitions of the cell favour different builds. -/
def Unanimous (c : Cells κ) (cell : κ) : Prop :=
  (∀ k ∈ c.sub (cell, qudoName),
      measurement c cell qudoName k ≤ measurement c cell stockName k) ∨
    ∀ k ∈ c.sub (cell, qudoName), measurement c cell stockName k ≤ measurement c cell qudoName k

theorem Comparable.measurement_pos {c : Cells κ} (h : Comparable c) {cell : κ} {build : Text}
    {k : ℕ} (hk : k ∈ c.sub (cell, build)) : 0 < measurement c cell build k := by
  obtain ⟨v, hv⟩ := Option.isSome_iff_exists.mp (AList.lookup_isSome.mpr hk)
  rw [measurement, hv]
  exact h.pos _ k v hv

theorem mean_values_eq {c : Cells κ} {cell : κ} {build : Text} {ks : List ℕ} {m : ℚ}
    (hks : ks.Perm (c.sub (cell, build)).keys) (h : mean (c.sub (cell, build)).values = .ok m) :
    m = (ks.map (measurement c cell build)).sum / ks.length := by
  have hperm : (ks.map (measurement c cell build)).Perm (c.sub (cell, build)).values := by
    rw [Dict.values_eq _ 0]
    exact hks.map _
  rw [← mean_congr hperm] at h
  rw [eq_of_mean h, List.length_map]

variable {ratio : Dict ℕ ℚ → Dict ℕ ℚ → Py (List ℚ)} {f : ℚ → ℚ → ℚ} {c : Cells κ} {cell : κ}
  {r : TableRow κ}

-- The three figures of a row as means over one list of repetitions.
theorem IsRow.means (h : IsRow ratio c cell r) (hby : RatiosBy f ratio) (hc : Comparable c) :
    ∃ ks : List ℕ, ks ≠ [] ∧ (∀ k ∈ ks, k ∈ c.sub (cell, qudoName)) ∧
      r.qudossl = (ks.map (measurement c cell qudoName)).sum / ks.length ∧
      r.openssl = (ks.map (measurement c cell stockName)).sum / ks.length ∧
      r.ratio = (ks.map fun k =>
        f (measurement c cell qudoName k) (measurement c cell stockName k)).sum / ks.length := by
  obtain ⟨rs, hrs, hmean⟩ := h.ratio_eq
  have hrs' := hby _ _ _ hrs
  have hne : rs ≠ [] := (exists_mean_iff rs).mp ⟨_, hmean⟩
  have hq := Dict.commonKeys_perm_keys (hc.same cell)
  have hs := Dict.commonKeys_perm_keys fun k => (hc.same cell k).symm
  rw [Dict.commonKeys_comm] at hs
  refine ⟨_, fun hnil => hne ?_, fun k hk => AList.mem_keys.mpr (hq.mem_iff.mp hk),
    mean_values_eq hq h.qudossl_eq, mean_values_eq hs h.openssl_eq, ?_⟩
  · rw [hrs', hnil, List.map_nil]
  · rw [eq_of_mean hmean, hrs', List.length_map]
    rfl

theorem IsRow.one_lt_ratio_iff (h : IsRow Dict.paired c cell r) (hc : Comparable c)
    (hu : Unanimous c cell) : 1 < r.ratio ↔ r.openssl < r.qudossl := by
  obtain ⟨ks, hne, hmem, hq, hs, hr⟩ := h.means ratiosBy_paired hc
  rw [hq, hs, hr]
  refine Stats.one_lt_mean_div_iff ks hne (fun k hk => ?_)
    (hu.imp (fun h k hk => h k (hmem k hk)) fun h k hk => h k (hmem k hk))
  exact hc.measurement_pos ((hc.same cell k).mp (hmem k hk))

-- Microseconds: the ratio is the other way up.
theorem IsRow.one_lt_handshake_iff (h : IsRow handshakeRatios c cell r) (hc : Comparable c)
    (hu : Unanimous c cell) : 1 < r.ratio ↔ r.qudossl < r.openssl := by
  obtain ⟨ks, hne, hmem, hq, hs, hr⟩ := h.means ratiosBy_handshakeRatios hc
  rw [hq, hs, hr]
  refine Stats.one_lt_mean_div_iff ks hne (fun k hk => ?_)
    (hu.symm.imp (fun h k hk => h k (hmem k hk)) fun h k hk => h k (hmem k hk))
  exact hc.measurement_pos (hmem k hk)

end Direction

/-- In a row none of whose repetitions contradicts another, the ratio is above 1 exactly when
qudossl's mean is the better one: the higher of two rates, the lower of two times. -/
theorem tables_ratio_agrees (rows : List Row) :
    (∀ c out, gather primitiveEntry rows = .ok c → Comparable c → primitivesTable rows = .ok out →
        ∀ r ∈ out.getD [], Unanimous c r.1.cell → (1 < r.1.ratio ↔ r.1.openssl < r.1.qudossl)) ∧
      (∀ c out, gather handshakeEntry rows = .ok c → Comparable c → handshakeTable rows = .ok out →
        ∀ r ∈ out.getD [], Unanimous c r.cell → (1 < r.ratio ↔ r.qudossl < r.openssl)) ∧
      (∀ c out, gather resumptionEntry rows = .ok c → Comparable c →
        resumptionTable rows = .ok out →
        ∀ r ∈ out.getD [], Unanimous c r.cell → (1 < r.ratio ↔ r.openssl < r.qudossl)) := by
  refine ⟨fun c out hg hc h r hr hu => ?_, fun c out hg hc h r hr hu => ?_,
    fun c out hg hc h r hr hu => ?_⟩
  · exact (primitiveSection.isRow_of_mem hg h hr).one_lt_ratio_iff hc hu
  · exact (handshakeSection.isRow_of_mem hg h hr).one_lt_handshake_iff hc hu
  · exact (resumptionSection.isRow_of_mem hg h hr).one_lt_ratio_iff hc hu

/-- A check of the entries: one positive value in each place, and a partner for each value. -/
def Balanced {κ : Type} (es : List ((κ × Text) × ℕ × ℚ)) : Prop :=
  (∀ e ∈ es, ∀ e' ∈ es, e.1 = e'.1 → e.2.1 = e'.2.1 → e.2.2 = e'.2.2) ∧ (∀ e ∈ es, 0 < e.2.2) ∧
    (∀ e ∈ es, e.1.2 = qudoName → ∃ e' ∈ es, e'.1 = (e.1.1, stockName) ∧ e'.2.1 = e.2.1) ∧
    ∀ e ∈ es, e.1.2 = stockName → ∃ e' ∈ es, e'.1 = (e.1.1, qudoName) ∧ e'.2.1 = e.2.1

instance {κ : Type} [DecidableEq κ] (es : List ((κ × Text) × ℕ × ℚ)) : Decidable (Balanced es) :=
  inferInstanceAs (Decidable (_ ∧ _ ∧ _ ∧ _))

theorem comparable_of_balanced {κ : Type} [DecidableEq κ] {es : List ((κ × Text) × ℕ × ℚ)}
    (h : Balanced es) : Comparable (Dict.collect es) := by
  obtain ⟨hone, hpos, hstock, hqudo⟩ := h
  have hfun : Dict.Functional es := fun k i v w hv hw => hone _ hv _ hw rfl rfl
  refine ⟨fun key k v hv => hpos _ ((Dict.lookup_sub_collect hfun key k v).mp hv), fun cell k => ?_⟩
  rw [Dict.mem_sub_collect hfun, Dict.mem_sub_collect hfun]
  constructor
  · rintro ⟨v, hv⟩
    obtain ⟨e, he, hkey, hrep⟩ := hstock _ hv rfl
    exact ⟨e.2.2, (Prod.ext hkey (Prod.ext hrep rfl) : e = ((cell, stockName), k, e.2.2)) ▸ he⟩
  · rintro ⟨v, hv⟩
    obtain ⟨e, he, hkey, hrep⟩ := hqudo _ hv rfl
    exact ⟨e.2.2, (Prod.ext hkey (Prod.ext hrep rfl) : e = ((cell, qudoName), k, e.2.2)) ▸ he⟩

/-- A check of the entries: in no pair of one cell and repetition is qudossl's value the smaller, or
in none is it the greater. -/
def OneSided {κ : Type} (es : List ((κ × Text) × ℕ × ℚ)) : Prop :=
  (∀ e ∈ es, ∀ e' ∈ es, e.1.2 = qudoName → e'.1 = (e.1.1, stockName) → e'.2.1 = e.2.1 →
      e.2.2 ≤ e'.2.2) ∨
    ∀ e ∈ es, ∀ e' ∈ es, e.1.2 = qudoName → e'.1 = (e.1.1, stockName) → e'.2.1 = e.2.1 →
      e'.2.2 ≤ e.2.2

instance {κ : Type} [DecidableEq κ] (es : List ((κ × Text) × ℕ × ℚ)) : Decidable (OneSided es) :=
  inferInstanceAs (Decidable (_ ∨ _))

theorem measurement_collect {κ : Type} [DecidableEq κ] {es : List ((κ × Text) × ℕ × ℚ)}
    (h : Balanced es) {cell : κ} {build : Text} {k : ℕ}
    (hk : k ∈ (Dict.collect es).sub (cell, build)) :
    ((cell, build), k, measurement (Dict.collect es) cell build k) ∈ es := by
  have hfun : Dict.Functional es := fun k i v w hv hw => h.1 _ hv _ hw rfl rfl
  obtain ⟨v, hv⟩ := (Dict.mem_sub_collect hfun _ _).mp hk
  rw [measurement, (Dict.lookup_sub_collect hfun _ _ _).mpr hv]
  exact hv

theorem unanimous_of_oneSided {κ : Type} [DecidableEq κ] {es : List ((κ × Text) × ℕ × ℚ)}
    (h : Balanced es) (hone : OneSided es) (cell : κ) : Unanimous (Dict.collect es) cell := by
  have hstock := fun k hk =>
    measurement_collect h (((comparable_of_balanced h).same cell k).mp hk)
  rcases hone with hle | hle
  · refine .inl fun k hk => ?_
    have hpair := hle _ (measurement_collect h hk) _ (hstock k hk) rfl rfl rfl
    exact hpair
  · refine .inr fun k hk => ?_
    have hpair := hle _ (measurement_collect h hk) _ (hstock k hk) rfl rfl rfl
    exact hpair

/-- A numeral of one digit. -/
def digit (d : Fin 10) : Numeral where
  text := [Nat.digitChar d]
  value := d
  reads := by revert d; decide +kernel
  plain := by
    intro c hc
    rw [List.mem_singleton.mp hc]
    clear hc
    revert d
    decide

/-- Build, repetition and value. -/
def uniformRows (os : List (Text × ℕ × Fin 10)) : List Row :=
  os.map fun o => uniformRow (txt "pure") (txt "handshake") o.1 o.2.1 (digit o.2.2).text

-- What the sections take from a row that has everything.
theorem entry_uniformRow {cell : Row → Text × Text} {mode test value build : Text} {k : ℕ}
    {n : Numeral} (h : uniformRow mode test build k n.text value = some n.text) :
    entry cell value (uniformRow mode test build k n.text) =
      .ok [((cell (uniformRow mode test build k n.text), build), k, n.value)] := by
  have hrep : uniformRow mode test build k n.text (txt "rep") = some (decimal k) := rfl
  unfold entry
  rw [h, n.truthy_text, if_pos rfl, n.float_text, hrep, int_decimal]
  rfl

theorem primitiveEntry_uniformRow (mode test build : Text) (k : ℕ) (n : Numeral) :
    primitiveEntry (uniformRow mode test build k n.text) =
      .ok ([1, 2, 3].map fun i => (((mode, txt "ML-KEM-768", i), build), k, n.value)) := by
  have hop : uniformRow mode test build k n.text (txt "op1") = some n.text := rfl
  unfold primitiveEntry
  rw [hop, n.truthy_text, if_pos rfl]
  refine mapM_ok_of_forall fun i hi => ?_
  have hi' : uniformRow mode test build k n.text (opColumn i) = some n.text := by
    simp only [List.mem_cons, List.not_mem_nil, or_false] at hi
    rcases hi with rfl | rfl | rfl <;> rfl
  have hrep : uniformRow mode test build k n.text (txt "rep") = some (decimal k) := rfl
  rw [hi', n.float_text, hrep, int_decimal]
  rfl

def pairEntries (cell : Text × Text) (os : List (Text × ℕ × Fin 10)) :
    List (((Text × Text) × Text) × ℕ × ℚ) :=
  os.map fun o => ((cell, o.1), o.2.1, (o.2.2 : ℚ))

def uniformEntries (os : List (Text × ℕ × Fin 10)) : List ((PrimitiveCell × Text) × ℕ × ℚ) :=
  os.flatMap fun o =>
    [1, 2, 3].map fun i => (((txt "pure", txt "ML-KEM-768", i), o.1), o.2.1, (o.2.2 : ℚ))

theorem gather_uniformRows {cell : Row → Text × Text} {value : Text} {name : Text × Text}
    (hcell : ∀ b k v, cell (uniformRow (txt "pure") (txt "handshake") b k v) = name)
    (hvalue : ∀ b k v, uniformRow (txt "pure") (txt "handshake") b k v value = some v)
    (os : List (Text × ℕ × Fin 10)) :
    gather (entry cell value) (uniformRows os) = .ok (Dict.collect (pairEntries name os)) := by
  have hread : (uniformRows os).mapM (entry cell value) =
      .ok (os.map fun o => [((name, o.1), o.2.1, (o.2.2 : ℚ))]) := by
    rw [uniformRows, List.mapM_map]
    refine mapM_ok_of_forall fun o _ => ?_
    rw [Function.comp_apply, entry_uniformRow (hvalue _ _ _), hcell]
    rfl
  refine gather_ok_iff.mpr ⟨_, hread, ?_⟩
  rw [pairEntries, ← List.flatMap_def]
  exact congrArg Dict.collect (List.flatMap_pure_eq_map _ _).symm

theorem gather_handshake_uniformRows (os : List (Text × ℕ × Fin 10)) :
    gather handshakeEntry (uniformRows os) =
      .ok (Dict.collect (pairEntries (txt "pure", txt "X25519") os)) :=
  gather_uniformRows (fun _ _ _ => rfl) (fun _ _ _ => rfl) os

theorem gather_resumption_uniformRows (os : List (Text × ℕ × Fin 10)) :
    gather resumptionEntry (uniformRows os) =
      .ok (Dict.collect (pairEntries (txt "handshake", txt "server") os)) :=
  gather_uniformRows (fun _ _ _ => rfl) (fun _ _ _ => rfl) os

theorem gather_primitive_uniformRows (os : List (Text × ℕ × Fin 10)) :
    gather primitiveEntry (uniformRows os) = .ok (Dict.collect (uniformEntries os)) := by
  refine gather_ok_iff.mpr ⟨_, ?_, congrArg Dict.collect List.flatMap_def⟩
  rw [uniformRows, List.mapM_map]
  exact mapM_ok_of_forall fun o _ =>
    primitiveEntry_uniformRow (txt "pure") (txt "handshake") o.1 o.2.1 (digit o.2.2)

/-- Three repetitions that all favour the first build, each by another factor. -/
def agreed (a b : Text) : List (Text × ℕ × Fin 10) :=
  [(a, 1, 8), (b, 1, 2), (b, 2, 3), (a, 2, 6), (a, 3, 5), (b, 3, 4)]

theorem agreed_tables :
    primitivesTable (uniformRows (agreed qudoName stockName)) = .ok (some
        [(⟨(txt "pure", txt "ML-KEM-768", 1), 19 / 3, 3, 29 / 12⟩, .weak),
          (⟨(txt "pure", txt "ML-KEM-768", 2), 19 / 3, 3, 29 / 12⟩, .weak),
          (⟨(txt "pure", txt "ML-KEM-768", 3), 19 / 3, 3, 29 / 12⟩, .weak)]) ∧
      handshakeTable (uniformRows (agreed stockName qudoName)) =
        .ok (some [⟨(txt "pure", txt "X25519"), 3, 19 / 3, 29 / 12⟩]) ∧
      resumptionTable (uniformRows (agreed qudoName stockName)) =
        .ok (some [⟨(txt "handshake", txt "server"), 19 / 3, 3, 29 / 12⟩]) :=
  ⟨by decide +kernel, by decide +kernel, by decide +kernel⟩

/-- In each table the three figures favour qudossl, with a ratio that is not the quotient of the
means. -/
theorem tables_ratio_agrees_agreed :
    (∃ c out, gather primitiveEntry (uniformRows (agreed qudoName stockName)) = .ok c ∧
        Comparable c ∧ primitivesTable (uniformRows (agreed qudoName stockName)) = .ok (some out) ∧
        out.length = 3 ∧ ∀ r ∈ out, Unanimous c r.1.cell ∧ r.1.ratio ≠ r.1.qudossl / r.1.openssl ∧
          1 < r.1.ratio ∧ (1 < r.1.ratio ↔ r.1.openssl < r.1.qudossl)) ∧
      (∃ c out, gather handshakeEntry (uniformRows (agreed stockName qudoName)) = .ok c ∧
        Comparable c ∧ handshakeTable (uniformRows (agreed stockName qudoName)) = .ok (some out) ∧
        out.length = 1 ∧ ∀ r ∈ out, Unanimous c r.cell ∧ r.ratio ≠ r.openssl / r.qudossl ∧
          1 < r.ratio ∧ (1 < r.ratio ↔ r.qudossl < r.openssl)) ∧
      ∃ c out, gather resumptionEntry (uniformRows (agreed qudoName stockName)) = .ok c ∧
        Comparable c ∧
        resumptionTable (uniformRows (agreed qudoName stockName)) = .ok (some out) ∧
        out.length = 1 ∧ ∀ r ∈ out, Unanimous c r.cell ∧ r.ratio ≠ r.qudossl / r.openssl ∧
          1 < r.ratio ∧ (1 < r.ratio ↔ r.openssl < r.qudossl) := by
  have primitives := (tables_ratio_agrees (uniformRows (agreed qudoName stockName))).1
  have handshakes := (tables_ratio_agrees (uniformRows (agreed stockName qudoName))).2.1
  have resumptions := (tables_ratio_agrees (uniformRows (agreed qudoName stockName))).2.2
  obtain ⟨hp, hh, hr⟩ := agreed_tables
  have gp := gather_primitive_uniformRows (agreed qudoName stockName)
  have gh := gather_handshake_uniformRows (agreed stockName qudoName)
  have gr := gather_resumption_uniformRows (agreed qudoName stockName)
  have bp : Balanced (uniformEntries (agreed qudoName stockName)) := by decide +kernel
  have bh : Balanced (pairEntries (txt "pure", txt "X25519") (agreed stockName qudoName)) := by
    decide +kernel
  have br : Balanced
      (pairEntries (txt "handshake", txt "server") (agreed qudoName stockName)) := by
    decide +kernel
  refine ⟨⟨_, _, gp, comparable_of_balanced bp, hp, rfl, fun r hr' => ?_⟩,
    ⟨_, _, gh, comparable_of_balanced bh, hh, rfl, fun r hr' => ?_⟩,
    ⟨_, _, gr, comparable_of_balanced br, hr, rfl, fun r hr' => ?_⟩⟩
  · have hu := unanimous_of_oneSided bp (by decide +kernel) r.1.cell
    have hagree := primitives _ _ gp (comparable_of_balanced bp) hp r hr' hu
    refine ⟨hu, ?_, ?_, hagree⟩ <;> clear hu hagree <;> revert r <;> decide +kernel
  · have hu := unanimous_of_oneSided bh (by decide +kernel) r.cell
    have hagree := handshakes _ _ gh (comparable_of_balanced bh) hh r hr' hu
    refine ⟨hu, ?_, ?_, hagree⟩ <;> clear hu hagree <;> revert r <;> decide +kernel
  · have hu := unanimous_of_oneSided br (by decide +kernel) r.cell
    have hagree := resumptions _ _ gr (comparable_of_balanced br) hr r hr' hu
    refine ⟨hu, ?_, ?_, hagree⟩ <;> clear hu hagree <;> revert r <;> decide +kernel

/-- Two repetitions that disagree: the first build wins one, the second the other. -/
def mixed (a b : Text) : List (Text × ℕ × Fin 10) := [(a, 1, 8), (a, 2, 2), (b, 1, 4), (b, 2, 8)]

theorem mixed_tables :
    primitivesTable (uniformRows (mixed qudoName stockName)) = .ok (some
        [(⟨(txt "pure", txt "ML-KEM-768", 1), 5, 6, 9 / 8⟩, .signs 1 2),
          (⟨(txt "pure", txt "ML-KEM-768", 2), 5, 6, 9 / 8⟩, .signs 1 2),
          (⟨(txt "pure", txt "ML-KEM-768", 3), 5, 6, 9 / 8⟩, .signs 1 2)]) ∧
      handshakeTable (uniformRows (mixed stockName qudoName)) =
        .ok (some [⟨(txt "pure", txt "X25519"), 6, 5, 9 / 8⟩]) ∧
      resumptionTable (uniformRows (mixed qudoName stockName)) =
        .ok (some [⟨(txt "handshake", txt "server"), 5, 6, 9 / 8⟩]) :=
  ⟨by decide +kernel, by decide +kernel, by decide +kernel⟩

/-- In each table a ratio of 9/8 stands beside means that favour OpenSSL. -/
theorem tables_ratio_disagrees :
    (∃ c out, gather primitiveEntry (uniformRows (mixed qudoName stockName)) = .ok c ∧
        Comparable c ∧ primitivesTable (uniformRows (mixed qudoName stockName)) = .ok (some out) ∧
        ∃ r ∈ out, 1 < r.1.ratio ∧ r.1.qudossl < r.1.openssl) ∧
      (∃ c out, gather handshakeEntry (uniformRows (mixed stockName qudoName)) = .ok c ∧
        Comparable c ∧ handshakeTable (uniformRows (mixed stockName qudoName)) = .ok (some out) ∧
        ∃ r ∈ out, 1 < r.ratio ∧ r.openssl < r.qudossl) ∧
      ∃ c out, gather resumptionEntry (uniformRows (mixed qudoName stockName)) = .ok c ∧
        Comparable c ∧ resumptionTable (uniformRows (mixed qudoName stockName)) = .ok (some out) ∧
        ∃ r ∈ out, 1 < r.ratio ∧ r.qudossl < r.openssl := by
  obtain ⟨hp, hh, hr⟩ := mixed_tables
  refine ⟨⟨_, _, gather_primitive_uniformRows _, ?_, hp, ?_⟩,
    ⟨_, _, gather_handshake_uniformRows _, ?_, hh, ?_⟩,
    ⟨_, _, gather_resumption_uniformRows _, ?_, hr, ?_⟩⟩
  · exact comparable_of_balanced (by decide +kernel)
  · exact ⟨_, List.mem_cons_self, by norm_num, by norm_num⟩
  · exact comparable_of_balanced (by decide +kernel)
  · exact ⟨_, List.mem_cons_self, by norm_num, by norm_num⟩
  · exact comparable_of_balanced (by decide +kernel)
  · exact ⟨_, List.mem_cons_self, by norm_num, by norm_num⟩

end QudoSSL
