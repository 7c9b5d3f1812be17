import NodeAgent.Dogstatsd.Metric
import NodeAgent.Infra.Segments

/-!
# Normalized names (`dogstatsd/normalize.go`)

A normalized name has no two underscores in a row, so no name of a label becomes `__name__`.

* `normalized_canonical` — names of metrics and labels are canonical
-/

namespace Dogstatsd

open Infra

variable {unnamed s k : Bytes} {b : UInt8} {allowed : UInt8 → Bool}

theorem length_replaceDouble_le (s : Bytes) : (replaceDouble s).length ≤ s.length := by
  fun_induction replaceDouble s with
  | case1 rest ih =>
    simp only [List.length_cons]
    omega
  | case2 b rest hne ih =>
    simp only [List.length_cons]
    omega
  | case3 => exact le_rfl

theorem length_replaceDouble_lt (s : Bytes) (h : hasDouble s = true) :
    (replaceDouble s).length < s.length := by
  fun_induction replaceDouble s with
  | case1 rest ih =>
    have := length_replaceDouble_le rest
    simp only [List.length_cons]
    omega
  | case2 b rest hne ih =>
    -- the two underscores are in the rest
    cases rest with
    | nil => cases h
    | cons c rest =>
      rw [hasDouble, Bool.or_eq_true, Bool.and_eq_true, decide_eq_true_eq, decide_eq_true_eq] at h
      rcases h with ⟨rfl, rfl⟩ | h
      · exact absurd rfl (hne rest rfl)
      · have := ih h
        simp only [List.length_cons] at this ⊢
        omega
  | case3 => cases h

theorem hasDouble_collapseLoop : ∀ (fuel : Nat) (s : Bytes), s.length ≤ fuel →
    hasDouble (collapseLoop fuel s) = false
  | 0, s, h => by
    obtain rfl := List.length_eq_zero_iff.mp (Nat.le_zero.mp h)
    rfl
  | fuel + 1, s, h => by
    unfold collapseLoop
    split
    · rename_i hdouble
      have := length_replaceDouble_lt s hdouble
      exact hasDouble_collapseLoop fuel (replaceDouble s) (by omega)
    · rename_i hsingle
      exact Bool.not_eq_true _ ▸ hsingle

/-- **The result of `collapseUnderscores` has no two underscores in a row.** -/
theorem hasDouble_collapseUnderscores (s : Bytes) : hasDouble (collapseUnderscores s) = false :=
  hasDouble_collapseLoop s.length s le_rfl

theorem hasDouble_normalizeName (allowed : UInt8 → Bool) (h : hasDouble unnamed = false)
    (name : Bytes) : hasDouble (normalizeName allowed unnamed name) = false := by
  unfold normalizeName
  simp only
  split
  · exact h
  set collapsed := collapseUnderscores ((trimSpace (runes name)).map (nameByte allowed))
  have hout : hasDouble (if collapsed.all (· = 95) then unnamed else collapsed) = false := by
    split
    · exact h
    · exact hasDouble_collapseUnderscores _
  generalize (if collapsed.all (· = 95) then unnamed else collapsed) = out at hout
  split
  · rename_i b rest
    split
    · -- the underscore stands before a digit
      rename_i hdigit
      rw [hasDouble, hout, Bool.or_false]
      by_contra hb
      rw [Bool.not_eq_false, Bool.and_eq_true, decide_eq_true_eq, decide_eq_true_eq] at hb
      rw [hb.2] at hdigit
      exact absurd hdigit (by decide)
    · exact hout
  · exact hout

theorem normalizeLabelKey_ne_name (key : Bytes) : normalizeLabelKey key ≠ ascii "__name__" := by
  intro h
  have hdouble : hasDouble (normalizeLabelKey key) = false :=
    hasDouble_normalizeName isLabelByte (by decide) key
  rw [h] at hdouble
  exact absurd hdouble (by decide)

/-! ## The bytes of a name -/

theorem mem_replaceDouble (s : Bytes) (h : b ∈ replaceDouble s) : b ∈ s := by
  fun_induction replaceDouble s with
  | case1 rest ih =>
    rcases List.mem_cons.mp h with rfl | h
    · exact List.mem_cons_self
    · exact List.mem_cons_of_mem _ (List.mem_cons_of_mem _ (ih h))
  | case2 c rest hne ih =>
    rcases List.mem_cons.mp h with rfl | h
    · exact List.mem_cons_self
    · exact List.mem_cons_of_mem _ (ih h)
  | case3 => exact h

theorem mem_collapseLoop {b : UInt8} : ∀ (fuel : Nat) {s : Bytes}, b ∈ collapseLoop fuel s → b ∈ s
  | 0, _, h => h
  | fuel + 1, s, h => by
    unfold collapseLoop at h
    split at h
    · exact mem_replaceDouble s (mem_collapseLoop fuel h)
    · exact h

theorem allowed_nameByte (h : allowed 95 = true) (r : Rune) :
    allowed (nameByte allowed r) = true := by
  unfold nameByte
  split
  · split
    · assumption
    · exact h
  · exact h

/-- **A normalized name consists of the bytes that are kept.** -/
theorem all_normalizeName (h : allowed 95 = true) (hunnamed : ∀ b ∈ unnamed, allowed b = true)
    (name : Bytes) : ∀ b ∈ normalizeName allowed unnamed name, allowed b = true := by
  unfold normalizeName
  simp only
  split
  · exact hunnamed
  set collapsed := collapseUnderscores ((trimSpace (runes name)).map (nameByte allowed))
  have hcollapsed : ∀ b ∈ collapsed, allowed b = true := by
    intro b hb
    obtain ⟨r, -, rfl⟩ := List.mem_map.mp (mem_collapseLoop _ hb)
    exact allowed_nameByte h r
  have hout : ∀ b ∈ (if collapsed.all (· = 95) then unnamed else collapsed), allowed b = true := by
    split
    · exact hunnamed
    · exact hcollapsed
  generalize (if collapsed.all (· = 95) then unnamed else collapsed) = out at hout
  split
  · split
    · exact List.forall_mem_cons.mpr ⟨h, hout⟩
    · exact hout
  · exact hout

/-! ## Keys without letters and digits -/

/-- `a` to `z` and `0` to `9` -/
def isWordByte (b : UInt8) : Bool := (97 ≤ b && b ≤ 122) || (48 ≤ b && b ≤ 57)

/-- The key has an ASCII letter or digit after lower-casing. -/
def HasWord (key : Bytes) : Prop :=
  ∃ r ∈ runes key, ∃ b, lowerAscii r = some b ∧ isWordByte b = true

theorem normalizeName_ne_nil (allowed : UInt8 → Bool) (h : unnamed ≠ []) (name : Bytes) :
    normalizeName allowed unnamed name ≠ [] := by
  unfold normalizeName
  simp only
  split
  · exact h
  set collapsed := collapseUnderscores ((trimSpace (runes name)).map (nameByte allowed))
  have hout : (if collapsed.all (· = 95) then unnamed else collapsed) ≠ [] := by
    split
    · exact h
    · rename_i hall
      rintro hnil
      rw [hnil] at hall
      exact hall rfl
  generalize (if collapsed.all (· = 95) then unnamed else collapsed) = out at hout
  split
  · split <;> exact List.cons_ne_nil _ _
  · exact hout

theorem mem_trimSpace {r : Rune} {rs : List Rune} (h : r ∈ trimSpace rs) : r ∈ rs :=
  (List.dropWhile_suffix _).subset (List.mem_reverse.mp
    ((List.dropWhile_suffix _).subset (List.mem_reverse.mp h)))

/-- **A key without letters and digits is normalized to `label`.** -/
theorem normalizeLabelKey_of_no_word {key : Bytes} (h : ¬ HasWord key) :
    normalizeLabelKey key = ascii "label" := by
  have hall : ∀ b ∈ collapseUnderscores ((trimSpace (runes key)).map (nameByte isLabelByte)),
      b = 95 := by
    intro b hb
    obtain ⟨r, hr, rfl⟩ := List.mem_map.mp (mem_collapseLoop _ hb)
    unfold nameByte
    split
    · rename_i b hlower
      split
      · rename_i hlabel
        by_contra hne
        refine h ⟨r, mem_trimSpace hr, b, hlower, ?_⟩
        rw [isLabelByte, decide_eq_false hne, Bool.or_false] at hlabel
        exact hlabel
      · rfl
    · rfl
  unfold normalizeLabelKey normalizeName
  simp only
  split
  · rfl
  · rw [if_pos (List.all_eq_true.mpr fun b hb => decide_eq_true (hall b hb))]
    rfl

/-! ## Names that are normalized already -/

theorem isLabelByte_cases (h : isLabelByte b = true) :
    97 ≤ b.toNat ∧ b.toNat ≤ 122 ∨ 48 ≤ b.toNat ∧ b.toNat ≤ 57 ∨ b.toNat = 95 := by
  simp only [isLabelByte, Bool.or_eq_true, Bool.and_eq_true, decide_eq_true_eq,
    UInt8.le_iff_toNat_le] at h
  rcases h with (h | h) | rfl
  · exact .inl h
  · exact .inr (.inl h)
  · exact .inr (.inr rfl)

theorem isNameByte_of_label (h : isLabelByte b = true) : isNameByte b = true := by
  rw [isNameByte, h, Bool.true_or]

theorem isNameByte_cases (h : isNameByte b = true) :
    48 ≤ b.toNat ∧ b.toNat ≤ 58 ∨ 95 ≤ b.toNat ∧ b.toNat ≤ 122 := by
  rw [isNameByte, Bool.or_eq_true, decide_eq_true_eq] at h
  rcases h with h | rfl
  · have := isLabelByte_cases h
    omega
  · exact .inl (by decide)

theorem lt_of_isNameByte (h : isNameByte b = true) : b < 0x80 := by
  have := isNameByte_cases h
  rw [UInt8.lt_iff_toNat_lt]
  show b.toNat < 128
  omega

theorem nameByte_of_allowed (hname : isNameByte b = true) (h : allowed b = true) :
    nameByte allowed b.toNat = b := by
  have hlower : lowerAscii b.toNat = some b := by
    have hrange := isNameByte_cases hname
    have hupper : ¬ (65 ≤ b.toNat ∧ b.toNat ≤ 90) := by omega
    have hsmall : b.toNat < 0x80 := by omega
    rw [lowerAscii, if_neg hupper, if_pos hsmall, UInt8.ofNat_toNat]
  simp only [nameByte, hlower, h, if_true]

theorem collapseUnderscores_of_single (h : hasDouble s = false) : collapseUnderscores s = s := by
  unfold collapseUnderscores
  cases hlen : s.length with
  | zero => rfl
  | succ n => rw [collapseLoop, if_neg (by simp [h])]

def NoDigitFirst (s : Bytes) : Prop := ∀ b rest, s = b :: rest → (48 ≤ b && b ≤ 57) = false

structure NormalKey (k : Bytes) : Prop where
  bytes : ∀ b ∈ k, isLabelByte b = true
  single : hasDouble k = false
  named : k.all (· = 95) = false
  start : NoDigitFirst k

theorem NormalKey.ascii (h : NormalKey k) : ∀ b ∈ k, b < 0x80 :=
  fun b hb => lt_of_isNameByte (isNameByte_of_label (h.bytes b hb))

theorem isSpace_name (h : isNameByte b = true) : isSpace b.toNat = false := by
  have hall : ∀ n : Nat, n < 123 → 48 ≤ n → isSpace n = false := by decide
  have := isNameByte_cases h
  exact hall b.toNat (by omega) (by omega)

theorem normalizeName_fixed (unnamed : Bytes)
    (hallowed : ∀ b, allowed b = true → isNameByte b = true) (hbytes : ∀ b ∈ k, allowed b = true)
    (hsingle : hasDouble k = false) (hnamed : k.all (· = 95) = false) (hstart : NoDigitFirst k) :
    normalizeName allowed unnamed k = k := by
  have hname : ∀ b ∈ k, isNameByte b = true := fun b hb => hallowed b (hbytes b hb)
  have hrunes : trimSpace (runes k) = k.map UInt8.toNat := by
    rw [runes_of_ascii fun b hb => lt_of_isNameByte (hname b hb), trimSpace_of_no_space]
    rintro r hr
    obtain ⟨b, hb, rfl⟩ := List.mem_map.mp hr
    exact isSpace_name (hname b hb)
  have hsame : (k.map UInt8.toNat).map (nameByte allowed) = k := by
    rw [List.map_map]
    exact (List.map_congr_left fun b hb =>
      nameByte_of_allowed (hname b hb) (hbytes b hb)).trans (List.map_id k)
  have hne : k ≠ [] := by
    rintro rfl
    cases hnamed
  unfold normalizeName
  simp only
  rw [hrunes, if_neg (by simpa using hne), hsame, collapseUnderscores_of_single hsingle,
    if_neg (by simp [hnamed])]
  split
  · rename_i b rest
    rw [if_neg (by simp [hstart b rest rfl])]
  · rfl

theorem NormalKey.fixed (h : NormalKey k) : normalizeLabelKey k = k :=
  normalizeName_fixed _ (fun _ => isNameByte_of_label) h.bytes h.single h.named h.start

theorem normalizeName_start (allowed : UInt8 → Bool) (hnamed : unnamed.all (· = 95) = false)
    (hstart : NoDigitFirst unnamed) (name : Bytes) :
    (normalizeName allowed unnamed name).all (· = 95) = false ∧
      NoDigitFirst (normalizeName allowed unnamed name) := by
  unfold normalizeName
  simp only
  split
  · exact ⟨hnamed, hstart⟩
  set collapsed := collapseUnderscores ((trimSpace (runes name)).map (nameByte allowed))
  have hout : (if collapsed.all (· = 95) then unnamed else collapsed).all (· = 95) = false := by
    split
    · exact hnamed
    · exact Bool.eq_false_iff.mpr ‹_›
  generalize (if collapsed.all (· = 95) then unnamed else collapsed) = out at hout
  split
  · rename_i b rest
    split
    · -- the underscore before the digit
      refine ⟨?_, fun b' rest' h => ?_⟩
      · rw [List.all_cons, hout, Bool.and_false]
      · rw [List.cons.injEq] at h
        rw [← h.1]
        decide
    · rename_i hdigit
      refine ⟨hout, fun b' rest' h => ?_⟩
      rw [List.cons.injEq] at h
      rw [← h.1]
      exact Bool.eq_false_iff.mpr hdigit
  · exact ⟨hout, fun b rest h => by cases h⟩

theorem normalKey_normalizeLabelKey (key : Bytes) : NormalKey (normalizeLabelKey key) := by
  have hlabel : NoDigitFirst (ascii "label") := by
    intro b rest h
    cases h
    decide
  obtain ⟨hnamed, hstart⟩ := normalizeName_start isLabelByte (by decide) hlabel key
  exact ⟨all_normalizeName (by decide) (List.all_eq_true.mp (by decide)) key,
    hasDouble_normalizeName isLabelByte (by decide) key, hnamed, hstart⟩

/-- **A key may be normalized twice.** -/
theorem normalizeLabelKey_idem (key : Bytes) :
    normalizeLabelKey (normalizeLabelKey key) = normalizeLabelKey key :=
  (normalKey_normalizeLabelKey key).fixed

/-! ## Prometheus names -/

/-- The string matches `[first][other]*`, has no two underscores in a row and not only
underscores. -/
structure Canonical (first other : UInt8 → Bool) (s : Bytes) : Prop where
  grammar : ∃ b rest, s = b :: rest ∧ first b = true ∧ ∀ c ∈ rest, other c = true
  single : ¬ [95, 95] <:+: s
  named : ∃ b ∈ s, b ≠ 95

/-- `a` to `z` and `_` -/
def startsLabel (b : UInt8) : Bool := (97 ≤ b && b ≤ 122) || b = 95

/-- `a` to `z`, `_` and `:` -/
def startsName (b : UInt8) : Bool := startsLabel b || b = 58

def squeeze : Bytes → Bytes
  | [] => []
  | b :: rest => if b = 95 ∧ rest.head? = some 95 then squeeze rest else b :: squeeze rest

theorem hasDouble_of_double (h : [95, 95] <:+: s) : hasDouble s = true := by
  obtain ⟨before, after, rfl⟩ := h
  induction before with
  | nil => simp [hasDouble]
  | cons b before ih =>
    rw [List.cons_append, List.cons_append]
    generalize before ++ [95, 95] ++ after = s at ih
    cases s with
    | nil => cases ih
    | cons c rest => rw [hasDouble, ih, Bool.or_true]

theorem head?_replaceDouble (s : Bytes) : (replaceDouble s).head? = s.head? := by
  fun_cases replaceDouble s <;> rfl

theorem squeeze_replaceDouble (s : Bytes) : squeeze (replaceDouble s) = squeeze s := by
  fun_induction replaceDouble s with
  | case1 rest ih => simp [squeeze, head?_replaceDouble, ih]
  | case2 b rest hne ih => simp [squeeze, head?_replaceDouble, ih]
  | case3 => rfl

theorem squeeze_of_single (h : hasDouble s = false) : squeeze s = s := by
  induction s with
  | nil => rfl
  | cons b rest ih =>
    cases rest with
    | nil => simp [squeeze]
    | cons c rest =>
      rw [hasDouble, Bool.or_eq_false_iff, Bool.and_eq_false_iff, decide_eq_false_iff_not,
        decide_eq_false_iff_not] at h
      rw [squeeze, if_neg, ih h.2]
      rintro ⟨rfl, hc⟩
      exact h.1.elim (absurd rfl) (absurd (Option.some.inj hc))

theorem collapseLoop_eq_squeeze : ∀ (fuel : Nat) (s : Bytes), s.length ≤ fuel →
    collapseLoop fuel s = squeeze s
  | 0, s, h => by
    obtain rfl := List.length_eq_zero_iff.mp (Nat.le_zero.mp h)
    rfl
  | fuel + 1, s, h => by
    unfold collapseLoop
    split
    · rename_i hdouble
      have := length_replaceDouble_lt s hdouble
      rw [collapseLoop_eq_squeeze fuel _ (by omega), squeeze_replaceDouble]
    · rename_i hsingle
      exact (squeeze_of_single (Bool.eq_false_iff.mpr hsingle)).symm

theorem canonical_normalizeName {first : UInt8 → Bool} (hunder : allowed 95 = true)
    (hfirst : ∀ b, allowed b = true → (48 ≤ b && b ≤ 57) = false → first b = true)
    (hallowed : ∀ b, allowed b = true → isNameByte b = true)
    (hbytes : ∀ b ∈ unnamed, allowed b = true) (hsingle : hasDouble unnamed = false)
    (hnamed : unnamed.all (· = 95) = false) (hstart : NoDigitFirst unnamed) (name : Bytes) :
    Canonical first allowed (normalizeName allowed unnamed name) ∧
      normalizeName allowed unnamed (normalizeName allowed unnamed name) =
        normalizeName allowed unnamed name := by
  have hall := all_normalizeName hunder hbytes name
  have hsingle' := hasDouble_normalizeName allowed hsingle name
  obtain ⟨hnamed', hstart'⟩ := normalizeName_start allowed hnamed hstart name
  refine ⟨⟨?_, ?_, ?_⟩, normalizeName_fixed unnamed hallowed hall hsingle' hnamed' hstart'⟩
  · cases hout : normalizeName allowed unnamed name with
    | nil =>
      rw [hout] at hnamed'
      cases hnamed'
    | cons b rest =>
      rw [hout] at hall hstart'
      exact ⟨b, rest, rfl, hfirst b (hall b List.mem_cons_self) (hstart' b rest rfl),
        fun c hc => hall c (List.mem_cons_of_mem b hc)⟩
  · intro hinfix
    rw [hasDouble_of_double hinfix] at hsingle'
    cases hsingle'
  · simpa using hnamed'

/-- **Normalized names are canonical**, for every input, and normalizing is idempotent. The loop of
`collapseUnderscores` gets to its end and leaves one underscore of every run. -/
theorem normalized_canonical (name : Bytes) :
    Canonical startsName isNameByte (normalizeMetricName name) ∧
    Canonical startsLabel isLabelByte (normalizeLabelKey name) ∧
    normalizeMetricName (normalizeMetricName name) = normalizeMetricName name ∧
    normalizeLabelKey (normalizeLabelKey name) = normalizeLabelKey name ∧
    ∀ fuel, name.length ≤ fuel → collapseLoop fuel name = squeeze name ∧
      hasDouble (collapseLoop fuel name) = false := by
  have hstart : ∀ {b : UInt8} {rest : Bytes}, (48 ≤ b && b ≤ 57) = false →
      NoDigitFirst (b :: rest) := by
    intro b rest hb c rest' h
    cases h
    exact hb
  have hlabel : ∀ b, isLabelByte b = true → (48 ≤ b && b ≤ 57) = false → startsLabel b = true := by
    intro b h hdigit
    rwa [isLabelByte, hdigit, Bool.or_false] at h
  have hname : ∀ b, isNameByte b = true → (48 ≤ b && b ≤ 57) = false → startsName b = true := by
    intro b h hdigit
    rwa [isNameByte, isLabelByte, hdigit, Bool.or_false] at h
  have hmetric : Canonical startsName isNameByte (normalizeMetricName name) ∧
      normalizeMetricName (normalizeMetricName name) = normalizeMetricName name :=
    canonical_normalizeName (by decide) hname (fun _ h => h) (List.all_eq_true.mp (by decide))
      (by decide) (by decide) (hstart (by decide)) name
  have hkey : Canonical startsLabel isLabelByte (normalizeLabelKey name) ∧
      normalizeLabelKey (normalizeLabelKey name) = normalizeLabelKey name :=
    canonical_normalizeName (by decide) hlabel (fun _ => isNameByte_of_label)
      (List.all_eq_true.mp (by decide)) (by decide) (by decide) (hstart (by decide)) name
  refine ⟨hmetric.1, hkey.1, hmetric.2, hkey.2, fun fuel hfuel => ?_⟩
  exact ⟨collapseLoop_eq_squeeze fuel name hfuel, hasDouble_collapseLoop fuel name hfuel⟩

/-! ## Values that are sanitized already -/

theorem sanitizeLabelValue_of_clean {v : Bytes} (hvalid : ValidUTF8 v)
    (htrimmed : trimSpaceBytes v = v) (hne : v ≠ []) : sanitizeLabelValue v = v := by
  unfold sanitizeLabelValue
  simp only
  rw [toValidUTF8_of_valid hvalid, htrimmed, if_neg hne]

/-- **A value may be sanitized twice.** -/
theorem sanitizeLabelValue_idem (value : Bytes) :
    sanitizeLabelValue (sanitizeLabelValue value) = sanitizeLabelValue value := by
  have hreplacement : Encoding 0xFFFD [0xEF, 0xBF, 0xBD] :=
    .three (a := 0xEF) (b := 0xBF) (c := 0xBD) (by decide)
  conv => lhs; arg 1; unfold sanitizeLabelValue
  conv => rhs; unfold sanitizeLabelValue
  simp only
  split
  · decide
  · rename_i hne
    exact sanitizeLabelValue_of_clean (valid_toValidUTF8 hreplacement value).trimSpaceBytes
      (trimSpaceBytes_idem _) hne

end Dogstatsd
