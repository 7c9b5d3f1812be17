import Mathlib.Data.List.DropRight
import NodeAgent.Infra.Utf8

/-!
# Cutting strings between runes

The segments of a string are found one after the other from its beginning. The first one depends on
the bytes it is made of only, or on at most three bytes behind it if it is an ill formed byte.

* `segments_flatMap_take`, `segments_flatMap_drop` — a string that is cut between its segments
* `Encoding`, `segments_encoding_append` — well formed sequences can be put together
* `ValidUTF8`, `valid_toValidUTF8`, `toValidUTF8_of_valid` — what `ToValidUTF8` does
-/

namespace Infra

variable {a b c : UInt8} {r : Rune} {bytes s : Bytes}

/-! ## The first segment -/

theorem first_ascii (h : a < 0x80) (s : Bytes) : first a s = (a.toNat, [a]) := if_pos h

/-! ## Well formed sequences -/

inductive Encoding : Rune → Bytes → Prop
  | one {a : UInt8} : a < 0x80 → Encoding a.toNat [a]
  | two {a b : UInt8} : isTwo a b = true → Encoding (a.toNat % 32 * 64 + low6 b) [a, b]
  | three {a b c : UInt8} : isThree a b c = true →
      Encoding ((a.toNat % 16 * 64 + low6 b) * 64 + low6 c) [a, b, c]
  | four {a b c d : UInt8} : isFour a b c d = true →
      Encoding (((a.toNat % 8 * 64 + low6 b) * 64 + low6 c) * 64 + low6 d) [a, b, c, d]

theorem isTwo_bounds (h : isTwo a b = true) : 0xC2 ≤ a ∧ a ≤ 0xDF ∧ 0x80 ≤ b := by
  simp only [isTwo, Bool.and_eq_true, decide_eq_true_eq] at h
  exact ⟨h.1.1.1, h.1.1.2, h.1.2⟩

theorem isThree_bounds (h : isThree a b c = true) : 0xE0 ≤ a ∧ a ≤ 0xEF ∧ 0x80 ≤ b ∧ 0x80 ≤ c := by
  simp only [isThree, Bool.and_eq_true, decide_eq_true_eq] at h
  refine ⟨h.1.1.1.1.1, h.1.1.1.1.2, ?_, h.1.2⟩
  have hb := h.1.1.1.2
  split at hb
  · exact UInt8.le_trans (by decide) hb
  · exact hb

theorem isFour_bounds {d : UInt8} (h : isFour a b c d = true) :
    0xF0 ≤ a ∧ 0x80 ≤ b ∧ 0x80 ≤ c ∧ 0x80 ≤ d := by
  simp only [isFour, Bool.and_eq_true, decide_eq_true_eq] at h
  refine ⟨h.1.1.1.1.1.1.1, ?_, h.1.1.1.2, h.1.2⟩
  have hb := h.1.1.1.1.1.2
  split at hb
  · exact UInt8.le_trans (by decide) hb
  · exact hb

theorem Encoding.tail (h : Encoding r bytes) : ∀ b ∈ bytes.tail, 0x80 ≤ b := by
  cases h with
  | one _ => exact fun b hb => by cases hb
  | two h => simpa using (isTwo_bounds h).2.2
  | three h => simpa using (isThree_bounds h).2.2
  | four h => simpa using (isFour_bounds h).2

theorem Encoding.no_ff (h : Encoding r bytes) : (0xff : UInt8) ∉ bytes := by
  cases h <;> grind [isTwo, isThree, isFour]

theorem toNat_mem_range {low high : UInt8} (hlow : low ≤ a) (hhigh : a ≤ high) :
    low.toNat ≤ a.toNat ∧ a.toNat ≤ high.toNat :=
  ⟨UInt8.le_iff_toNat_le.mp hlow, UInt8.le_iff_toNat_le.mp hhigh⟩

theorem isTwo_rune (h : isTwo a b = true) : 0x80 ≤ a.toNat % 32 * 64 + low6 b := by
  obtain ⟨ha, ha', -⟩ := isTwo_bounds h
  have hrange : 0xC2 ≤ a.toNat ∧ a.toNat ≤ 0xDF := toNat_mem_range ha ha'
  omega

/-- No overlong form: a first byte without bits of the rune is followed by one with a high bit. -/
theorem isThree_rune (h : isThree a b c = true) :
    0x80 ≤ (a.toNat % 16 * 64 + low6 b) * 64 + low6 c := by
  obtain ⟨ha, ha', -⟩ := isThree_bounds h
  have hrange : 0xE0 ≤ a.toNat ∧ a.toNat ≤ 0xEF := toNat_mem_range ha ha'
  simp only [isThree, Bool.and_eq_true, decide_eq_true_eq] at h
  by_cases hfirst : a = 0xE0
  · have hlow := h.1.1.1.2
    have hhigh := h.1.1.2
    subst hfirst
    have hsecond : 0xA0 ≤ b.toNat ∧ b.toNat ≤ 0xBF := toNat_mem_range hlow hhigh
    unfold low6
    omega
  · have hne : a.toNat ≠ 0xE0 := fun heq => hfirst (UInt8.toNat_inj.mp heq)
    omega

theorem isFour_rune {d : UInt8} (h : isFour a b c d = true) :
    0x80 ≤ ((a.toNat % 8 * 64 + low6 b) * 64 + low6 c) * 64 + low6 d := by
  simp only [isFour, Bool.and_eq_true, decide_eq_true_eq] at h
  have hrange : 0xF0 ≤ a.toNat ∧ a.toNat ≤ 0xF4 :=
    toNat_mem_range h.1.1.1.1.1.1.1 h.1.1.1.1.1.1.2
  by_cases hfirst : a = 0xF0
  · have hlow := h.1.1.1.1.1.2
    have hhigh := h.1.1.1.1.2
    subst hfirst
    have hsecond : 0x90 ≤ b.toNat ∧ b.toNat ≤ 0xBF := toNat_mem_range hlow hhigh
    unfold low6
    omega
  · have hne : a.toNat ≠ 0xF0 := fun heq => hfirst (UInt8.toNat_inj.mp heq)
    omega

theorem Encoding.ascii_or (h : Encoding r bytes) :
    (∃ a : UInt8, a < 0x80 ∧ r = a.toNat ∧ bytes = [a]) ∨ 0x80 ≤ r ∧ ∀ b ∈ bytes, 0x80 ≤ b := by
  have htail := h.tail
  cases h with
  | one ha => exact .inl ⟨_, ha, rfl, rfl⟩
  | two h =>
    exact .inr ⟨isTwo_rune h, List.forall_mem_cons.mpr
      ⟨UInt8.le_trans (by decide) (isTwo_bounds h).1, htail⟩⟩
  | three h =>
    exact .inr ⟨isThree_rune h, List.forall_mem_cons.mpr
      ⟨UInt8.le_trans (by decide) (isThree_bounds h).1, htail⟩⟩
  | four h =>
    exact .inr ⟨isFour_rune h, List.forall_mem_cons.mpr
      ⟨UInt8.le_trans (by decide) (isFour_bounds h).1, htail⟩⟩

theorem not_le_of_lt (hb : b ≤ a) (hc : c < b) : ¬ a ≤ c := fun ha =>
  absurd (UInt8.lt_of_lt_of_le hc (UInt8.le_trans hb ha)) (UInt8.lt_irrefl c)

/-- **A well formed sequence is read as its rune**, whatever comes behind it. -/
theorem first_of_encoding {tail : Bytes} (h : Encoding r (a :: tail)) (x : Bytes) :
    first a (tail ++ x) = (r, a :: tail) := by
  have hlarge : ∀ {b : UInt8}, b ≤ a → 0x80 ≤ b → ¬ a < 0x80 := fun hb h8 hlt =>
    absurd (UInt8.lt_of_le_of_lt (UInt8.le_trans h8 hb) hlt) (by decide)
  -- the ranges of the first byte are apart
  have htwo : ∀ {b : UInt8}, 0xE0 ≤ a → isTwo a b = false := fun ha =>
    Bool.eq_false_iff.mpr fun h => not_le_of_lt ha (by decide) (isTwo_bounds h).2.1
  have hthree : ∀ {b c : UInt8}, 0xF0 ≤ a → isThree a b c = false := fun ha =>
    Bool.eq_false_iff.mpr fun h => not_le_of_lt ha (by decide) (isThree_bounds h).2.1
  cases h with
  | one ha => exact first_ascii ha _
  | two h2 =>
    have ha := (isTwo_bounds h2).1
    simp [first, hlarge ha (by decide), h2]
  | three h3 =>
    have ha := (isThree_bounds h3).1
    simp [first, hlarge ha (by decide), htwo ha, h3]
  | four h4 =>
    have ha := (isFour_bounds h4).1
    simp [first, hlarge ha (by decide), htwo (UInt8.le_trans (by decide) ha), hthree ha, h4]

theorem first_cases (a : UInt8) (s : Bytes) :
    (∃ r tail x, Encoding r (a :: tail) ∧ s = tail ++ x ∧ first a s = (r, a :: tail)) ∨
      (∀ r tail x, s = tail ++ x → ¬ Encoding r (a :: tail)) ∧ first a s = (runeError, [a]) := by
  by_cases h : ∃ r tail x, Encoding r (a :: tail) ∧ s = tail ++ x
  · obtain ⟨r, tail, x, hr, rfl⟩ := h
    exact .inl ⟨r, tail, x, hr, rfl, first_of_encoding hr x⟩
  · have hnone : ∀ r tail x, s = tail ++ x → ¬ Encoding r (a :: tail) :=
      fun r tail x hs hr => h ⟨r, tail, x, hr, hs⟩
    refine .inr ⟨hnone, ?_⟩
    fun_cases first a s with
    | case1 => exact absurd (.one ‹_›) (hnone _ [] s rfl)
    | case3 ha b s htwo => exact absurd (.two htwo) (hnone _ [b] s rfl)
    | case5 ha b htwo c s hthree => exact absurd (.three hthree) (hnone _ [b, c] s rfl)
    | case7 ha b htwo c hthree d s hfour => exact absurd (.four hfour) (hnone _ [b, c, d] s rfl)
    | _ => rfl

/-- A segment that is not a single ill formed byte. -/
def WellFormed (segment : Rune × Bytes) : Prop :=
  ¬ (segment.1 = runeError ∧ segment.2.length = 1)

theorem Encoding.wellFormed (h : Encoding r bytes) : WellFormed (r, bytes) := by
  rintro ⟨hr, hlength⟩
  cases h with
  | one ha =>
    rename_i a
    have hrune : a.toNat = 0xFFFD := hr
    have hsmall : a.toNat < 0x80 := UInt8.lt_iff_toNat_lt.mp ha
    omega
  | two _ => cases hlength
  | three _ => cases hlength
  | four _ => cases hlength

theorem first_prefix (a : UInt8) (s : Bytes) : (first a s).2 <+: a :: s := by
  rcases first_cases a s with ⟨r, tail, x, -, rfl, h⟩ | ⟨-, h⟩ <;> rw [h]
  · exact ⟨x, rfl⟩
  · exact ⟨s, rfl⟩

theorem first_ne_nil (a : UInt8) (s : Bytes) : (first a s).2 ≠ [] := by
  rcases first_cases a s with ⟨r, tail, x, -, -, h⟩ | ⟨-, h⟩ <;> rw [h] <;> simp

/-- **What is read from a string is read from every beginning of it that has it all.** -/
theorem first_of_prefix {t : Bytes} (h : t <+: s) (hlength : (first a s).2.length ≤ t.length + 1) :
    first a t = first a s := by
  obtain ⟨y, rfl⟩ := h
  rcases first_cases a (t ++ y) with ⟨r, tail, x, hr, hs, hfirst⟩ | ⟨hnone, hfirst⟩ <;>
    rw [hfirst] at hlength ⊢
  · have htail : tail <+: t := List.prefix_of_prefix_length_le ⟨x, hs.symm⟩ ⟨y, rfl⟩
      (by simpa using hlength)
    obtain ⟨z, rfl⟩ := htail
    exact first_of_encoding hr z
  · rcases first_cases a t with ⟨r, tail, x, hr, rfl, -⟩ | ⟨-, hfirst'⟩
    · exact absurd hr (hnone r tail (x ++ y) (List.append_assoc _ _ _))
    · exact hfirst'

/-! ## Cutting between segments -/

theorem first_append_drop (a : UInt8) (s : Bytes) :
    (first a s).2 ++ (a :: s).drop (first a s).2.length = a :: s := by
  obtain ⟨x, hx⟩ := first_prefix a s
  rw [← hx, List.drop_left]

theorem length_drop_first (a : UInt8) (s : Bytes) :
    ((a :: s).drop (first a s).2.length).length ≤ s.length := by
  have := List.length_pos_of_ne_nil (first_ne_nil a s)
  rw [List.length_drop, List.length_cons]
  omega

theorem segmentsLoop_eq : ∀ {n m : Nat} {s : Bytes}, s.length ≤ n → s.length ≤ m →
    segmentsLoop n s = segmentsLoop m s
  | n, m, [], _, _ => by cases n <;> cases m <;> rfl
  | n + 1, m + 1, a :: s, hn, hm => by
    have hrest := length_drop_first a s
    rw [segmentsLoop, segmentsLoop, segmentsLoop_eq
      (Nat.le_trans hrest (Nat.le_of_succ_le_succ hn))
      (Nat.le_trans hrest (Nat.le_of_succ_le_succ hm))]

theorem segments_cons (a : UInt8) (s : Bytes) :
    segments (a :: s) = first a s :: segments ((a :: s).drop (first a s).2.length) := by
  rw [segments, List.length_cons, segmentsLoop, segments,
    segmentsLoop_eq (length_drop_first a s) le_rfl]

/-- What holds of the empty string, and of a string if it holds behind its first segment. -/
theorem segments_induction {P : Bytes → Prop} (nil : P [])
    (cons : ∀ a s, P ((a :: s).drop (first a s).2.length) → P (a :: s)) : ∀ s, P s
  | [] => nil
  | a :: s => cons a s (segments_induction nil cons _)
termination_by s => s.length
decreasing_by exact Nat.lt_succ_of_le (length_drop_first a s)

theorem flatMap_snd_segments (s : Bytes) : (segments s).flatMap Prod.snd = s := by
  induction s using segments_induction with
  | nil => rfl
  | cons a s ih => rw [segments_cons, List.flatMap_cons, ih, first_append_drop]

theorem mem_trimSpaceBytes {b : UInt8} (h : b ∈ trimSpaceBytes s) : b ∈ s := by
  obtain ⟨segment, hsegment, hb⟩ := List.mem_flatMap.mp h
  have hmem : segment ∈ segments s := by
    have := (List.dropWhile_sublist _).subset (List.mem_reverse.mp hsegment)
    exact (List.dropWhile_sublist _).subset (List.mem_reverse.mp this)
  rw [← flatMap_snd_segments s]
  exact List.mem_flatMap.mpr ⟨segment, hmem, hb⟩

theorem segments_first_append {x : Bytes} (h : x <+: (a :: s).drop (first a s).2.length) :
    segments ((first a s).2 ++ x) = first a s :: segments x := by
  obtain ⟨b, tail, hbytes⟩ := List.exists_cons_of_ne_nil (first_ne_nil a s)
  have hwhole := first_append_drop a s
  rw [hbytes, List.cons_append, List.cons.injEq] at hwhole
  obtain ⟨rfl, hs⟩ := hwhole
  have hbegin : tail ++ x <+: s := by
    rw [hbytes] at h
    rw [← hs]
    exact (List.prefix_append_right_inj tail).mpr h
  have hfirst : first b (tail ++ x) = first b s := by
    refine first_of_prefix hbegin ?_
    rw [hbytes, List.length_cons, List.length_append]
    omega
  rw [hbytes, List.cons_append, segments_cons, hfirst, hbytes, ← List.cons_append, List.drop_left]

/-- **The first segments of a string are the segments of what they make up.** -/
theorem segments_flatMap_take : ∀ (n : Nat) (s : Bytes),
    segments (((segments s).take n).flatMap Prod.snd) = (segments s).take n
  | 0, _ => rfl
  | n + 1, [] => rfl
  | n + 1, a :: s => by
    have ih := segments_flatMap_take n ((a :: s).drop (first a s).2.length)
    have hbegin : ((segments ((a :: s).drop (first a s).2.length)).take n).flatMap Prod.snd <+:
        (a :: s).drop (first a s).2.length := by
      conv => rhs; rw [← flatMap_snd_segments ((a :: s).drop (first a s).2.length)]
      exact ⟨_, by rw [← List.flatMap_append, List.take_append_drop]⟩
    rw [segments_cons, List.take_succ_cons, List.flatMap_cons, segments_first_append hbegin, ih]

/-- **The last segments of a string are the segments of what they make up.** -/
theorem segments_flatMap_drop : ∀ (n : Nat) (s : Bytes),
    segments (((segments s).drop n).flatMap Prod.snd) = (segments s).drop n
  | 0, s => by rw [List.drop_zero, flatMap_snd_segments]
  | n + 1, [] => rfl
  | n + 1, a :: s => by
    rw [segments_cons, List.drop_succ_cons]
    exact segments_flatMap_drop n _

theorem segments_flatMap_infix {l : List (Rune × Bytes)} (h : l <:+: segments s) :
    segments (l.flatMap Prod.snd) = l := by
  obtain ⟨before, after, hs⟩ := h
  have htake : segments ((before ++ l).flatMap Prod.snd) = before ++ l := by
    have := segments_flatMap_take (before ++ l).length s
    rwa [← hs, List.take_left] at this
  have hdrop := segments_flatMap_drop before.length ((before ++ l).flatMap Prod.snd)
  rwa [htake, List.drop_left] at hdrop

/-- **Well formed sequences can be put together.** -/
theorem segments_encoding_append (h : Encoding r bytes) (x : Bytes) :
    segments (bytes ++ x) = (r, bytes) :: segments x := by
  cases bytes with
  | nil => cases h
  | cons a tail =>
    rw [List.cons_append, segments_cons, first_of_encoding h, ← List.cons_append, List.drop_left]

theorem segments_of_ascii : ∀ {s : Bytes}, (∀ b ∈ s, b < 0x80) →
    segments s = s.map (fun b => (b.toNat, [b]))
  | [], _ => rfl
  | b :: s, h => by
    rw [List.forall_mem_cons] at h
    rw [List.map_cons, ← segments_of_ascii h.2]
    exact segments_encoding_append (.one h.1) s

theorem runes_of_ascii (h : ∀ b ∈ s, b < 0x80) : runes s = s.map UInt8.toNat := by
  rw [runes, segments_of_ascii h, List.map_map]
  rfl

/-- **An ASCII byte is a segment of its own**, wherever it stands. -/
theorem segments_append_ascii {c : UInt8} (hc : c < 0x80) (t s : Bytes) :
    segments (s ++ c :: t) = segments s ++ (c.toNat, [c]) :: segments t := by
  induction s using segments_induction with
  | nil => exact segments_encoding_append (.one hc) t
  | cons a s ih =>
    -- the first segment cannot reach as far as `c`
    have hshort : (first a (s ++ c :: t)).2.length ≤ s.length + 1 := by
      rcases first_cases a (s ++ c :: t) with ⟨r, tail, x, hr, hsplit, hfirst⟩ | ⟨-, hfirst⟩ <;>
        rw [hfirst]
      · by_contra hlong
        rw [List.length_cons] at hlong
        have hreach : s ++ [c] <+: tail := List.prefix_of_prefix_length_le
          ⟨t, by rw [List.append_assoc]; rfl⟩ ⟨x, hsplit.symm⟩ (by
            rw [List.length_append, List.length_singleton]
            omega)
        have hlarge := hr.tail c (hreach.subset (by simp))
        exact absurd (UInt8.lt_of_lt_of_le hc hlarge) (UInt8.lt_irrefl c)
      · exact Nat.succ_le_succ (Nat.zero_le _)
    have hfirst := first_of_prefix (List.prefix_append s (c :: t)) hshort
    rw [List.cons_append, segments_cons, ← hfirst, segments_cons, ← List.cons_append,
      List.drop_append_of_le_length (by rw [hfirst]; exact hshort), ih]
    rfl

/-! ## Dropping at both ends -/

section

variable {α : Type} {p : α → Bool}

theorem dropWhile_append_cons {a : α} (ha : p a = false) (after : List α) : ∀ before : List α,
    (before ++ a :: after).dropWhile p = before.dropWhile p ++ a :: after
  | [] => by rw [List.nil_append, List.dropWhile_cons_of_neg (by simp [ha])]; rfl
  | b :: before => by
    have ih := dropWhile_append_cons ha after before
    by_cases hb : p b = true
    · rw [List.cons_append, List.dropWhile_cons_of_pos hb, List.dropWhile_cons_of_pos hb, ih]
    · rw [List.cons_append, List.dropWhile_cons_of_neg hb, List.dropWhile_cons_of_neg hb]
      rfl

theorem rdropWhile_append_cons {a : α} (ha : p a = false) (before after : List α) :
    (before ++ a :: after).rdropWhile p = before ++ a :: after.rdropWhile p := by
  have hrev : (before ++ a :: after).reverse = after.reverse ++ a :: before.reverse := by simp
  rw [List.rdropWhile, hrev, dropWhile_append_cons ha]
  simp [List.rdropWhile]

theorem rdropWhile_dropWhile (l : List α) :
    (l.dropWhile p).rdropWhile p = (l.rdropWhile p).dropWhile p := by
  by_cases hall : ∀ a ∈ l, p a = true
  · rw [List.dropWhile_eq_nil_iff.mpr hall, List.rdropWhile_eq_nil_iff.mpr hall]
    rfl
  · obtain ⟨a, hmem, ha⟩ := not_forall₂.mp hall
    have ha' : p a = false := Bool.eq_false_iff.mpr ha
    obtain ⟨before, after, rfl⟩ := List.append_of_mem hmem
    rw [dropWhile_append_cons ha', rdropWhile_append_cons ha', rdropWhile_append_cons ha',
      dropWhile_append_cons ha']

end

/-! ## Trimming -/

theorem trimSpace_of_no_space {rs : List Rune} (h : ∀ r ∈ rs, isSpace r = false) :
    trimSpace rs = rs := by
  have hself : ∀ {l : List Rune}, (∀ r ∈ l, isSpace r = false) → l.dropWhile isSpace = l := by
    intro l hl
    cases l with
    | nil => rfl
    | cons r l => exact List.dropWhile_cons_of_neg (by simp [hl r List.mem_cons_self])
  rw [trimSpace, hself h, hself (fun r hr => h r (List.mem_reverse.mp hr)), List.reverse_reverse]

def isBlank (segment : Rune × Bytes) : Bool := isSpace segment.1

/-- `strings.TrimLeftFunc` with `unicode.IsSpace`. -/
def trimLeftSpace (s : Bytes) : Bytes := ((segments s).dropWhile isBlank).flatMap Prod.snd

/-- `strings.TrimRightFunc` with `unicode.IsSpace`. -/
def trimRightSpace (s : Bytes) : Bytes := ((segments s).rdropWhile isBlank).flatMap Prod.snd

theorem trimSpaceBytes_eq (s : Bytes) :
    trimSpaceBytes s = (((segments s).dropWhile isBlank).rdropWhile isBlank).flatMap Prod.snd := rfl

theorem segments_trimRightSpace (s : Bytes) :
    segments (trimRightSpace s) = (segments s).rdropWhile isBlank :=
  segments_flatMap_infix ( List.rdropWhile_prefix _ _).isInfix

theorem segments_trimSpaceBytes (s : Bytes) :
    segments (trimSpaceBytes s) = ((segments s).dropWhile isBlank).rdropWhile isBlank :=
  segments_flatMap_infix
    (( List.rdropWhile_prefix _ _).isInfix.trans (List.dropWhile_suffix _).isInfix)

/-- **Trimming twice is trimming once.** -/
theorem trimSpaceBytes_idem (s : Bytes) : trimSpaceBytes (trimSpaceBytes s) = trimSpaceBytes s := by
  rw [trimSpaceBytes_eq, segments_trimSpaceBytes, ← rdropWhile_dropWhile,
    List.dropWhile_idempotent, List.rdropWhile_idempotent]
  rfl

theorem trimSpaceBytes_trimRightSpace (s : Bytes) :
    trimSpaceBytes (trimRightSpace s) = trimSpaceBytes s := by
  rw [trimSpaceBytes_eq, segments_trimRightSpace, rdropWhile_dropWhile,
    List.rdropWhile_idempotent, ← rdropWhile_dropWhile]
  rfl

theorem trimSpaceBytes_trimLeftSpace (s : Bytes) :
    trimSpaceBytes (trimLeftSpace s) = trimSpaceBytes s := by
  have hsegments : segments (trimLeftSpace s) = (segments s).dropWhile isBlank :=
    segments_flatMap_infix (List.dropWhile_suffix _).isInfix
  rw [trimSpaceBytes_eq, hsegments, List.dropWhile_idempotent]
  rfl

theorem trimLeftSpace_subset (s : Bytes) : trimLeftSpace s ⊆ s := by
  intro b hb
  obtain ⟨e, he, hbe⟩ := List.mem_flatMap.mp hb
  rw [← flatMap_snd_segments s]
  exact List.mem_flatMap.mpr ⟨e, (List.dropWhile_suffix _).subset he, hbe⟩

theorem trim_sides (h : trimSpaceBytes s = s) : trimLeftSpace s = s ∧ trimRightSpace s = s := by
  have hsegments := segments_trimSpaceBytes s
  rw [h] at hsegments
  have hlength := congrArg List.length hsegments
  have hleft : (segments s).dropWhile isBlank = segments s := by
    refine (List.dropWhile_suffix isBlank).eq_of_length (Nat.le_antisymm ?_ ?_)
    · exact (List.dropWhile_suffix isBlank).length_le
    · rw [hlength]
      exact ( List.rdropWhile_prefix _ _).length_le
  rw [hleft] at hsegments
  rw [trimLeftSpace, trimRightSpace, hleft, ← hsegments, flatMap_snd_segments]
  exact ⟨rfl, rfl⟩

theorem trimLeftSpace_of_no_space (h : ∀ e ∈ segments s, isBlank e = false) :
    trimLeftSpace s = s := by
  have hself : (segments s).dropWhile isBlank = segments s := by
    rw [List.dropWhile_eq_self_iff]
    exact fun hne => by simp [h _ (List.getElem_mem hne)]
  rw [trimLeftSpace, hself, flatMap_snd_segments]

theorem trimRightSpace_subset (s : Bytes) : trimRightSpace s ⊆ s := by
  intro b hb
  obtain ⟨e, he, hbe⟩ := List.mem_flatMap.mp hb
  rw [← flatMap_snd_segments s]
  exact List.mem_flatMap.mpr ⟨e, ( List.rdropWhile_prefix _ _).subset he, hbe⟩

/-- **Trimming around an ASCII byte that is no white space.** -/
theorem trimSpaceBytes_append_ascii (hc : c < 0x80) (hspace : isSpace c.toNat = false) (s t : Bytes)
    :
    trimSpaceBytes (s ++ c :: t) = trimLeftSpace s ++ c :: trimRightSpace t := by
  have hblank : isBlank (c.toNat, [c]) = false := hspace
  rw [trimSpaceBytes_eq, segments_append_ascii hc, dropWhile_append_cons hblank,
    rdropWhile_append_cons hblank, List.flatMap_append, List.flatMap_cons]
  rfl

theorem trimRightSpace_append_ascii (hc : c < 0x80) (hspace : isSpace c.toNat = false) (s t : Bytes)
    :
    trimRightSpace (s ++ c :: t) = s ++ c :: trimRightSpace t := by
  have hblank : isBlank (c.toNat, [c]) = false := hspace
  rw [trimRightSpace, segments_append_ascii hc, rdropWhile_append_cons hblank,
    List.flatMap_append, List.flatMap_cons, flatMap_snd_segments]
  rfl

/-- Parts that are joined by such a byte: only the last one is trimmed at its end. -/
theorem trimRightSpace_intercalate {c : UInt8} (hc : c < 0x80) (hspace : isSpace c.toNat = false)
    (last : Bytes) : ∀ before : List Bytes,
    trimRightSpace ([c].intercalate (before ++ [last])) =
      [c].intercalate (before ++ [trimRightSpace last])
  | [] => by simp
  | part :: before => by
    rw [List.cons_append, List.cons_append, List.intercalate_cons_of_ne_nil (by simp),
      List.intercalate_cons_of_ne_nil (by simp), List.append_assoc, List.append_assoc,
      List.singleton_append, List.singleton_append, trimRightSpace_append_ascii hc hspace,
      trimRightSpace_intercalate hc hspace last before]

theorem trimSpaceBytes_ne_nil (hc : c < 0x80) (hspace : isSpace c.toNat = false) (hmem : c ∈ s) :
    trimSpaceBytes s ≠ [] := by
  obtain ⟨before, after, rfl⟩ := List.append_of_mem hmem
  rw [trimSpaceBytes_append_ascii hc hspace]
  simp

/-! ## Valid strings -/

/-- `utf8.ValidString`. -/
def ValidUTF8 (s : Bytes) : Prop := ∀ e ∈ segments s, WellFormed e

theorem exists_first_of_mem {e : Rune × Bytes} (he : e ∈ segments s) : ∃ a t, e = first a t := by
  induction s using segments_induction with
  | nil => cases he
  | cons a s ih =>
    rw [segments_cons, List.mem_cons] at he
    rcases he with rfl | he
    · exact ⟨a, s, rfl⟩
    · exact ih he

theorem ascii_or_of_mem_segments {e : Rune × Bytes} (he : e ∈ segments s) :
    (∃ a : UInt8, a < 0x80 ∧ e = (a.toNat, [a])) ∨
      0x80 ≤ e.1 ∧ e.2 ≠ [] ∧ ∀ b ∈ e.2, 0x80 ≤ b := by
  obtain ⟨a, t, rfl⟩ := exists_first_of_mem he
  have hne := first_ne_nil a t
  rcases first_cases a t with ⟨r, tail, x, hr, -, hfirst⟩ | ⟨hnone, hfirst⟩
  · rw [hfirst] at hne ⊢
    rcases hr.ascii_or with ⟨c, hc, rfl, hbytes⟩ | ⟨hrune, hbytes⟩
    · exact .inl ⟨c, hc, by rw [hbytes]⟩
    · exact .inr ⟨hrune, hne, hbytes⟩
  · rw [hfirst] at hne ⊢
    have hrune : 0x80 ≤ runeError := by decide
    refine .inr ⟨hrune, hne, fun b hb => ?_⟩
    rw [List.mem_singleton.mp hb]
    exact UInt8.not_lt.mp fun ha => hnone _ [] t rfl (.one ha)

theorem encoding_of_mem_segments {e : Rune × Bytes} (he : e ∈ segments s) (hwell : WellFormed e) :
    Encoding e.1 e.2 := by
  obtain ⟨a, t, rfl⟩ := exists_first_of_mem he
  rcases first_cases a t with ⟨r, tail, x, hr, -, hfirst⟩ | ⟨-, hfirst⟩
  · rw [hfirst]
    exact hr
  · rw [hfirst] at hwell
    exact absurd ⟨rfl, rfl⟩ hwell

theorem toValidLoop_of_wellFormed (replacement : Bytes) : ∀ (l : List (Rune × Bytes))
    (invalid : Bool), (∀ e ∈ l, WellFormed e) →
    toValidLoop replacement invalid l = l.flatMap Prod.snd
  | [], _, _ => rfl
  | (r, bytes) :: rest, invalid, h => by
    rw [List.forall_mem_cons] at h
    rw [toValidLoop, if_neg h.1, toValidLoop_of_wellFormed replacement rest false h.2]
    rfl

/-- **A valid string stays as it is.** -/
theorem toValidUTF8_of_valid (h : ValidUTF8 s) (replacement : Bytes) :
    toValidUTF8 s replacement = s := by
  rw [toValidUTF8, toValidLoop_of_wellFormed replacement _ false h, flatMap_snd_segments]

theorem valid_encoding_append {x : Bytes} (h : Encoding r bytes) (hx : ValidUTF8 x) :
    ValidUTF8 (bytes ++ x) := by
  rw [ValidUTF8, segments_encoding_append h, List.forall_mem_cons]
  exact ⟨h.wellFormed, hx⟩

theorem valid_toValidLoop {r : Rune} {replacement : Bytes} (hr : Encoding r replacement) :
    ∀ (l : List (Rune × Bytes)) (invalid : Bool),
      (∀ e ∈ l, WellFormed e → Encoding e.1 e.2) → ValidUTF8 (toValidLoop replacement invalid l)
  | [], _, _ => fun e he => by cases he
  | (rune, bytes) :: rest, invalid, h => by
    rw [List.forall_mem_cons] at h
    unfold toValidLoop
    split
    · have ih := valid_toValidLoop hr rest true h.2
      cases invalid with
      | true => exact ih
      | false => exact valid_encoding_append hr ih
    · next hwell => exact valid_encoding_append (h.1 hwell) (valid_toValidLoop hr rest false h.2)

/-- **The result of `ToValidUTF8` is valid.** -/
theorem valid_toValidUTF8 {replacement : Bytes} (hr : Encoding r replacement) (s : Bytes) :
    ValidUTF8 (toValidUTF8 s replacement) :=
  valid_toValidLoop hr _ false fun _ he hwell => encoding_of_mem_segments he hwell

theorem ValidUTF8.no_ff (h : ValidUTF8 s) : (0xff : UInt8) ∉ s := by
  intro hmem
  rw [← flatMap_snd_segments s] at hmem
  obtain ⟨e, he, hff⟩ := List.mem_flatMap.mp hmem
  exact (encoding_of_mem_segments he (h e he)).no_ff hff

theorem ValidUTF8.trimSpaceBytes {s : Bytes} (h : ValidUTF8 s) :
    ValidUTF8 (trimSpaceBytes s) := by
  intro e he
  rw [segments_trimSpaceBytes] at he
  exact h e ((List.dropWhile_suffix _).subset (( List.rdropWhile_prefix _ _).subset he))

end Infra
