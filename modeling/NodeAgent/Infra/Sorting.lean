import Mathlib.Data.List.Sort
import NodeAgent.Infra.Bytes

/-!
# Sorting

A list that is sorted by distinct keys is determined by its elements, and byte strings are compared
from the first byte on.

* `insertionSort_eq_of_sorted` — what sorting returns
* `zeroPadded_lt` — numbers of one width are sorted as numbers
-/

namespace Infra

section

variable {α κ : Type} [LT κ] [LE κ] [DecidableLE κ] [Std.IsLinearOrder κ] [Std.LawfulOrderLT κ]

theorem insertionSort_eq_of_sorted (key : α → κ) {l sorted : List α} (hnodup : l.Nodup)
    (hsorted : sorted.Pairwise (fun a b => key a < key b)) (hmem : ∀ a, a ∈ sorted ↔ a ∈ l) :
    l.insertionSort (fun a b => key a ≤ key b) = sorted := by
  have : Std.Total fun a b : α => key a ≤ key b := ⟨fun a b => Std.le_total⟩
  have : IsTrans α fun a b => key a ≤ key b := ⟨fun a b c => Std.le_trans⟩
  have hle : sorted.Pairwise (fun a b => key a ≤ key b) :=
    hsorted.imp fun h => Std.le_of_lt h
  have hkeys : (sorted.map key).Nodup := by
    rw [List.Nodup, List.pairwise_map]
    refine hsorted.imp fun {a b} h he => ?_
    rw [he] at h
    exact Std.lt_irrefl h
  refine List.Perm.eq_of_pairwise (fun a b ha hb hab hba => ?_)
    (List.pairwise_insertionSort _ _) hle ?_
  · have ha' : a ∈ sorted := (hmem a).mpr ((List.mem_insertionSort _).mp ha)
    exact List.inj_on_of_nodup_map hkeys ha' hb (Std.le_antisymm hab hba)
  · refine (List.perm_insertionSort _ _).trans ?_
    exact (List.perm_ext_iff_of_nodup hnodup hkeys.of_map).mpr fun a => (hmem a).symm

end

/-! ## Byte strings -/

theorem append_lt_append {α : Type} [LT α] : ∀ {a b : List α}, a.length = b.length → a < b →
    ∀ x y : List α, a ++ x < b ++ y
  | [], [], _, h, _, _ => absurd h (List.not_lt_nil _)
  | c :: a, d :: b, hlen, h, x, y => by
    rw [List.cons_append, List.cons_append, List.cons_lt_cons_iff]
    rcases List.cons_lt_cons_iff.mp h with hcd | ⟨rfl, hab⟩
    · exact Or.inl hcd
    · exact Or.inr ⟨rfl, append_lt_append (by simpa using hlen) hab x y⟩

/-- The last `width` decimal digits of a number. -/
def digits : Nat → Nat → Bytes
  | 0, _ => []
  | width + 1, n => digits width (n / 10) ++ [UInt8.ofNat (48 + n % 10)]

@[simp] theorem length_digits : ∀ width n : Nat, (digits width n).length = width
  | 0, _ => rfl
  | width + 1, n => by rw [digits, List.length_append, length_digits width]; rfl

theorem digitChar_byte {d : Nat} (h : d < 10) :
    UInt8.ofNat d.digitChar.toNat = UInt8.ofNat (48 + d) := by
  have hall : ∀ e ∈ List.range 10, UInt8.ofNat e.digitChar.toNat = UInt8.ofNat (48 + e) := by
    decide
  exact hall d (List.mem_range.mpr h)

theorem digits_zero (width : Nat) : digits width 0 = List.replicate width 48 := by
  induction width with
  | zero => rfl
  | succ width ih => rw [digits, Nat.zero_div, ih, List.replicate_succ']; rfl

theorem leftpad_decimal : ∀ {width n : Nat}, 0 < width → n < 10 ^ width →
    (decimal n).leftpad width 48 = digits width n
  | width + 1, n, _, h => by
    by_cases hn : n < 10
    · rw [decimal, Nat.toDigits_of_lt_base hn, digits, Nat.div_eq_of_lt hn, digits_zero,
        Nat.mod_eq_of_lt hn, ← digitChar_byte hn]
      rfl
    · have hwidth : 0 < width := by
        rcases Nat.eq_zero_or_pos width with rfl | hpos
        · simp at h
          omega
        · exact hpos
      have hdiv : n / 10 < 10 ^ width := by
        rw [Nat.pow_succ] at h
        omega
      have ih := leftpad_decimal hwidth hdiv
      have hdec : decimal n = decimal (n / 10) ++ [UInt8.ofNat (48 + n % 10)] := by
        rw [decimal, decimal, Nat.toDigits_of_base_le (by decide) (by omega), List.map_append,
          List.map_cons, List.map_nil, digitChar_byte (Nat.mod_lt _ (by decide))]
      rw [digits, ← ih, hdec, List.leftpad, List.leftpad, List.length_append,
        ← List.append_assoc]
      simp

theorem digits_lt : ∀ {width m n : Nat}, m < n → n < 10 ^ width → digits width m < digits width n
  | 0, m, n, hlt, hn => by simp at hn; omega
  | width + 1, m, n, hlt, hn => by
    rw [digits, digits]
    by_cases hdiv : m / 10 = n / 10
    · rw [hdiv]
      refine List.append_left_lt (List.cons_lt_cons_iff.mpr (Or.inl ?_))
      rw [UInt8.lt_iff_toNat_lt, UInt8.toNat_ofNat', UInt8.toNat_ofNat']
      omega
    · have hn' : n / 10 < 10 ^ width := by
        rw [Nat.pow_succ] at hn
        omega
      exact append_lt_append (by simp) (digits_lt (by omega) hn') _ _

theorem zeroPadded_eq_digits {width : Nat} {n : Int} (h0 : 0 ≤ n) (hn : n < 10 ^ width)
    (hwidth : 0 < width) : zeroPadded width n = digits width n.toNat := by
  have hnat : n.toNat < 10 ^ width := (Int.toNat_lt h0).mpr (by simpa using hn)
  rw [zeroPadded, if_neg (by omega), show n.natAbs = n.toNat by omega,
    leftpad_decimal hwidth hnat]

theorem zeroPadded_lt {width : Nat} {m n : Int} (hm : 0 ≤ m) (hlt : m < n) (hn : n < 10 ^ width)
    (hwidth : 0 < width) : zeroPadded width m < zeroPadded width n := by
  rw [zeroPadded_eq_digits hm (by omega) hwidth, zeroPadded_eq_digits (by omega) hn hwidth]
  exact digits_lt (by omega) ((Int.toNat_lt (by omega)).mpr (by simpa using hn))

theorem length_zeroPadded {width : Nat} {n : Int} (h0 : 0 ≤ n) (hn : n < 10 ^ width)
    (hwidth : 0 < width) : (zeroPadded width n).length = width := by
  rw [zeroPadded_eq_digits h0 hn hwidth, length_digits]

theorem leftpad_leftpad {α : Type} {v w : Nat} (h : v ≤ w) (x : α) (l : List α) :
    (l.leftpad v x).leftpad w x = l.leftpad w x := by
  rw [List.leftpad, List.length_leftpad, List.leftpad, List.leftpad, ← List.append_assoc,
    List.replicate_append_replicate]
  congr 2
  omega

theorem zeroPadded_inj {width m n : Nat} (h : zeroPadded width m = zeroPadded width n) :
    m = n := by
  let w := width + m + n + 1
  have hpow : w < 10 ^ w := Nat.lt_pow_self (by decide)
  have hpad : ∀ k : Nat, k ≤ w → (zeroPadded width k).leftpad w 48 = digits w k := by
    intro k hk
    rw [zeroPadded, if_neg (by omega), leftpad_leftpad (by omega), Int.natAbs_natCast]
    exact leftpad_decimal (by omega) (by omega)
  have hdigits : digits w m = digits w n := by rw [← hpad m (by omega), h, hpad n (by omega)]
  rcases Nat.lt_trichotomy m n with hlt | heq | hlt
  · have := digits_lt hlt (show n < 10 ^ w by omega)
    rw [hdigits] at this
    exact absurd this (List.lt_irrefl _)
  · exact heq
  · have := digits_lt hlt (show m < 10 ^ w by omega)
    rw [hdigits] at this
    exact absurd this (List.lt_irrefl _)

end Infra
