import Mathlib.Algebra.Order.Ring.Int
import Mathlib.Data.List.AList
import Mathlib.Data.List.Sort
import Mathlib.Logic.Relation

/-!
# Dictionaries

A Go map is a finite map without an order. What the program does with a map in the order of its
keys goes through `sortedEntries`; a loop that deletes entries is `filter`, and `sumOf` adds up a
measure of the values.
-/

namespace Infra

abbrev Dict (κ ν : Type) := AList (fun _ : κ => ν)

namespace Dict

variable {κ ν : Type} {m : Dict κ ν} {k : κ} {v : ν} {f : ν → Nat}

def sortedEntries [LE κ] [DecidableLE κ] (m : Dict κ ν) : List (κ × ν) :=
  (m.entries.map (fun e => (e.1, e.2))).insertionSort (fun a b => a.1 ≤ b.1)

theorem mem_sortedEntries [DecidableEq κ] [LE κ] [DecidableLE κ] :
    (k, v) ∈ m.sortedEntries ↔ m.lookup k = some v := by
  rw [sortedEntries, List.mem_insertionSort, List.mem_map, ← Option.mem_def, AList.mem_lookup_iff]
  constructor
  · rintro ⟨⟨k', v'⟩, hm, he⟩
    obtain ⟨rfl, rfl⟩ := Prod.mk.inj he
    exact hm
  · exact fun hm => ⟨⟨k, v⟩, hm, rfl⟩

theorem length_sortedEntries [LE κ] [DecidableLE κ] (m : Dict κ ν) :
    m.sortedEntries.length = m.entries.length := by
  rw [sortedEntries, List.length_insertionSort, List.length_map]

theorem nodup_keys_sortedEntries [LE κ] [DecidableLE κ] (m : Dict κ ν) :
    (m.sortedEntries.map Prod.fst).Nodup := by
  have hperm : (m.sortedEntries.map Prod.fst).Perm (m.entries.map Sigma.fst) := by
    refine ((List.perm_insertionSort _ _).map _).trans (.of_eq ?_)
    rw [List.map_map]
    rfl
  exact hperm.nodup_iff.mpr m.nodupKeys

theorem pairwise_keys_sortedEntries [LE κ] [DecidableLE κ] (htotal : ∀ a b : κ, a ≤ b ∨ b ≤ a)
    (htrans : ∀ a b c : κ, a ≤ b → b ≤ c → a ≤ c) (m : Dict κ ν) :
    (m.sortedEntries.map Prod.fst).Pairwise (· ≤ ·) := by
  have : Std.Total fun a b : κ × ν => a.1 ≤ b.1 := ⟨fun a b => htotal a.1 b.1⟩
  have : IsTrans (κ × ν) fun a b => a.1 ≤ b.1 := ⟨fun a b c => htrans a.1 b.1 c.1⟩
  exact List.pairwise_map.mpr (List.pairwise_insertionSort _ _)

theorem eq_of_sorted [LE κ] (hantisymm : ∀ a b : κ, a ≤ b → b ≤ a → a = b) {l l' : List (κ × ν)}
    (hl : (l.map Prod.fst).Nodup) (hl' : (l'.map Prod.fst).Nodup)
    (hsorted : (l.map Prod.fst).Pairwise (· ≤ ·)) (hsorted' : (l'.map Prod.fst).Pairwise (· ≤ ·))
    (hmem : ∀ e, e ∈ l ↔ e ∈ l') : l = l' := by
  refine List.Perm.eq_of_pairwise (fun a b ha hb hab hba => ?_) (List.pairwise_map.mp hsorted)
    (List.pairwise_map.mp hsorted') ((List.perm_ext_iff_of_nodup hl.of_map hl'.of_map).mpr hmem)
  -- two entries with the same key are the same entry
  exact List.inj_on_of_nodup_map hl ha ((hmem b).mpr hb) (hantisymm a.1 b.1 hab hba)

/-- The sorted entries do not depend on the order in which the map was filled. -/
theorem sortedEntries_congr [DecidableEq κ] [LE κ] [DecidableLE κ]
    (htotal : ∀ a b : κ, a ≤ b ∨ b ≤ a) (htrans : ∀ a b c : κ, a ≤ b → b ≤ c → a ≤ c)
    (hantisymm : ∀ a b : κ, a ≤ b → b ≤ a → a = b) {m' : Dict κ ν}
    (h : ∀ k, m.lookup k = m'.lookup k) : m.sortedEntries = m'.sortedEntries :=
  eq_of_sorted hantisymm (nodup_keys_sortedEntries m) (nodup_keys_sortedEntries m')
    (pairwise_keys_sortedEntries htotal htrans m) (pairwise_keys_sortedEntries htotal htrans m')
    fun e => by rw [mem_sortedEntries, mem_sortedEntries, h]

/-! ## A loop over the entries -/

/-- A loop over entries with different keys, whose step for one entry leaves the others as they
were, is a chain of steps. -/
theorem foldl_chain {σ : Type} {T : σ → σ → Prop} {P : σ → (Sigma fun _ : κ => ν) → Prop}
    {f : σ → (Sigma fun _ : κ => ν) → σ}
    (hstep : ∀ s e, P s e → Relation.ReflTransGen T s (f s e))
    (hkeep : ∀ s e e', P s e → P s e' → e'.1 ≠ e.1 → P (f s e) e') :
    ∀ (l : List (Sigma fun _ : κ => ν)) (s : σ), l.NodupKeys → (∀ e ∈ l, P s e) →
      Relation.ReflTransGen T s (l.foldl f s)
  | [], _, _, _ => .refl
  | e :: l, s, hnodup, hP => by
    obtain ⟨hkey, hnodup⟩ := List.nodupKeys_cons.mp hnodup
    have he := hP e List.mem_cons_self
    refine (hstep s e he).trans (foldl_chain hstep hkeep l _ hnodup fun e' he' => ?_)
    refine hkeep s e e' he (hP e' (List.mem_cons_of_mem _ he')) fun heq => hkey ?_
    rw [← heq]
    exact List.mem_keys_of_mem he'

/-! ## Deleting in a loop -/

variable [DecidableEq κ]

/-- The entries that are kept, when a loop over the map deletes the others. -/
def filter (m : Dict κ ν) (keep : κ → ν → Bool) : Dict κ ν :=
  m.entries.foldl (fun m e => if keep e.1 e.2 then m else m.erase e.1) m

theorem lookup_foldl_erase {l : List (Sigma fun _ : κ => ν)} {keep : κ → ν → Bool} :
    ∀ {m : Dict κ ν}, (l.foldl (fun m e => if keep e.1 e.2 then m else m.erase e.1) m).lookup k =
      if ∃ e ∈ l, e.1 = k ∧ keep e.1 e.2 = false then none else m.lookup k := by
  induction l with
  | nil => simp
  | cons e l ih =>
    intro m
    rw [List.foldl_cons, ih]
    by_cases hl : ∃ e ∈ l, e.1 = k ∧ keep e.1 e.2 = false
    · have hl' : ∃ e' ∈ e :: l, e'.1 = k ∧ keep e'.1 e'.2 = false :=
        hl.imp fun _ h => ⟨List.mem_cons_of_mem _ h.1, h.2⟩
      rw [if_pos hl, if_pos hl']
    · rw [if_neg hl]
      by_cases he : e.1 = k ∧ keep e.1 e.2 = false
      · have hl' : ∃ e' ∈ e :: l, e'.1 = k ∧ keep e'.1 e'.2 = false :=
          ⟨e, List.mem_cons_self, he⟩
        rw [if_pos hl', he.2, ← he.1]
        exact AList.lookup_erase e.1 m
      · have hl' : ¬ ∃ e' ∈ e :: l, e'.1 = k ∧ keep e'.1 e'.2 = false := by
          rintro ⟨e', he', h'⟩
          rcases List.mem_cons.mp he' with rfl | hmem
          · exact he h'
          · exact hl ⟨e', hmem, h'⟩
        rw [if_neg hl']
        split
        · rfl
        · rename_i hkeep
          exact AList.lookup_erase_ne fun hk => he ⟨hk.symm, Bool.not_eq_true _ ▸ hkeep⟩

/-- **A loop that deletes entries leaves those it keeps, as they are.** -/
theorem lookup_filter (m : Dict κ ν) (keep : κ → ν → Bool) (k : κ) :
    (m.filter keep).lookup k = (m.lookup k).filter (keep k) := by
  rw [filter, lookup_foldl_erase]
  cases hv : m.lookup k with
  | none => simp
  | some v =>
    have hmem := AList.mem_lookup_iff.mp (Option.mem_def.mpr hv)
    rw [Option.filter_some]
    by_cases hk : keep k v = true
    · rw [if_pos hk, if_neg]
      rintro ⟨⟨k', v'⟩, hmem', rfl, hfalse⟩
      have := AList.mem_lookup_iff.mpr hmem'
      rw [Option.mem_def, hv, Option.some.injEq] at this
      subst this
      rw [hk] at hfalse
      cases hfalse
    · rw [if_neg hk, if_pos ⟨⟨k, v⟩, hmem, rfl, Bool.not_eq_true _ ▸ hk⟩]

theorem lookup_of_mem {e : Sigma fun _ : κ => ν} (h : e ∈ m.entries) : m.lookup e.1 = some e.2 :=
  Option.mem_def.mp (AList.mem_lookup_iff.mpr h)

theorem mem_entries {e : Sigma fun _ : κ => ν} : e ∈ m.entries ↔ m.lookup e.1 = some e.2 :=
  ⟨lookup_of_mem, fun h => AList.mem_lookup_iff.mp (Option.mem_def.mpr h)⟩

theorem perm_filter (m : Dict κ ν) (keep : κ → ν → Bool) :
    (m.filter keep).entries.Perm (m.entries.filter fun e => keep e.1 e.2) := by
  refine (List.perm_ext_iff_of_nodup (m.filter keep).nodupKeys.nodup
    (m.nodupKeys.nodup.filter _)).mpr fun e => ?_
  rw [mem_entries, lookup_filter, List.mem_filter, mem_entries, Option.filter_eq_some_iff]

/-! ## What is found after a change -/

theorem of_lookup_insert {k' : κ} {v' : ν} (h : (m.insert k v).lookup k' = some v') :
    k' = k ∧ v = v' ∨ k' ≠ k ∧ m.lookup k' = some v' := by
  by_cases hk : k' = k
  · rw [hk, AList.lookup_insert, Option.some.injEq] at h
    exact .inl ⟨hk, h⟩
  · rw [AList.lookup_insert_ne hk] at h
    exact .inr ⟨hk, h⟩

theorem of_lookup_erase {k' : κ} (h : (m.erase k).lookup k' = some v) :
    k' ≠ k ∧ m.lookup k' = some v := by
  by_cases hk : k' = k
  · rw [hk, AList.lookup_erase] at h
    cases h
  · rw [AList.lookup_erase_ne hk] at h
    exact ⟨hk, h⟩

theorem lookup_insert_eq (m : Dict κ ν) (key k : κ) (v : ν) :
    (m.insert key v).lookup k = if k = key then some v else m.lookup k := by
  by_cases hk : k = key
  · rw [if_pos hk, hk, AList.lookup_insert]
  · rw [if_neg hk, AList.lookup_insert_ne hk]

theorem erase_insert_of_notMem (h : k ∉ m) : (m.insert k v).erase k = m := by
  refine AList.ext ?_
  show List.kerase k (m.insert k v).entries = m.entries
  rw [AList.entries_insert_of_notMem h]
  exact List.kerase_cons_eq rfl

/-! ## Sums over the values -/

def sumOf (f : ν → Nat) (m : Dict κ ν) : Nat := (m.entries.map (fun e => f e.2)).sum

theorem perm_erase (h : m.lookup k = some v) : m.entries.Perm (⟨k, v⟩ :: (m.erase k).entries) := by
  have hmem : k ∈ m.keys := AList.lookup_isSome.mp (by rw [h]; rfl)
  obtain ⟨w, before, after, -, hsplit, herase⟩ := List.exists_of_kerase hmem
  have hw : m.lookup k = some w := lookup_of_mem (e := ⟨k, w⟩) (by rw [hsplit]; simp)
  rw [h, Option.some.injEq] at hw
  subst hw
  show m.entries.Perm (⟨k, v⟩ :: List.kerase k m.entries)
  rw [herase, hsplit]
  exact List.perm_middle

theorem length_insert (m : Dict κ ν) (k : κ) (v : ν) :
    (m.insert k v).entries.length =
      if k ∈ m then m.entries.length else m.entries.length + 1 := by
  split
  · next hk =>
    obtain ⟨w, hw⟩ := Option.isSome_iff_exists.mp (AList.lookup_isSome.mpr hk)
    rw [(perm_erase hw).length_eq, AList.entries_insert]
    rfl
  · next hk => rw [AList.entries_insert_of_notMem hk, List.length_cons]

theorem sumOf_erase (h : m.lookup k = some v) : sumOf f (m.erase k) + f v = sumOf f m := by
  have hsum := ((perm_erase h).map (fun e => f e.2)).sum_nat
  rw [List.map_cons, List.sum_cons] at hsum
  rw [sumOf, sumOf, hsum, Nat.add_comm]

theorem sumOf_insert (m : Dict κ ν) (k : κ) (v : ν) :
    sumOf f (m.insert k v) = f v + sumOf f (m.erase k) := by
  rw [sumOf, AList.entries_insert, List.map_cons, List.sum_cons]
  rfl

theorem sumOf_replace (h : m.lookup k = some v) (w : ν) :
    sumOf f (m.insert k w) + f v = sumOf f m + f w := by
  have herase := sumOf_erase (f := f) h
  rw [sumOf_insert]
  omega

theorem sumOf_new (h : m.lookup k = none) (w : ν) : sumOf f (m.insert k w) = sumOf f m + f w := by
  have hkey : k ∉ m.keys := fun hk => by
    have := AList.lookup_isSome.mpr hk
    rw [h] at this
    cases this
  have herase : sumOf f (m.erase k) = sumOf f m := by
    show ((List.kerase k m.entries).map _).sum = _
    rw [List.kerase_of_notMem_keys hkey]
    rfl
  rw [sumOf_insert, herase, Nat.add_comm]

theorem sumOf_congr {g : ν → Nat} (h : ∀ k v, m.lookup k = some v → f v = g v) :
    sumOf f m = sumOf g m :=
  congrArg List.sum (List.map_congr_left fun e he => h e.1 e.2 (lookup_of_mem he))

/-! ## Inserting in a loop -/

theorem lookup_foldl_insert {k : κ} {v : ν} : ∀ {l : List (κ × ν)} {m : Dict κ ν},
    (l.map Prod.fst).Nodup →
      ((l.foldl (fun m e => m.insert e.1 e.2) m).lookup k = some v ↔
        (k, v) ∈ l ∨ (k ∉ l.map Prod.fst ∧ m.lookup k = some v))
  | [], m, _ => by simp
  | e :: l, m, h => by
    obtain ⟨hkey, hnodup⟩ := List.nodup_cons.mp h
    rw [List.foldl_cons, lookup_foldl_insert hnodup]
    simp only [List.mem_cons, List.map_cons, not_or]
    by_cases hk : k = e.1
    · subst hk
      have hnot : (e.1, v) ∉ l := fun hmem =>
        hkey (List.mem_map.mpr ⟨_, hmem, rfl⟩)
      rw [AList.lookup_insert]
      simp only [hnot, false_or, or_false, hkey, not_false_eq_true, true_and, Option.some.injEq,
        not_true_eq_false, false_and]
      exact ⟨fun hv => Prod.ext rfl hv.symm, fun he => (congrArg Prod.snd he).symm⟩
    · have hne : (k, v) ≠ e := fun he => hk (congrArg Prod.fst he)
      rw [AList.lookup_insert_ne hk]
      simp only [hne, false_or, hk, not_false_eq_true, true_and]

theorem length_foldl_insert : ∀ {l : List (κ × ν)} {m : Dict κ ν}, (l.map Prod.fst).Nodup →
    (∀ k ∈ l.map Prod.fst, k ∉ m) →
    (l.foldl (fun m e => m.insert e.1 e.2) m).entries.length = m.entries.length + l.length
  | [], m, _, _ => rfl
  | e :: l, m, hnodup, hnew => by
    obtain ⟨hkey, hnodup⟩ := List.nodup_cons.mp hnodup
    rw [List.map_cons, List.forall_mem_cons] at hnew
    have hrest : ∀ k ∈ l.map Prod.fst, k ∉ m.insert e.1 e.2 := by
      intro k hk hmem
      rcases (AList.mem_insert _).mp hmem with rfl | hmem
      · exact hkey hk
      · exact hnew.2 k hk hmem
    rw [List.foldl_cons, length_foldl_insert hnodup hrest, length_insert, if_neg hnew.1,
      List.length_cons]
    omega

theorem lookup_foldl_insert_cases {l : List (κ × ν)} : ∀ {m : Dict κ ν},
    (k ∈ l.map Prod.fst →
      ∃ v, (k, v) ∈ l ∧ (l.foldl (fun m e => m.insert e.1 e.2) m).lookup k = some v) ∧
    (k ∉ l.map Prod.fst → (l.foldl (fun m e => m.insert e.1 e.2) m).lookup k = m.lookup k) := by
  induction l with
  | nil => simp
  | cons e l ih =>
    intro m
    obtain ⟨hin, hout⟩ := ih (m := m.insert e.1 e.2)
    rw [List.map_cons, List.mem_cons, List.foldl_cons]
    by_cases hk : k ∈ l.map Prod.fst
    · obtain ⟨v, hv, hlookup⟩ := hin hk
      exact ⟨fun _ => ⟨v, List.mem_cons_of_mem _ hv, hlookup⟩, fun hnot => absurd (.inr hk) hnot⟩
    · rw [hout hk, lookup_insert_eq]
      constructor
      · rintro (rfl | hk')
        · exact ⟨e.2, List.mem_cons_self, if_pos rfl⟩
        · exact absurd hk' hk
      · exact fun hnot => if_neg fun he => hnot (.inl he)

/-- A loop over entries that changes, for each of them, what a map has under its key. -/
theorem lookup_foldl_local {μ : Type} {f : Dict κ μ → (Sigma fun _ : κ => ν) → Dict κ μ}
    {g : κ → ν → Option μ → Option μ}
    (hf : ∀ m e k, (f m e).lookup k = if k = e.1 then g k e.2 (m.lookup k) else m.lookup k)
    (k : κ) : ∀ {l : List (Sigma fun _ : κ => ν)}, l.NodupKeys → ∀ m : Dict κ μ,
      (l.foldl f m).lookup k = (l.dlookup k).elim (m.lookup k) fun v => g k v (m.lookup k)
  | [], _, m => rfl
  | e :: l, h, m => by
    obtain ⟨hkey, hnodup⟩ := List.nodupKeys_cons.mp h
    rw [List.foldl_cons, lookup_foldl_local hf k hnodup, hf]
    by_cases hk : k = e.1
    · subst hk
      rw [List.dlookup_eq_none.mpr hkey, List.dlookup_cons_eq, if_pos rfl]
      rfl
    · rw [if_neg hk, List.dlookup_cons_ne l e hk]

def mapValues (m : Dict κ ν) (f : κ → ν → ν) : Dict κ ν :=
  m.entries.foldl (fun m e => m.insert e.1 (f e.1 e.2)) m

theorem lookup_mapValues (m : Dict κ ν) (f : κ → ν → ν) (k : κ) :
    (m.mapValues f).lookup k = (m.lookup k).map (f k) := by
  rw [mapValues, lookup_foldl_local (g := fun k v _ => some (f k v)) _ k m.nodupKeys]
  · show (m.lookup k).elim (m.lookup k) _ = _
    cases m.lookup k <;> rfl
  · intro m e k
    rw [lookup_insert_eq]
    by_cases hk : k = e.1
    · rw [if_pos hk, if_pos hk, hk]
    · rw [if_neg hk, if_neg hk]

theorem sortedEntries_foldl_insert [LE κ] [DecidableLE κ] (htotal : ∀ a b : κ, a ≤ b ∨ b ≤ a)
    (htrans : ∀ a b c : κ, a ≤ b → b ≤ c → a ≤ c) (hantisymm : ∀ a b : κ, a ≤ b → b ≤ a → a = b)
    {l : List (κ × ν)} (hl : (l.map Prod.fst).Nodup) (hsorted : (l.map Prod.fst).Pairwise (· ≤ ·)) :
    (l.foldl (fun m e => m.insert e.1 e.2) (∅ : Dict κ ν)).sortedEntries = l := by
  refine eq_of_sorted hantisymm (nodup_keys_sortedEntries _) hl
    (pairwise_keys_sortedEntries htotal htrans _) hsorted fun e => ?_
  rw [mem_sortedEntries, lookup_foldl_insert hl, AList.lookup_empty]
  simp

end Dict

end Infra
