import Mathlib.Data.List.Induction
import Chuckles.Lib.Memory

/-!
# `Chuckles.Lib.Region`: objects in the memory

An object is a list of bytes from an address on. `store` puts one there and `HasBytes` says that
one is there. Its fields are parts of the list, so a store to a field replaces a part
(`HasBytes.replace`).

A region is the range of addresses of an object. `Within` says that two memories differ inside
some regions only, and an object apart from them is in both (`HasBytes.of_within`). Addresses are
compared by their distance from the base, so a region may go over the end of the address space.
-/

set_option autoImplicit false

namespace Lib.Memory

/-! ### Objects -/

/-- The memory with these bytes from the address `a` on. -/
def store (a : BitVec 32) (l : List (BitVec 8)) (m : Memory) : Memory := fun b =>
  l[(b - a).toNat]?.getD (m b)

/-- The first `n` bytes of a value, lowest first. -/
def bytesLE {w : Nat} (n : Nat) (v : BitVec w) : List (BitVec 8) :=
  (List.range n).map fun k => v.extractLsb' (8 * k) 8

/-- As many bytes as were asked for. -/
@[simp] theorem length_bytesLE {w : Nat} (n : Nat) (v : BitVec w) :
    (bytesLE n v).length = n := by simp [bytesLE]

/-- The memory has these bytes from the address `a` on. -/
def HasBytes (m : Memory) (a : BitVec 32) (l : List (BitVec 8)) : Prop :=
  ∀ k (h : k < l.length), m (a + BitVec.ofNat 32 k) = l[k]

/-- An address by its distance from another one. -/
theorem add_distance (a b : BitVec 32) : a + BitVec.ofNat 32 (b - a).toNat = b := by
  rw [BitVec.ofNat_toNat, BitVec.setWidth_eq, BitVec.add_comm, BitVec.sub_add_cancel]

/-- The distance of a byte from another one of the same object. -/
theorem toNat_sub_offset (a : BitVec 32) {o k : Nat} (ho : o < 2 ^ 32) (hk : k < 2 ^ 32) :
    (a + BitVec.ofNat 32 k - (a + BitVec.ofNat 32 o)).toNat
      = if o ≤ k then k - o else 2 ^ 32 + k - o := by
  have ha := a.isLt
  simp only [BitVec.toNat_sub, BitVec.toNat_add, BitVec.toNat_ofNat, Nat.mod_eq_of_lt ho,
    Nat.mod_eq_of_lt hk]
  split
  · omega
  · omega

/-- A byte after a store into the same object. -/
theorem store_offset (a : BitVec 32) {l : List (BitVec 8)} (m : Memory) {o k : Nat}
    (hroom : o + l.length ≤ 2 ^ 32) (ho : o < 2 ^ 32) (hk : k < 2 ^ 32) :
    store (a + BitVec.ofNat 32 o) l m (a + BitVec.ofNat 32 k)
      = if o ≤ k then l[k - o]?.getD (m (a + BitVec.ofNat 32 k))
        else m (a + BitVec.ofNat 32 k) := by
  rw [store, toNat_sub_offset a ho hk]
  split
  · rfl
  · rw [List.getElem?_eq_none (by omega)]
    rfl

/-- What was stored is there. -/
theorem hasBytes_store (a : BitVec 32) (l : List (BitVec 8)) (m : Memory)
    (hroom : l.length ≤ 2 ^ 32) : HasBytes (store a l m) a l := by
  intro k hk
  have h := store_offset (l := l) a m (o := 0) (k := k) (by omega) (by decide) (by omega)
  rw [BitVec.add_zero, if_pos (Nat.zero_le _), Nat.sub_zero, List.getElem?_eq_getElem hk] at h
  exact h

/-- A store of what is there. -/
theorem store_self {m : Memory} {a : BitVec 32} {l : List (BitVec 8)} (h : HasBytes m a l) :
    store a l m = m := by
  funext b
  by_cases hb : (b - a).toNat < l.length
  · have hbyte := h _ hb
    rw [add_distance] at hbyte
    rw [store, List.getElem?_eq_getElem hb, hbyte]
    rfl
  · rw [store, List.getElem?_eq_none (Nat.not_lt.mp hb)]
    rfl

/-- Two stores, one behind the other, are one. -/
theorem store_append (a : BitVec 32) (l l' : List (BitVec 8)) (m : Memory)
    (hroom : l.length + l'.length < 2 ^ 32) :
    store (a + BitVec.ofNat 32 l.length) l' (store a l m) = store a (l ++ l') m := by
  funext b
  have hb := add_distance a b
  have hdist := (b - a).isLt
  rw [← hb, store_offset a _ (by omega) (by omega) hdist, hb, store, store]
  by_cases hl : (b - a).toNat < l.length
  · rw [if_neg (by omega), List.getElem?_append_left hl]
  · rw [if_pos (by omega), List.getElem?_append_right (by omega),
      List.getElem?_eq_none (Nat.not_lt.mp hl)]
    rfl

/-- Two stores to different parts of an object can change places. -/
theorem store_comm (a : BitVec 32) {l l' : List (BitVec 8)} (m : Memory) {o o' : Nat}
    (hpart : o + l.length ≤ o') (hroom : o' + l'.length < 2 ^ 32) :
    store (a + BitVec.ofNat 32 o) l (store (a + BitVec.ofNat 32 o') l' m)
      = store (a + BitVec.ofNat 32 o') l' (store (a + BitVec.ofNat 32 o) l m) := by
  funext b
  have hb := add_distance a b
  have hdist := (b - a).isLt
  rw [← hb, store_offset a _ (by omega) (by omega) hdist,
    store_offset a _ (by omega) (by omega) hdist, store_offset a _ (by omega) (by omega) hdist,
    store_offset a _ (by omega) (by omega) hdist, hb]
  by_cases ho : o ≤ (b - a).toNat
  · by_cases ho' : o' ≤ (b - a).toNat
    · -- behind the first part
      rw [if_pos ho, if_pos ho', if_pos ho, if_pos ho', List.getElem?_eq_none (by omega)]
      rfl
    · rw [if_pos ho, if_neg ho', if_neg ho', if_pos ho]
  · rw [if_neg ho, if_neg ho, if_neg (by omega)]

/-- A store to a part of an object replaces this part. -/
theorem HasBytes.replace {m : Memory} {a : BitVec 32} {pre old post : List (BitVec 8)}
    (h : HasBytes m a (pre ++ (old ++ post))) {new : List (BitVec 8)}
    (hlength : old.length = new.length) (hroom : (pre ++ (old ++ post)).length < 2 ^ 32) :
    HasBytes (store (a + BitVec.ofNat 32 pre.length) new m) a (pre ++ (new ++ post)) := by
  intro k hk
  simp only [List.length_append] at hk hroom
  have hbyte := h k (by simp only [List.length_append]; omega)
  rw [store_offset a m (by omega) (by omega) (by omega)]
  by_cases hpre : k < pre.length
  · -- before the part
    rw [List.getElem_append_left hpre] at hbyte
    rw [if_neg (by omega), hbyte, List.getElem_append_left hpre]
  · rw [List.getElem_append_right (by omega)] at hbyte
    rw [if_pos (by omega), List.getElem_append_right (by omega)]
    by_cases hpart : k - pre.length < new.length
    · rw [List.getElem?_eq_getElem hpart, List.getElem_append_left hpart]
      rfl
    · -- behind it
      rw [List.getElem_append_right (by omega)] at hbyte
      rw [List.getElem?_eq_none (by omega), List.getElem_append_right (by omega)]
      simp only [hlength] at hbyte
      exact hbyte

/-- The first part of an object. -/
theorem HasBytes.left {m : Memory} {a : BitVec 32} {l l' : List (BitVec 8)}
    (h : HasBytes m a (l ++ l')) : HasBytes m a l := by
  intro k hk
  rw [h k (by rw [List.length_append]; omega), List.getElem_append_left hk]

/-- The part behind it. -/
theorem HasBytes.right {m : Memory} {a : BitVec 32} {l l' : List (BitVec 8)}
    (h : HasBytes m a (l ++ l')) : HasBytes m (a + BitVec.ofNat 32 l.length) l' := by
  intro k hk
  rw [BitVec.add_assoc, ← BitVec.ofNat_add, h (l.length + k) (by rw [List.length_append]; omega),
    List.getElem_append_right (by omega)]
  simp

/-- Two objects, one behind the other. -/
theorem hasBytes_append {m : Memory} {a : BitVec 32} {l l' : List (BitVec 8)}
    (h : HasBytes m a l) (h' : HasBytes m (a + BitVec.ofNat 32 l.length) l') :
    HasBytes m a (l ++ l') := by
  intro k hk
  by_cases hl : k < l.length
  · rw [List.getElem_append_left hl]
    exact h k hl
  · have hlength : (l ++ l').length = l.length + l'.length := List.length_append
    have hbyte := h' (k - l.length) (by omega)
    rw [BitVec.add_assoc, ← BitVec.ofNat_add, Nat.add_sub_cancel' (Nat.not_lt.mp hl)] at hbyte
    rw [List.getElem_append_right (Nat.not_lt.mp hl)]
    exact hbyte

/-- The bytes of two values, one above the other in a larger one. -/
theorem bytesLE_append {w k : Nat} (n : Nat) (x : BitVec w) (y : BitVec (8 * k)) :
    bytesLE (k + n) (x ++ y) = bytesLE k y ++ bytesLE n x := by
  apply List.ext_getElem
  · simp
  · intro j hj _
    have hbit (i : Nat) : ((x ++ y).extractLsb' (8 * j) 8).getLsbD i
        = if j < k then (y.extractLsb' (8 * j) 8).getLsbD i
          else (x.extractLsb' (8 * (j - k)) 8).getLsbD i := by
      simp only [BitVec.getLsbD_extractLsb', BitVec.getLsbD_append]
      grind
    by_cases hk : j < k
    · rw [List.getElem_append_left (by simpa using hk)]
      simp only [bytesLE, List.getElem_map, List.getElem_range]
      apply BitVec.eq_of_getLsbD_eq
      intro i _
      rw [hbit, if_pos hk]
    · rw [List.getElem_append_right (by simpa using hk)]
      simp only [bytesLE, List.getElem_map, List.getElem_range, List.length_map, List.length_range]
      apply BitVec.eq_of_getLsbD_eq
      intro i _
      rw [hbit, if_neg hk]

/-- The word in four bytes. -/
theorem read32_of_hasBytes {m : Memory} {a : BitVec 32} {v : BitVec 32}
    (h : HasBytes m a (bytesLE 4 v)) : m.read32 a = v := by
  have hbyte (k : Nat) (hk : k < 4) : m (a + BitVec.ofNat 32 k) = v.extractLsb' (8 * k) 8 := by
    rw [h k (by simpa using hk)]
    simp [bytesLE]
  rw [← read32_write32 m a v]
  apply read32_congr
  intro k hk
  rw [hbyte k hk, write32_add m a v hk]

/-! ### Regions -/

/-- The addresses of an object. -/
structure Region where
  base : BitVec 32
  size : Nat

/-- The address is in the region. -/
def Region.Has (r : Region) (a : BitVec 32) : Prop := (a - r.base).toNat < r.size

/-- A part of a region. -/
theorem Region.has_of_part {a b : BitVec 32} {o n size : Nat} (hpart : o + n ≤ size)
    (h : Region.Has ⟨a + BitVec.ofNat 32 o, n⟩ b) : Region.Has ⟨a, size⟩ b := by
  have hpart' : (b - (a + BitVec.ofNat 32 o)).toNat < n := h
  have hbase : b - a = BitVec.ofNat 32 o + (b - (a + BitVec.ofNat 32 o)) := by
    rw [← BitVec.sub_sub, BitVec.add_comm, BitVec.sub_add_cancel]
  show (b - a).toNat < size
  rw [hbase, BitVec.toNat_add, BitVec.toNat_ofNat]
  omega

/-- No address is in both. -/
def Region.Apart (r r' : Region) : Prop := ∀ a, r.Has a → ¬r'.Has a

/-- It does not matter which one is named first. -/
theorem Region.Apart.symm {r r' : Region} (h : r.Apart r') : r'.Apart r :=
  fun a ha ha' => h a ha' ha

/-- Objects that follow one another are apart. -/
theorem apart_of_end_le {r r' : Region} (h : r.base.toNat + r.size ≤ r'.base.toNat)
    (hroom : r'.base.toNat + r'.size ≤ 2 ^ 32) : r.Apart r' := by
  intro a ha ha'
  have hlt : (a - r.base).toNat < r.size := ha
  have hlt' : (a - r'.base).toNat < r'.size := ha'
  bv_omega

/-- Apart from each of two. -/
theorem Region.Apart.pair {r r₁ r₂ : Region} (h₁ : r.Apart r₁) (h₂ : r.Apart r₂) :
    ∀ r' ∈ [r₁, r₂], r.Apart r' := by
  simp [h₁, h₂]

/-- The memories differ inside these regions only. -/
def Within (rs : List Region) (m m' : Memory) : Prop := ∀ a, (∀ r ∈ rs, ¬r.Has a) → m' a = m a

/-- Nothing has been changed. -/
theorem Within.refl (rs : List Region) (m : Memory) : Within rs m m := fun _ _ => rfl

/-- Two changes, one after the other. -/
theorem Within.trans {rs : List Region} {m m₁ m' : Memory} (h : Within rs m m₁)
    (h' : Within rs m₁ m') : Within rs m m' := by
  intro a ha
  rw [h' a ha, h a ha]

/-- More regions. -/
theorem Within.mono {rs rs' : List Region} {m m' : Memory} (h : Within rs m m')
    (hsub : ∀ r ∈ rs, r ∈ rs') : Within rs' m m' :=
  fun a ha => h a fun r hr => ha r (hsub r hr)

/-- A change inside a part of a region. -/
theorem Within.of_part {m m' : Memory} {a : BitVec 32} {o n size : Nat}
    (h : Within [⟨a + BitVec.ofNat 32 o, n⟩] m m') (hpart : o + n ≤ size) :
    Within [⟨a, size⟩] m m' := by
  intro b hb
  apply h b
  intro r hr
  rw [List.mem_singleton] at hr
  rw [hr]
  exact fun hin => hb _ (List.mem_singleton.mpr rfl) (Region.has_of_part hpart hin)

/-- A store to a region. -/
theorem within_store_base (r : Region) {l : List (BitVec 8)} (m : Memory)
    (hpart : l.length ≤ r.size) : Within [r] m (store r.base l m) := by
  intro a ha
  have hout : r.size ≤ (a - r.base).toNat := Nat.not_lt.mp (ha r (by simp))
  rw [store, List.getElem?_eq_none (by omega)]
  rfl

/-- A store to a part of a region. -/
theorem within_store (r : Region) {o : Nat} {l : List (BitVec 8)} (m : Memory)
    (hpart : o + l.length ≤ r.size) (hsize : r.size < 2 ^ 32) :
    Within [r] m (store (r.base + BitVec.ofNat 32 o) l m) := by
  intro a ha
  have hout : r.size ≤ (a - r.base).toNat := Nat.not_lt.mp (ha r (by simp))
  have haddr := add_distance r.base a
  rw [← haddr, store_offset r.base m (by omega) (by omega) (a - r.base).isLt, if_pos (by omega),
    List.getElem?_eq_none (by omega)]
  rfl

/-- An object apart from the regions. -/
theorem HasBytes.of_within {rs : List Region} {m m' : Memory} {a : BitVec 32}
    {l : List (BitVec 8)} (h : HasBytes m a l) (hwithin : Within rs m m')
    (hroom : l.length ≤ 2 ^ 32) (hapart : ∀ r ∈ rs, Region.Apart ⟨a, l.length⟩ r) :
    HasBytes m' a l := by
  intro k hk
  have hin : Region.Has ⟨a, l.length⟩ (a + BitVec.ofNat 32 k) := by
    show (a + BitVec.ofNat 32 k - a).toNat < l.length
    rw [BitVec.add_comm, BitVec.add_sub_cancel, BitVec.toNat_ofNat]
    omega
  rw [hwithin _ fun r hr => hapart r hr _ hin, h k hk]

/-! ### Tables -/

/-- Records of `n` bytes each, one after the other. -/
def Records (m : Memory) (a : BitVec 32) (n : Nat) {count : Nat}
    (f : Fin count → List (BitVec 8)) : Prop :=
  ∀ i : Fin count, HasBytes m (a + BitVec.ofNat 32 (n * i.val)) (f i)

/-- Two records have no byte in common. -/
theorem apart_records (a : BitVec 32) {n i j : Nat} (hij : i ≠ j) (hi : n * (i + 1) ≤ 2 ^ 32)
    (hj : n * (j + 1) ≤ 2 ^ 32) :
    Region.Apart ⟨a + BitVec.ofNat 32 (n * i), n⟩ ⟨a + BitVec.ofNat 32 (n * j), n⟩ := by
  intro b hb hb'
  have hdist (k : Nat) (hk : n * (k + 1) ≤ 2 ^ 32)
      (h : (b - (a + BitVec.ofNat 32 (n * k))).toNat < n) : (b - a).toNat / n = k := by
    have hbase : b - a = BitVec.ofNat 32 (n * k) + (b - (a + BitVec.ofNat 32 (n * k))) := by
      rw [← BitVec.sub_sub, BitVec.add_comm, BitVec.sub_add_cancel]
    rw [Nat.mul_add, Nat.mul_one] at hk
    rw [hbase, BitVec.toNat_add, BitVec.toNat_ofNat, Nat.mod_eq_of_lt (by omega : n * k < 2 ^ 32),
      Nat.mod_eq_of_lt (by omega), Nat.mul_add_div (by omega), Nat.div_eq_of_lt h, Nat.add_zero]
  exact hij ((hdist i hi hb).symm.trans (hdist j hj hb'))

/-- A change of one record. -/
theorem Records.update {m m' : Memory} {a : BitVec 32} {n count : Nat}
    {f : Fin count → List (BitVec 8)} (h : Records m a n f) (hlength : ∀ i, (f i).length = n)
    (hsize : n * count ≤ 2 ^ 32) (i : Fin count) {l : List (BitVec 8)}
    (hwithin : Within [⟨a + BitVec.ofNat 32 (n * i), n⟩] m m')
    (hrecord : HasBytes m' (a + BitVec.ofNat 32 (n * i)) l) :
    Records m' a n (Function.update f i l) := by
  have hroom (k : Fin count) : n * (k + 1) ≤ 2 ^ 32 :=
    Nat.le_trans (Nat.mul_le_mul_left n k.isLt) hsize
  intro j
  by_cases hj : j = i
  · rw [hj, Function.update_self]
    exact hrecord
  · rw [Function.update_of_ne hj]
    have hle : n ≤ 2 ^ 32 := Nat.le_trans (Nat.le_mul_of_pos_right n (Nat.succ_pos j)) (hroom j)
    refine (h j).of_within hwithin (by rw [hlength]; exact hle) ?_
    intro r hr
    rw [List.mem_singleton] at hr
    rw [hr, hlength]
    exact apart_records a (fun hval => hj (Fin.ext hval)) (hroom j) (hroom i)

/-- A store of one record, in a table whose records are values. -/
theorem Records.set {α : Type} {e : α → List (BitVec 8)} {m : Memory} {a : BitVec 32}
    {n count : Nat} {xs : Vector α count} (h : Records m a n fun k => e (xs.get k))
    (hlength : ∀ x, (e x).length = n) (hsize : n * count ≤ 2 ^ 32) {i : Nat} (hi : i < count)
    (x : α) :
    Records (store (a + BitVec.ofNat 32 (n * i)) (e x) m) a n
        (fun k => e ((xs.set i x hi).get k)) ∧
      Within [⟨a, n * count⟩] m (store (a + BitVec.ofNat 32 (n * i)) (e x) m) := by
  have hpart : n * i + n ≤ n * count := by
    rw [← Nat.mul_succ]
    exact Nat.mul_le_mul_left n hi
  have hwithin := within_store_base ⟨a + BitVec.ofNat 32 (n * i), n⟩ m (Nat.le_of_eq (hlength x))
  refine ⟨?_, hwithin.of_part hpart⟩
  have hupdate := h.update (fun _ => hlength _) hsize ⟨i, hi⟩ hwithin
    (hasBytes_store _ (e x) m (by rw [hlength]; omega))
  have hset : (fun k : Fin count => e ((xs.set i x hi).get k))
      = Function.update (fun k => e (xs.get k)) ⟨i, hi⟩ (e x) := by
    funext k
    have hget : (xs.set i x hi).get k = if i = k.val then x else xs.get k := by
      show (xs.set i x hi)[k.val] = _
      rw [Vector.getElem_set]
      rfl
    rw [Function.update_apply, hget]
    by_cases hk : i = k.val
    · rw [if_pos hk, if_pos (Fin.ext hk.symm)]
    · rw [if_neg hk, if_neg (fun heq => hk (congrArg Fin.val heq).symm)]
  rw [hset]
  exact hupdate

/-- A change elsewhere. -/
theorem Records.of_within {rs : List Region} {m m' : Memory} {a : BitVec 32} {n count : Nat}
    {f : Fin count → List (BitVec 8)} (h : Records m a n f) (hlength : ∀ i, (f i).length = n)
    (hsize : n * count < 2 ^ 32) (hwithin : Within rs m m')
    (hapart : ∀ r ∈ rs, Region.Apart ⟨a, n * count⟩ r) : Records m' a n f := by
  intro i
  have hroom : n * i.val + n ≤ n * count := by
    rw [← Nat.mul_succ]
    exact Nat.mul_le_mul_left n i.isLt
  refine (h i).of_within hwithin (by rw [hlength]; omega) ?_
  intro r hr b hb
  rw [hlength] at hb
  exact hapart r hr b (Region.has_of_part hroom hb)

/-- Equal bytes are equal records. -/
theorem records_replicate {m : Memory} {a : BitVec 32} {n count : Nat} {b : BitVec 8}
    (h : HasBytes m a (List.replicate (n * count) b)) :
    Records m a n fun _ : Fin count => List.replicate n b := by
  intro i
  have hroom : n * i.val + (n + (n * count - n * i.val - n)) = n * count := by
    have hle : n * i.val + n ≤ n * count := by
      rw [← Nat.mul_succ]
      exact Nat.mul_le_mul_left n i.isLt
    omega
  rw [← hroom, ← List.replicate_append_replicate, ← List.replicate_append_replicate] at h
  have hpart := h.right.left
  rwa [List.length_replicate] at hpart

/-! ### Loops over the bytes of an object -/

/-- A loop that stores one byte after the other. -/
theorem foldl_update_eq_store (a : BitVec 32) (f : Nat → BitVec 8) (m : Memory) (n : Nat)
    (hn : n ≤ 2 ^ 32) :
    (List.range n).foldl (fun (m : Memory) i => Function.update m (a + BitVec.ofNat 32 i) (f i)) m
      = store a ((List.range n).map f) m := by
  induction n with
  | zero =>
      funext b
      simp [store]
  | succ n ih =>
      rw [List.range_succ, List.foldl_append, ih (by omega)]
      funext b
      show Function.update (store a ((List.range n).map f) m) (a + BitVec.ofNat 32 n) (f n) b = _
      rw [Function.update_apply, List.map_append, store, store]
      by_cases hb : b = a + BitVec.ofNat 32 n
      · have hdist : (b - a).toNat = n := by
          rw [hb, BitVec.add_comm, BitVec.add_sub_cancel, BitVec.toNat_ofNat]
          omega
        rw [if_pos hb, hdist, List.getElem?_append_right (by simp)]
        simp
      · have hdist : (b - a).toNat ≠ n := by
          intro h
          rw [← h, add_distance] at hb
          exact hb rfl
        rw [if_neg hb]
        have hlength : ((List.range n).map f).length = n := by simp
        by_cases hlt : (b - a).toNat < n
        · rw [List.getElem?_append_left (by omega)]
        · have hend : (List.map f (List.range n) ++ List.map f [n]).length = n + 1 := by simp
          rw [List.getElem?_eq_none (by omega), List.getElem?_eq_none (by omega)]

/-- Bytes of a region apart, copied in any order. -/
theorem foldl_copyByte_apart {dst src : BitVec 32} {n : Nat} (hn : n < 2 ^ 32)
    (hapart : Region.Apart ⟨dst, n⟩ ⟨src, n⟩) (mem : Memory) (l : List Nat) :
    (∀ i ∈ l, i < n) → ∀ b, l.foldl (copyByte dst src) mem b
      = if (b - dst).toNat ∈ l then mem (src + (b - dst)) else mem b := by
  induction l using List.reverseRecOn with
  | nil => exact fun _ b => by simp
  | append_singleton l i ih =>
      intro hl b
      have hi : i < n := hl i (by simp)
      have hcopied := ih fun j hj => hl j (by simp [hj])
      -- The byte is read from the other region, which has kept it.
      have hsrc : Region.Has ⟨src, n⟩ (src + BitVec.ofNat 32 i) := by
        show (src + BitVec.ofNat 32 i - src).toNat < n
        rw [BitVec.add_comm, BitVec.add_sub_cancel, BitVec.toNat_ofNat]
        omega
      have hread : l.foldl (copyByte dst src) mem (src + BitVec.ofNat 32 i)
          = mem (src + BitVec.ofNat 32 i) := by
        rw [hcopied, if_neg]
        intro hmem
        exact hapart _ (hl _ (List.mem_append_left _ hmem)) hsrc
      rw [List.foldl_append]
      show Function.update (l.foldl (copyByte dst src) mem) (dst + BitVec.ofNat 32 i)
        (l.foldl (copyByte dst src) mem (src + BitVec.ofNat 32 i)) b = _
      rw [hread, Function.update_apply, hcopied b]
      simp only [List.mem_append, List.mem_singleton]
      by_cases hb : b = dst + BitVec.ofNat 32 i
      · have hdist : b - dst = BitVec.ofNat 32 i := by
          rw [hb, BitVec.add_comm, BitVec.add_sub_cancel]
        have hindex : (b - dst).toNat = i := by
          rw [hdist, BitVec.toNat_ofNat]
          omega
        rw [if_pos hb, if_pos (Or.inr hindex), hdist]
      · have hindex : (b - dst).toNat ≠ i := by
          intro h
          rw [← h, add_distance] at hb
          exact hb rfl
        rw [if_neg hb]
        simp only [hindex, or_false]

end Lib.Memory
