import Mathlib.Data.List.Basic
import Mathlib.Data.List.Range
import Mathlib.Data.Nat.Digits.Defs
import Mathlib.Data.Nat.Digits.Lemmas

namespace Memory
set_option autoImplicit true

/-- A byte address: an allocated object and an offset into it. -/
@[ext] structure Addr where
  obj : Nat
  off : Nat
  deriving DecidableEq, Repr

instance : HAdd Addr Nat Addr := ⟨fun a n => ⟨a.obj, a.off + n⟩⟩

@[simp] theorem Addr.add_obj (a : Addr) (n : Nat) : (a + n).obj = a.obj := rfl
@[simp] theorem Addr.add_off (a : Addr) (n : Nat) : (a + n).off = a.off + n := rfl

@[simp] theorem Addr.add_zero (a : Addr) : a + 0 = a := rfl

theorem Addr.add_add (a : Addr) (m n : Nat) : a + m + n = a + (m + n) :=
  Addr.ext rfl (Nat.add_assoc ..)

abbrev Mem (β : Type) := Addr → β

/-- The `n` cells from an address on. -/
def Mem.load (m : Mem β) (a : Addr) (n : Nat) : List β :=
  (List.range n).map fun i => m (a + i)

/-- The memory after the cells of a list are copied to an address. -/
def Mem.store (m : Mem β) (a : Addr) (bs : List β) : Mem β := fun x =>
  if x.obj = a.obj ∧ a.off ≤ x.off then bs[x.off - a.off]?.getD (m x) else m x

/-- Two ranges of cells have no cell in common. -/
def Apart (a : Addr) (n : Nat) (b : Addr) (k : Nat) : Prop :=
  a.obj ≠ b.obj ∨ a.off + n ≤ b.off ∨ b.off + k ≤ a.off

theorem Apart.mono (h : Apart a n b k) (hn : n' ≤ n) (hk : k' ≤ k) : Apart a n' b k' := by
  unfold Apart at *
  omega

@[simp] theorem Mem.length_load (m : Mem β) (a : Addr) (n : Nat) : (m.load a n).length = n := by
  simp only [load, List.length_map, List.length_range]

@[simp] theorem Mem.load_zero (m : Mem β) (a : Addr) : m.load a 0 = [] := rfl

theorem Mem.load_add (m : Mem β) (a : Addr) (n k : Nat) :
    m.load a (n + k) = m.load a n ++ m.load (a + n) k := by
  simp only [load, List.range_add, List.map_append, List.map_map]
  congr 2
  funext i
  simp only [Function.comp_apply, Addr.add_add]

theorem Mem.getElem?_load (m : Mem β) (a : Addr) (n i : Nat) :
    (m.load a n)[i]? = if i < n then some (m (a + i)) else none := by
  rw [load, List.getElem?_map]
  split
  · next h => rw [List.getElem?_range h, Option.map_some]
  · next h =>
    rw [List.getElem?_eq_none (by rw [List.length_range]; omega), Option.map_none]

theorem Mem.take_load (m : Mem β) (a : Addr) (h : k ≤ n) : (m.load a n).take k = m.load a k := by
  obtain ⟨d, rfl⟩ := Nat.exists_eq_add_of_le h
  rw [load_add, List.take_left' (length_load ..)]

theorem Mem.drop_load (m : Mem β) (a : Addr) (h : k ≤ n) :
    (m.load a n).drop k = m.load (a + k) (n - k) := by
  obtain ⟨d, rfl⟩ := Nat.exists_eq_add_of_le h
  rw [load_add, List.drop_left' (length_load ..), Nat.add_sub_cancel_left]

theorem Mem.load_congr {m m' : Mem β} (h : ∀ i < n, m (a + i) = m' (a + i)) :
    m.load a n = m'.load a n :=
  List.map_congr_left fun i hi => h i (List.mem_range.1 hi)

theorem Mem.store_apply_of_apart {m : Mem β} (h : Apart x 1 a bs.length) :
    m.store a bs x = m x := by
  rw [store]
  split
  · rw [List.getElem?_eq_none (by unfold Apart at h; omega), Option.getD_none]
  · rfl

@[simp] theorem Mem.store_nil (m : Mem β) (a : Addr) : m.store a [] = m := by
  funext x
  rw [store, List.getElem?_nil, Option.getD_none, ite_self]

@[simp] theorem Mem.load_store (m : Mem β) (a : Addr) (bs : List β) :
    (m.store a bs).load a bs.length = bs := by
  apply List.ext_getElem?
  intro i
  rw [getElem?_load]
  split
  · next h =>
    rw [List.getElem?_eq_getElem h]
    simp only [store, Addr.add_obj, Addr.add_off, Nat.le_add_right, and_self, if_true,
      Nat.add_sub_cancel_left, List.getElem?_eq_getElem h, Option.getD_some]
  · next h => exact (List.getElem?_eq_none (Nat.le_of_not_lt h)).symm

theorem Mem.exists_load (b : β) (bs : List β) : ∃ (m : Mem β) (a : Addr), m.load a bs.length = bs :=
  ⟨Mem.store (fun _ => b) ⟨0, 0⟩ bs, ⟨0, 0⟩, load_store ..⟩

theorem Mem.load_store_apart {m : Mem β} (h : Apart b n a bs.length) :
    (m.store a bs).load b n = m.load b n :=
  load_congr fun i hi => store_apply_of_apart (by
    unfold Apart at *
    simp only [Addr.add_obj, Addr.add_off]
    omega)

theorem Mem.load_store_within {m : Mem β} (a : Addr) (k n : Nat) (bs : List β) :
    (m.store (a + k) bs).load a (k + bs.length + n) =
      m.load a k ++ bs ++ m.load (a + (k + bs.length)) n := by
  rw [load_add, load_add, load_store, load_store_apart, load_store_apart]
  · exact .inr (.inr (by simp only [Addr.add_off]; omega))
  · exact .inr (.inl (Nat.le_refl _))

/-- Whatever the memory holds, nothing outside a range is written. -/
def Within (f : Mem β → Mem β) (a : Addr) (n : Nat) : Prop :=
  ∀ m x, Apart x 1 a n → f m x = m x

theorem Within.comp (hf : Within f a n) (hg : Within g a n) : Within (fun m => g (f m)) a n := by
  intro m x hx
  exact (hg (f m) x hx).trans (hf m x hx)

theorem Within.store {a : Addr} (bs : Mem β → List β) (k : Nat) (h : ∀ m, k + (bs m).length ≤ n) :
    Within (fun m => m.store (a + k) (bs m)) a n := by
  intro m x hx
  have hk := h m
  apply Mem.store_apply_of_apart
  unfold Apart at *
  simp only [Addr.add_obj, Addr.add_off]
  omega

theorem Mem.store_apply_add (m : Mem β) (a : Addr) {k : Nat} (h : bs[k]? = some b) :
    m.store a bs (a + k) = b := by
  rw [Mem.store, if_pos ⟨rfl, Nat.le_add_right ..⟩, Addr.add_off, Nat.add_sub_cancel_left, h,
    Option.getD_some]

/-- The value of a little-endian byte sequence. -/
def ofLE (bs : List UInt8) : Nat := Nat.ofDigits 256 (bs.map UInt8.toNat)

/-- The `k` low bytes of a value, the least significant first. -/
def toLE : Nat → Nat → List UInt8
  | 0, _ => []
  | k + 1, v => UInt8.ofNat v :: toLE k (v / 256)

@[simp] theorem length_toLE (k v : Nat) : (toLE k v).length = k := by
  induction k generalizing v with
  | zero => rfl
  | succ k ih => exact congrArg Nat.succ (ih _)

@[simp] theorem ofLE_nil : ofLE [] = 0 := rfl

theorem ofLE_cons (b : UInt8) (bs : List UInt8) : ofLE (b :: bs) = b.toNat + 256 * ofLE bs := by
  simp only [ofLE, List.map_cons, Nat.ofDigits_cons]

theorem ofLE_toLE (k v : Nat) : ofLE (toLE k v) = v % 256 ^ k := by
  induction k generalizing v with
  | zero => rw [toLE, ofLE_nil, Nat.pow_zero, Nat.mod_one]
  | succ k ih =>
    rw [toLE, ofLE_cons, ih, Nat.pow_succ, Nat.mul_comm (256 ^ k), Nat.mod_mul]
    rfl

theorem ofLE_toLE_of_lt (h : v < 256 ^ k) : ofLE (toLE k v) = v := by
  rw [ofLE_toLE, Nat.mod_eq_of_lt h]

theorem ofLE_lt (bs : List UInt8) : ofLE bs < 256 ^ bs.length := by
  induction bs with
  | nil => exact Nat.one_pos
  | cons b bs ih =>
    have hb := b.toNat_lt
    rw [ofLE_cons, List.length_cons, Nat.pow_succ]
    omega

theorem toLE_ofLE (bs : List UInt8) : toLE bs.length (ofLE bs) = bs := by
  induction bs with
  | nil => rfl
  | cons b bs ih =>
    have hb := b.toNat_lt
    have hlow : UInt8.ofNat (b.toNat + 256 * ofLE bs) = b := by
      apply UInt8.toNat_inj.1
      rw [UInt8.toNat_ofNat']
      omega
    have hhigh : (b.toNat + 256 * ofLE bs) / 256 = ofLE bs := by omega
    rw [List.length_cons, ofLE_cons, toLE, hlow, hhigh, ih]

theorem ofLE_take (bs : List UInt8) (k : Nat) : ofLE (bs.take k) = ofLE bs % 256 ^ k := by
  induction k generalizing bs with
  | zero => rw [List.take_zero, ofLE_nil, Nat.pow_zero, Nat.mod_one]
  | succ k ih =>
    cases bs with
    | nil => rw [List.take_nil, ofLE_nil, Nat.zero_mod]
    | cons b bs =>
      have hb := b.toNat_lt
      have hmod : (b.toNat + 256 * ofLE bs) % 256 = b.toNat := by omega
      have hdiv : (b.toNat + 256 * ofLE bs) / 256 = ofLE bs := by omega
      rw [List.take_succ_cons, ofLE_cons, ofLE_cons, ih, Nat.pow_succ, Nat.mul_comm (256 ^ k),
        Nat.mod_mul, hmod, hdiv]

theorem ofLE_drop (bs : List UInt8) (k : Nat) : ofLE (bs.drop k) = ofLE bs / 256 ^ k := by
  induction k generalizing bs with
  | zero => rw [List.drop_zero, Nat.pow_zero, Nat.div_one]
  | succ k ih =>
    cases bs with
    | nil => rw [List.drop_nil, ofLE_nil, Nat.zero_div]
    | cons b bs =>
      have hb := b.toNat_lt
      have hdiv : (b.toNat + 256 * ofLE bs) / 256 = ofLE bs := by omega
      rw [List.drop_succ_cons, ofLE_cons, ih, Nat.pow_succ, Nat.mul_comm (256 ^ k),
        ← Nat.div_div_eq_div_mul, hdiv]

/-- Bits of a byte sequence, numbered from the least significant bit of its first byte on. -/
def bits (bs : List UInt8) (off width : Nat) : Nat := ofLE bs / 2 ^ off % 2 ^ width

theorem bits_run (bs : List UInt8) (k n : Nat) (h : off + width ≤ 8 * n) :
    bits bs (8 * k + off) width = ofLE ((bs.drop k).take n) / 2 ^ off % 2 ^ width := by
  obtain ⟨d, hd⟩ := Nat.exists_eq_add_of_le h
  have hpow (j : Nat) : (256 : Nat) ^ j = 2 ^ (8 * j) := by rw [Nat.pow_mul]
  rw [bits, ofLE_take, ofLE_drop, hpow, hpow, Nat.pow_add, ← Nat.div_div_eq_div_mul, hd,
    Nat.add_assoc, Nat.pow_add, Nat.mod_mul_right_div_self, Nat.pow_add, Nat.mod_mul_right_mod]

theorem bits_byte (hb : bs[k]? = some b) (h : off + width ≤ 8) :
    bits bs (8 * k + off) width = b.toNat / 2 ^ off % 2 ^ width := by
  have hone : (bs.drop k).take 1 = [b] := by
    rw [List.take_one, List.head?_drop, hb, Option.toList_some]
  rw [bits_run bs k 1 h, hone, ofLE_cons, ofLE_nil, Nat.mul_zero, Nat.add_zero]

/-- The 32-bit little-endian words of a byte sequence; a trailing fragment is dropped. -/
def words : List UInt8 → List UInt32
  | a :: b :: c :: d :: bs => UInt32.ofNat (ofLE [a, b, c, d]) :: words bs
  | _ => []

def ofWords (ws : List UInt32) : List UInt8 := ws.flatMap fun w => toLE 4 w.toNat

@[simp] theorem length_ofWords (ws : List UInt32) : (ofWords ws).length = 4 * ws.length := by
  induction ws with
  | nil => rfl
  | cons w ws ih =>
    simp only [ofWords, List.flatMap_cons, List.length_append, length_toLE, List.length_cons] at *
    omega

theorem ofWords_append (vs ws : List UInt32) : ofWords (vs ++ ws) = ofWords vs ++ ofWords ws :=
  List.flatMap_append

theorem take_ofWords (ws : List UInt32) (k : Nat) :
    (ofWords ws).take (4 * k) = ofWords (ws.take k) := by
  induction k generalizing ws with
  | zero => rfl
  | succ k ih =>
    cases ws with
    | nil => rfl
    | cons w ws =>
      have hcons (vs : List UInt32) : ofWords (w :: vs) = toLE 4 w.toNat ++ ofWords vs :=
        List.flatMap_cons ..
      have hlen := length_toLE 4 w.toNat
      rw [List.take_succ_cons, hcons, hcons, Nat.mul_succ, Nat.add_comm, List.take_append,
        List.take_of_length_le (hlen.symm ▸ Nat.le_add_right ..), hlen, Nat.add_sub_cancel_left, ih]

theorem getElem?_toLE (k v : Nat) (h : i < k) :
    (toLE k v)[i]? = some (UInt8.ofNat (v / 256 ^ i)) := by
  induction k generalizing v i with
  | zero => exact absurd h (Nat.not_lt_zero i)
  | succ k ih =>
    cases i with
    | zero => rw [toLE, List.getElem?_cons_zero, Nat.pow_zero, Nat.div_one]
    | succ i =>
      rw [toLE, List.getElem?_cons_succ, ih _ (Nat.lt_of_succ_lt_succ h), Nat.div_div_eq_div_mul,
        Nat.pow_succ, Nat.mul_comm]

theorem getElem?_ofWords {ws : List UInt32} (h : ws[k]? = some w) (hi : i < 4) :
    (ofWords ws)[4 * k + i]? = some (UInt8.ofNat (w.toNat / 256 ^ i)) := by
  induction ws generalizing k with
  | nil => cases h
  | cons v ws ih =>
    have hcons : ofWords (v :: ws) = toLE 4 v.toNat ++ ofWords ws := List.flatMap_cons ..
    have hlen := length_toLE 4 v.toNat
    cases k with
    | zero =>
      cases h
      rw [hcons, Nat.mul_zero, Nat.zero_add, List.getElem?_append_left (hlen.symm ▸ hi)]
      exact getElem?_toLE 4 _ hi
    | succ k =>
      rw [hcons, List.getElem?_append_right (by omega), hlen, ← ih h]
      congr 1
      omega

theorem words_append_of_four (h : p.length = 4) (bs : List UInt8) :
    words (p ++ bs) = UInt32.ofNat (ofLE p) :: words bs := by
  match p, h with
  | [a, b, c, d], _ => rfl

theorem words_append (k : Nat) (h : bs.length = 4 * k) (cs : List UInt8) :
    words (bs ++ cs) = words bs ++ words cs := by
  induction k generalizing bs with
  | zero =>
    rw [List.eq_nil_of_length_eq_zero h]
    rfl
  | succ k ih =>
    have h4 : (bs.take 4).length = 4 := by rw [List.length_take]; omega
    have hd : (bs.drop 4).length = 4 * k := by rw [List.length_drop]; omega
    rw [← List.take_append_drop 4 bs, List.append_assoc, words_append_of_four h4,
      words_append_of_four h4, ih hd]
    rfl

theorem length_words (k : Nat) (h : bs.length = 4 * k) : (words bs).length = k := by
  induction k generalizing bs with
  | zero =>
    rw [List.eq_nil_of_length_eq_zero h]
    rfl
  | succ k ih =>
    have h4 : (bs.take 4).length = 4 := by rw [List.length_take]; omega
    have hd : (bs.drop 4).length = 4 * k := by rw [List.length_drop]; omega
    rw [← List.take_append_drop 4 bs, words_append_of_four h4, List.length_cons, ih hd]

theorem words_ofWords (ws : List UInt32) : words (ofWords ws) = ws := by
  induction ws with
  | nil => rfl
  | cons w ws ih =>
    have hw := w.toNat_lt
    rw [ofWords, List.flatMap_cons, words_append_of_four (length_toLE ..), ofLE_toLE_of_lt hw,
      UInt32.ofNat_toNat]
    exact congrArg _ ih

theorem ofWords_words (k : Nat) (h : bs.length = 4 * k) : ofWords (words bs) = bs := by
  induction k generalizing bs with
  | zero =>
    rw [List.eq_nil_of_length_eq_zero h]
    rfl
  | succ k ih =>
    have h4 : (bs.take 4).length = 4 := by rw [List.length_take]; omega
    have hd : (bs.drop 4).length = 4 * k := by rw [List.length_drop]; omega
    have hlt := ofLE_lt (bs.take 4)
    have hfirst := toLE_ofLE (bs.take 4)
    rw [h4] at hlt hfirst
    conv => enter [1]; rw [← List.take_append_drop 4 bs]
    rw [words_append_of_four h4, ofWords, List.flatMap_cons, ← ofWords, ih hd,
      UInt32.toNat_ofNat_of_lt' hlt, hfirst, List.take_append_drop]

/-- The 32-bit word at an address. -/
def Mem.loadWord (m : Mem UInt8) (a : Addr) : UInt32 := UInt32.ofNat (ofLE (m.load a 4))

theorem Mem.toNat_loadWord (m : Mem UInt8) (a : Addr) :
    (m.loadWord a).toNat = ofLE (m.load a 4) := by
  have hlt := ofLE_lt (m.load a 4)
  rw [length_load] at hlt
  exact UInt32.toNat_ofNat_of_lt' hlt

theorem Mem.bits_load (m : Mem UInt8) (a : Addr) (hk : k + 4 ≤ n) (h : off + width ≤ 32) :
    bits (m.load a n) (8 * k + off) width = (m.loadWord (a + k)).toNat / 2 ^ off % 2 ^ width := by
  have hdrop : k ≤ n := by omega
  have htake : 4 ≤ n - k := by omega
  rw [bits_run _ k 4 h, drop_load m a hdrop, take_load m _ htake, toNat_loadWord]

def Mem.loadWords (m : Mem UInt8) (a : Addr) (k : Nat) : List UInt32 := words (m.load a (4 * k))

@[simp] theorem Mem.length_loadWords (m : Mem UInt8) (a : Addr) (k : Nat) :
    (m.loadWords a k).length = k := length_words k (length_load ..)

theorem Mem.loadWords_succ (m : Mem UInt8) (a : Addr) (k : Nat) :
    m.loadWords a (k + 1) = m.loadWord a :: m.loadWords (a + 4) k := by
  rw [loadWords, Nat.mul_succ, Nat.add_comm, load_add, words_append_of_four (length_load ..)]
  rfl

@[simp] theorem Mem.loadWords_zero (m : Mem UInt8) (a : Addr) : m.loadWords a 0 = [] := rfl

theorem Mem.loadWords_add (m : Mem UInt8) (a : Addr) (j k : Nat) :
    m.loadWords a (j + k) = m.loadWords a j ++ m.loadWords (a + 4 * j) k := by
  rw [loadWords, Nat.mul_add, load_add, words_append j (length_load ..)]
  rfl

theorem Mem.take_drop_loadWords (m : Mem UInt8) (a : Addr) (h : j + k ≤ n) :
    ((m.loadWords a n).drop j).take k = m.loadWords (a + 4 * j) k := by
  obtain ⟨d, rfl⟩ := Nat.exists_eq_add_of_le h
  rw [Nat.add_assoc, loadWords_add, List.drop_left' (length_loadWords ..), loadWords_add,
    List.take_left' (length_loadWords ..)]

end Memory
