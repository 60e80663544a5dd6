import Mathlib

/-!
# Memory as bytes by offset

A buffer is the bytes that lie behind a pointer, by their offset. `memcpy` writes a list of
bytes into a buffer and `slice` reads one back; `read16`, `read32` and `le16`, `le32` are the
little-endian loads and stores. Sizes are not part of a buffer: where a program's safety rests
on them, they are checked where the access is made.
-/

namespace Memory

/-- The bytes behind a pointer, by offset. -/
abbrev Buf := Nat → UInt8

/-- Copy `src` to offset `off`. -/
def memcpy (dst : Buf) (off : Nat) (src : List UInt8) : Buf := fun i =>
  if off ≤ i then (src[i - off]?).getD (dst i) else dst i

/-- The `n` bytes from offset `off` on. -/
def slice (b : Buf) (off n : Nat) : List UInt8 := (List.range n).map fun k => b (off + k)

/-- A list of bytes in memory; what lies behind it is zero. -/
def ofList (l : List UInt8) : Buf := fun i => l.getD i 0

/-! ## Copying -/

theorem memcpy_of_lt {dst : Buf} {off : Nat} {src : List UInt8} {i : Nat} (h : i < off) :
    memcpy dst off src i = dst i := by
  simp [memcpy, Nat.not_le.mpr h]

theorem memcpy_of_ge {dst : Buf} {off : Nat} {src : List UInt8} {i : Nat}
    (h : off + src.length ≤ i) : memcpy dst off src i = dst i := by
  rw [memcpy, if_pos (by omega), List.getElem?_eq_none (by omega)]
  rfl

theorem memcpy_add {dst : Buf} {off : Nat} {src : List UInt8} {k : Nat} (h : k < src.length) :
    memcpy dst off src (off + k) = src[k] := by
  rw [memcpy, if_pos (by omega), Nat.add_sub_cancel_left, List.getElem?_eq_getElem h]
  rfl

@[simp] theorem memcpy_nil (dst : Buf) (off : Nat) : memcpy dst off [] = dst := by
  funext i
  simp [memcpy]

/-! ## Slices -/

@[simp] theorem length_slice (b : Buf) (off n : Nat) : (slice b off n).length = n := by
  simp [slice]

@[simp] theorem slice_zero (b : Buf) (off : Nat) : slice b off 0 = [] := rfl

theorem getElem_slice {b : Buf} {off n k : Nat} (h : k < (slice b off n).length) :
    (slice b off n)[k] = b (off + k) := by
  simp [slice]

theorem slice_congr {b c : Buf} {off n : Nat} (h : ∀ k < n, b (off + k) = c (off + k)) :
    slice b off n = slice c off n :=
  List.map_congr_left fun k hk => h k (List.mem_range.mp hk)

theorem slice_add (b : Buf) (off m n : Nat) :
    slice b off (m + n) = slice b off m ++ slice b (off + m) n := by
  simp only [slice, List.range_add, List.map_append, List.map_map]
  congr 1
  exact List.map_congr_left fun k _ => by simp [Nat.add_assoc]

theorem slice_eq_iff {b c : Buf} {off off' n : Nat} :
    slice b off n = slice c off' n ↔ ∀ k < n, b (off + k) = c (off' + k) := by
  constructor
  · intro h k hk
    have := congrArg (fun l => l[k]?) h
    simpa [slice, hk] using this
  · intro h
    exact List.map_congr_left fun k hk => h k (List.mem_range.mp hk)

theorem take_slice (b : Buf) (off : Nat) {m n : Nat} (h : m ≤ n) :
    (slice b off n).take m = slice b off m := by
  obtain ⟨k, rfl⟩ := Nat.exists_eq_add_of_le h
  rw [slice_add, List.take_left' (by simp)]

theorem slice_append {b : Buf} {off : Nat} {l r : List UInt8}
    (h : slice b off (l ++ r).length = l ++ r) :
    slice b off l.length = l ∧ slice b (off + l.length) r.length = r := by
  rw [List.length_append, slice_add] at h
  exact List.append_inj h (length_slice b off l.length)

/-- The bytes lie in memory from offset `off` on. -/
def Stored (b : Buf) (off : Nat) (l : List UInt8) : Prop := slice b off l.length = l

theorem stored_append {b : Buf} {off : Nat} {l r : List UInt8} (h : Stored b off (l ++ r)) :
    Stored b off l ∧ Stored b (off + l.length) r :=
  slice_append h

theorem slice_memcpy (dst : Buf) (off : Nat) (src : List UInt8) :
    slice (memcpy dst off src) off src.length = src := by
  apply List.ext_getElem (by simp)
  intro k _ hk
  rw [getElem_slice, memcpy_add hk]

theorem stored_memcpy (dst : Buf) (off : Nat) (src : List UInt8) :
    Stored (memcpy dst off src) off src :=
  slice_memcpy dst off src

theorem slice_memcpy_before {dst : Buf} {off o n : Nat} {src : List UInt8} (h : o + n ≤ off) :
    slice (memcpy dst off src) o n = slice dst o n :=
  slice_congr fun _ _ => memcpy_of_lt (by omega)

theorem slice_memcpy_after {dst : Buf} {off o n : Nat} {src : List UInt8}
    (h : off + src.length ≤ o) : slice (memcpy dst off src) o n = slice dst o n :=
  slice_congr fun _ _ => memcpy_of_ge (by omega)

theorem slice_memcpy_append (dst : Buf) (o n : Nat) (src : List UInt8) :
    slice (memcpy dst (o + n) src) o (n + src.length) = slice dst o n ++ src := by
  rw [slice_add, slice_memcpy_before le_rfl, slice_memcpy]

theorem slice_ofList (l : List UInt8) : slice (ofList l) 0 l.length = l := by
  apply List.ext_getElem (by simp)
  intro k _ hk
  rw [getElem_slice, ofList, Nat.zero_add, List.getD_eq_getElem _ _ hk]

theorem stored_drop {l : List UInt8} {n : Nat} (h : n ≤ l.length) :
    Stored (ofList l) n (l.drop n) := by
  have hwhole : Stored (ofList l) 0 (l.take n ++ l.drop n) := by
    rw [List.take_append_drop]
    exact slice_ofList l
  have hrest := (stored_append hwhole).2
  rwa [List.length_take, Nat.min_eq_left h, Nat.zero_add] at hrest

theorem memcpy_of_lt_length {src : List UInt8} {i : Nat} (h : i < src.length) (dst : Buf) :
    memcpy dst 0 src i = ofList src i := by
  have hread : memcpy dst 0 src (0 + i) = src[i] := memcpy_add h
  rw [Nat.zero_add] at hread
  rw [hread, ofList, List.getD_eq_getElem _ _ h]

theorem ofList_slice (b : Buf) (off : Nat) {n k : Nat} (h : k < n) :
    ofList (slice b off n) k = b (off + k) := by
  rw [ofList, List.getD_eq_getElem _ _ (by simpa using h), getElem_slice]

/-! ## Little-endian words -/

/-- The two bytes of a 16-bit word. -/
def le16 (x : UInt16) : List UInt8 := [.ofNat x.toNat, .ofNat (x.toNat / 2 ^ 8)]

/-- The four bytes of a 32-bit word. -/
def le32 (x : UInt32) : List UInt8 :=
  [.ofNat x.toNat, .ofNat (x.toNat / 2 ^ 8), .ofNat (x.toNat / 2 ^ 16), .ofNat (x.toNat / 2 ^ 24)]

def read16 (b : Buf) (off : Nat) : UInt16 :=
  .ofNat ((b off).toNat + 2 ^ 8 * (b (off + 1)).toNat)

def read32 (b : Buf) (off : Nat) : UInt32 :=
  .ofNat ((b off).toNat + 2 ^ 8 * (b (off + 1)).toNat + 2 ^ 16 * (b (off + 2)).toNat +
    2 ^ 24 * (b (off + 3)).toNat)

@[simp] theorem length_le16 (x : UInt16) : (le16 x).length = 2 := rfl

@[simp] theorem length_le32 (x : UInt32) : (le32 x).length = 4 := rfl

theorem read16_congr {b c : Buf} {off off' : Nat} (h : slice b off 2 = slice c off' 2) :
    read16 b off = read16 c off' := by
  rw [slice_eq_iff] at h
  simp only [read16]
  rw [show b off = c off' from h 0 (by omega), h 1 (by omega)]

theorem read32_congr {b c : Buf} {off off' : Nat} (h : slice b off 4 = slice c off' 4) :
    read32 b off = read32 c off' := by
  rw [slice_eq_iff] at h
  simp only [read32]
  rw [show b off = c off' from h 0 (by omega), h 1 (by omega), h 2 (by omega), h 3 (by omega)]

theorem read16_of_slice {b : Buf} {off : Nat} {x : UInt16} (h : slice b off 2 = le16 x) :
    read16 b off = x := by
  have hx := x.toNat_lt
  simp only [slice, List.range_succ, List.range_zero, le16] at h
  simp only [List.nil_append, List.cons_append, List.map_cons, List.map_nil, List.cons.injEq,
    Nat.add_zero, and_true] at h
  apply UInt16.toNat_inj.mp
  rw [read16, h.1, h.2]
  simp only [UInt8.toNat_ofNat', UInt16.toNat_ofNat']
  omega

theorem read32_of_slice {b : Buf} {off : Nat} {x : UInt32} (h : slice b off 4 = le32 x) :
    read32 b off = x := by
  have hx := x.toNat_lt
  simp only [slice, List.range_succ, List.range_zero, le32] at h
  simp only [List.nil_append, List.cons_append, List.map_cons, List.map_nil, List.cons.injEq,
    Nat.add_zero, and_true] at h
  obtain ⟨h0, h1, h2, h3⟩ := h
  apply UInt32.toNat_inj.mp
  rw [read32, h0, h1, h2, h3]
  simp only [UInt8.toNat_ofNat', UInt32.toNat_ofNat']
  omega

end Memory
