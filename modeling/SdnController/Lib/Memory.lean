import Mathlib.Data.List.Basic
import Mathlib.Data.List.GetD
import Mathlib.Data.List.OfFn
import Mathlib.Tactic.NormNum

/-!
# Byte memory and byte order

A stretch of memory is a function from offsets to bytes (`Mem`); what was never written holds
whatever was there before. `memset`, `memcpy`, and `bytesAt` are the C library's operations on it,
with the lemmas that read one through the other.

The host is little-endian: `load16` and `store16` move a 16-bit word between memory and a variable
low byte first, and `ntohs` and `htons` swap its bytes. `be16` and `be16Bytes` are the network's
order, high byte first. A program that loads a word and passes it through `ntohs` reads it in
network order (`ntohs_load16`), one that passes a value through `htons` and stores it writes it in
network order (`store16_htons`), and one that loads and stores copies the two bytes
(`store16_load16`). The 32- and 64-bit words follow the same pattern.
-/

namespace Memory

/-- A stretch of memory, by the offset from its first byte. -/
abbrev Mem := ℕ → UInt8

/-- Sets the first `n` bytes to `c`. -/
def memset (m : Mem) (c : UInt8) (n : ℕ) : Mem := fun i => if i < n then c else m i

/-- Writes the bytes `src` at offset `off`. -/
def memcpy (m : Mem) (off : ℕ) (src : List UInt8) : Mem :=
  fun i => if off ≤ i ∧ i < off + src.length then src.getD (i - off) 0 else m i

/-- The `n` bytes from offset `off`. -/
def bytesAt (m : Mem) (off n : ℕ) : List UInt8 := List.ofFn fun k : Fin n => m (off + k)

@[simp]
theorem bytesAt_length (m : Mem) (off n : ℕ) : (bytesAt m off n).length = n := by
  simp [bytesAt]

/-- The memory that holds a list of bytes, and zeros after it. -/
def ofBytes (b : List UInt8) : Mem := fun i => b.getD i 0

/-- A byte of a slice. -/
theorem bytesAt_getElem? (m : Mem) (off n k : ℕ) :
    (bytesAt m off n)[k]? = if k < n then some (m (off + k)) else none := by
  unfold bytesAt
  split_ifs with h
  · simp [h]
  · simp only [List.getElem?_eq_none_iff, List.length_ofFn]
    omega

/-- A slice, as memory of its own. -/
theorem ofBytes_bytesAt (m : Mem) (off : ℕ) {n k : ℕ} (h : k < n) :
    ofBytes (bytesAt m off n) k = m (off + k) := by
  unfold ofBytes
  rw [List.getD_eq_getElem?_getD, bytesAt_getElem?, if_pos h, Option.getD_some]

/-- A slice in two parts. -/
theorem bytesAt_append (m : Mem) (off n k : ℕ) :
    bytesAt m off (n + k) = bytesAt m off n ++ bytesAt m (off + n) k := by
  unfold bytesAt
  rw [List.ofFn_add]
  congr 2
  funext j
  simp [Nat.add_assoc]

/-- A slice depends only on the bytes in it. -/
theorem bytesAt_congr {m m' : Mem} {off off' n : ℕ} (h : ∀ k, k < n → m (off + k) = m' (off' + k)) :
    bytesAt m off n = bytesAt m' off' n := by
  unfold bytesAt
  congr 1
  funext k
  exact h k k.isLt

/-- Bytes before a copy are unchanged. -/
theorem memcpy_of_lt (m : Mem) {off i : ℕ} (src : List UInt8) (h : i < off) :
    memcpy m off src i = m i := by
  unfold memcpy
  rw [if_neg (by omega)]

/-- Bytes after a copy are unchanged. -/
theorem memcpy_of_ge (m : Mem) {off i : ℕ} (src : List UInt8) (h : off + src.length ≤ i) :
    memcpy m off src i = m i := by
  unfold memcpy
  rw [if_neg (by omega)]

/-- The bytes that a copy writes. -/
theorem memcpy_of_mem (m : Mem) {off i : ℕ} (src : List UInt8) (h : off ≤ i)
    (h' : i < off + src.length) : memcpy m off src i = src.getD (i - off) 0 := by
  unfold memcpy
  rw [if_pos ⟨h, h'⟩]

/-- A slice copied from one memory and read in another. -/
theorem memcpy_bytesAt (m m' : Mem) {off off' n i : ℕ} (h : off ≤ i) (h' : i < off + n) :
    memcpy m off (bytesAt m' off' n) i = m' (off' + (i - off)) := by
  rw [memcpy_of_mem _ _ h (by simpa using h')]
  simp only [List.getD_eq_getElem?_getD, bytesAt_getElem?]
  rw [if_pos (by omega), Option.getD_some]

/-- Two copies, one after the other, are a copy of the two lists. -/
theorem memcpy_append (m : Mem) (off : ℕ) (a b : List UInt8) :
    memcpy (memcpy m off a) (off + a.length) b = memcpy m off (a ++ b) := by
  funext i
  by_cases hb : off + a.length ≤ i
  · by_cases hend : i < off + a.length + b.length
    · rw [memcpy_of_mem _ _ hb hend, memcpy_of_mem _ _ (by omega) (by simp; omega),
        List.getD_append_right _ _ _ _ (by omega)]
      congr 1
      omega
    · rw [memcpy_of_ge _ _ (by omega), memcpy_of_ge _ _ (by omega),
        memcpy_of_ge _ _ (by simp; omega)]
  · rw [memcpy_of_lt _ _ (by omega)]
    by_cases ha : off ≤ i
    · rw [memcpy_of_mem _ _ ha (by omega), memcpy_of_mem _ _ ha (by simp; omega),
        List.getD_append _ _ _ _ (by omega)]
    · rw [memcpy_of_lt _ _ (by omega), memcpy_of_lt _ _ (by omega)]

/-- A list read back from the memory that it was written to. -/
theorem bytesAt_memcpy_self (m : Mem) (off : ℕ) (src : List UInt8) :
    bytesAt (memcpy m off src) off src.length = src := by
  apply List.ext_getElem?
  intro k
  rw [bytesAt_getElem?]
  split_ifs with h
  · rw [memcpy_of_mem _ _ (by omega) (by omega)]
    simp [h]
  · simp only [not_lt] at h
    simp [h]

/-! ## 16-bit words -/

/-- Loads a 16-bit word, low byte first. -/
def load16 (m : Mem) (off : ℕ) : UInt16 :=
  UInt16.ofNat ((m off).toNat + 256 * (m (off + 1)).toNat)

/-- The bytes of a 16-bit word in memory, low byte first. -/
def store16 (x : UInt16) : List UInt8 := [UInt8.ofNat (x.toNat % 256), UInt8.ofNat (x.toNat / 256)]

/-- Swaps the two bytes of a word. -/
def ntohs (x : UInt16) : UInt16 := UInt16.ofNat (x.toNat % 256 * 256 + x.toNat / 256)

/-- Swaps the two bytes of a word; on a given host the two conversions are the same. -/
def htons (x : UInt16) : UInt16 := ntohs x

/-- The 16-bit word of two bytes in network order. -/
def be16 (b₀ b₁ : UInt8) : UInt16 := UInt16.ofNat (b₀.toNat * 256 + b₁.toNat)

/-- The bytes of a 16-bit word in network order. -/
def be16Bytes (x : UInt16) : List UInt8 :=
  [UInt8.ofNat (x.toNat / 256), UInt8.ofNat (x.toNat % 256)]

@[simp] theorem store16_length (x : UInt16) : (store16 x).length = 2 := rfl

@[simp] theorem be16Bytes_length (x : UInt16) : (be16Bytes x).length = 2 := rfl

theorem load16_toNat (m : Mem) (off : ℕ) :
    (load16 m off).toNat = (m off).toNat + 256 * (m (off + 1)).toNat := by
  have h0 := (m off).toNat_lt
  have h1 := (m (off + 1)).toNat_lt
  rw [load16, UInt16.toNat_ofNat']
  omega

theorem ntohs_toNat (x : UInt16) : (ntohs x).toNat = x.toNat % 256 * 256 + x.toNat / 256 := by
  have h := x.toNat_lt
  rw [ntohs, UInt16.toNat_ofNat']
  omega

theorem be16_toNat (b₀ b₁ : UInt8) : (be16 b₀ b₁).toNat = b₀.toNat * 256 + b₁.toNat := by
  have h0 := b₀.toNat_lt
  have h1 := b₁.toNat_lt
  rw [be16, UInt16.toNat_ofNat']
  omega

/-- A loaded word in host order is the network's reading of its two bytes. -/
theorem ntohs_load16 (m : Mem) (off : ℕ) : ntohs (load16 m off) = be16 (m off) (m (off + 1)) := by
  have h0 := (m off).toNat_lt
  apply UInt16.toNat.inj
  rw [ntohs_toNat, load16_toNat, be16_toNat]
  omega

/-- Storing a loaded word copies its two bytes. -/
theorem store16_load16 (m : Mem) (off : ℕ) : store16 (load16 m off) = [m off, m (off + 1)] := by
  have h0 := (m off).toNat_lt
  have h1 := (m (off + 1)).toNat_lt
  simp only [store16, load16_toNat, List.cons.injEq, and_true]
  constructor <;> apply UInt8.toNat.inj <;> simp only [UInt8.toNat_ofNat'] <;> omega

/-- A value stored in network order. -/
theorem store16_htons (x : UInt16) : store16 (htons x) = be16Bytes x := by
  have h := x.toNat_lt
  simp only [store16, htons, ntohs_toNat, be16Bytes, List.cons.injEq, and_true]
  have hlo : x.toNat % 256 < 256 := Nat.mod_lt _ (by norm_num)
  have hhi : x.toNat / 256 < 256 := by omega
  -- What is left is about the two digits, whatever the word.
  generalize x.toNat % 256 = lo at *
  generalize x.toNat / 256 = hi at *
  constructor <;> apply UInt8.toNat.inj <;> simp only [UInt8.toNat_ofNat'] <;> omega

/-- The network's bytes of the word that they make. -/
theorem be16Bytes_be16 (b₀ b₁ : UInt8) : be16Bytes (be16 b₀ b₁) = [b₀, b₁] := by
  have h0 := b₀.toNat_lt
  have h1 := b₁.toNat_lt
  simp only [be16Bytes, be16_toNat, List.cons.injEq, and_true]
  constructor <;> apply UInt8.toNat.inj <;> simp only [UInt8.toNat_ofNat'] <;> omega

/-- The word that the network's bytes of a word make. -/
theorem be16_be16Bytes (x : UInt16) :
    be16 (UInt8.ofNat (x.toNat / 256)) (UInt8.ofNat (x.toNat % 256)) = x := by
  have h := x.toNat_lt
  apply UInt16.toNat.inj
  simp only [be16_toNat, UInt8.toNat_ofNat']
  omega

/-! ## 32-bit words -/

/-- Loads a 32-bit word, low byte first. -/
def load32 (m : Mem) (off : ℕ) : UInt32 :=
  UInt32.ofNat ((m off).toNat + 2^8 * (m (off + 1)).toNat + 2^16 * (m (off + 2)).toNat +
    2^24 * (m (off + 3)).toNat)

/-- The bytes of a 32-bit word in memory, low byte first. -/
def store32 (x : UInt32) : List UInt8 :=
  [UInt8.ofNat (x.toNat % 256), UInt8.ofNat (x.toNat / 2^8 % 256),
    UInt8.ofNat (x.toNat / 2^16 % 256), UInt8.ofNat (x.toNat / 2^24)]

/-- Reverses the four bytes of a word. -/
def htonl (x : UInt32) : UInt32 :=
  UInt32.ofNat (x.toNat % 256 * 2^24 + x.toNat / 2^8 % 256 * 2^16 + x.toNat / 2^16 % 256 * 2^8 +
    x.toNat / 2^24)

/-- The 32-bit word of four bytes in network order. -/
def be32 (b₀ b₁ b₂ b₃ : UInt8) : UInt32 :=
  UInt32.ofNat (b₀.toNat * 2^24 + b₁.toNat * 2^16 + b₂.toNat * 2^8 + b₃.toNat)

/-- The bytes of a 32-bit word in network order. -/
def be32Bytes (x : UInt32) : List UInt8 :=
  [UInt8.ofNat (x.toNat / 2^24), UInt8.ofNat (x.toNat / 2^16 % 256),
    UInt8.ofNat (x.toNat / 2^8 % 256), UInt8.ofNat (x.toNat % 256)]

@[simp] theorem store32_length (x : UInt32) : (store32 x).length = 4 := rfl

@[simp] theorem be32Bytes_length (x : UInt32) : (be32Bytes x).length = 4 := rfl

theorem load32_toNat (m : Mem) (off : ℕ) :
    (load32 m off).toNat = (m off).toNat + 2^8 * (m (off + 1)).toNat +
      2^16 * (m (off + 2)).toNat + 2^24 * (m (off + 3)).toNat := by
  have h0 := (m off).toNat_lt
  have h1 := (m (off + 1)).toNat_lt
  have h2 := (m (off + 2)).toNat_lt
  have h3 := (m (off + 3)).toNat_lt
  rw [load32, UInt32.toNat_ofNat']
  omega

theorem htonl_toNat (x : UInt32) :
    (htonl x).toNat = x.toNat % 256 * 2^24 + x.toNat / 2^8 % 256 * 2^16 +
      x.toNat / 2^16 % 256 * 2^8 + x.toNat / 2^24 := by
  have h := x.toNat_lt
  rw [htonl, UInt32.toNat_ofNat']
  omega

theorem be32_toNat (b₀ b₁ b₂ b₃ : UInt8) :
    (be32 b₀ b₁ b₂ b₃).toNat = b₀.toNat * 2^24 + b₁.toNat * 2^16 + b₂.toNat * 2^8 + b₃.toNat := by
  have h0 := b₀.toNat_lt
  have h1 := b₁.toNat_lt
  have h2 := b₂.toNat_lt
  have h3 := b₃.toNat_lt
  rw [be32, UInt32.toNat_ofNat']
  omega

/-- Storing a loaded word copies its four bytes. -/
theorem store32_load32 (m : Mem) (off : ℕ) :
    store32 (load32 m off) = [m off, m (off + 1), m (off + 2), m (off + 3)] := by
  have h0 := (m off).toNat_lt
  have h1 := (m (off + 1)).toNat_lt
  have h2 := (m (off + 2)).toNat_lt
  have h3 := (m (off + 3)).toNat_lt
  simp only [store32, load32_toNat, List.cons.injEq, and_true]
  refine ⟨?_, ?_, ?_, ?_⟩ <;> apply UInt8.toNat.inj <;> simp only [UInt8.toNat_ofNat'] <;> omega

/-- A value stored in network order. -/
theorem store32_htonl (x : UInt32) : store32 (htonl x) = be32Bytes x := by
  have h := x.toNat_lt
  simp only [store32, htonl_toNat, be32Bytes, List.cons.injEq, and_true]
  have h0 : x.toNat % 256 < 256 := Nat.mod_lt _ (by norm_num)
  have h1 : x.toNat / 2^8 % 256 < 256 := Nat.mod_lt _ (by norm_num)
  have h2 : x.toNat / 2^16 % 256 < 256 := Nat.mod_lt _ (by norm_num)
  have h3 : x.toNat / 2^24 < 256 := by omega
  -- What is left is about the four digits, whatever the word.
  generalize x.toNat % 256 = d0 at *
  generalize x.toNat / 2^8 % 256 = d1 at *
  generalize x.toNat / 2^16 % 256 = d2 at *
  generalize x.toNat / 2^24 = d3 at *
  refine ⟨?_, ?_, ?_, ?_⟩ <;> apply UInt8.toNat.inj <;> simp only [UInt8.toNat_ofNat'] <;> omega

/-- The network's bytes of the word that they make. -/
theorem be32Bytes_be32 (b₀ b₁ b₂ b₃ : UInt8) : be32Bytes (be32 b₀ b₁ b₂ b₃) = [b₀, b₁, b₂, b₃] := by
  have h0 := b₀.toNat_lt
  have h1 := b₁.toNat_lt
  have h2 := b₂.toNat_lt
  have h3 := b₃.toNat_lt
  simp only [be32Bytes, be32_toNat, List.cons.injEq, and_true]
  refine ⟨?_, ?_, ?_, ?_⟩ <;> apply UInt8.toNat.inj <;> simp only [UInt8.toNat_ofNat'] <;> omega

/-- The word that the network's bytes of a word make. -/
theorem be32_be32Bytes (x : UInt32) :
    be32 (UInt8.ofNat (x.toNat / 2^24)) (UInt8.ofNat (x.toNat / 2^16 % 256))
      (UInt8.ofNat (x.toNat / 2^8 % 256)) (UInt8.ofNat (x.toNat % 256)) = x := by
  have h := x.toNat_lt
  apply UInt32.toNat.inj
  simp only [be32_toNat, UInt8.toNat_ofNat']
  omega

/-! ## 64-bit words -/

/-- Loads a 64-bit word and reverses its bytes: the network's reading of the eight bytes. -/
def be64 (m : Mem) (off : ℕ) : UInt64 :=
  UInt64.ofNat ((be32 (m off) (m (off + 1)) (m (off + 2)) (m (off + 3))).toNat * 2^32 +
    (be32 (m (off + 4)) (m (off + 5)) (m (off + 6)) (m (off + 7))).toNat)

/-- The bytes of a 64-bit word in network order. -/
def be64Bytes (x : UInt64) : List UInt8 :=
  be32Bytes (UInt32.ofNat (x.toNat / 2^32)) ++ be32Bytes (UInt32.ofNat (x.toNat % 2^32))

@[simp] theorem be64Bytes_length (x : UInt64) : (be64Bytes x).length = 8 := rfl

/-- The two halves of a 64-bit word make the word. -/
theorem be64_of_halves {m : Mem} {off : ℕ} {x : UInt64}
    (hhi : be32 (m off) (m (off + 1)) (m (off + 2)) (m (off + 3)) = UInt32.ofNat (x.toNat / 2^32))
    (hlo : be32 (m (off + 4)) (m (off + 5)) (m (off + 6)) (m (off + 7)) =
      UInt32.ofNat (x.toNat % 2^32)) : be64 m off = x := by
  have h := x.toNat_lt
  unfold be64
  rw [hhi, hlo, UInt32.toNat_ofNat', UInt32.toNat_ofNat', Nat.mod_eq_of_lt (by omega),
    Nat.mod_eq_of_lt (by omega)]
  apply UInt64.toNat.inj
  rw [UInt64.toNat_ofNat']
  omega

end Memory
