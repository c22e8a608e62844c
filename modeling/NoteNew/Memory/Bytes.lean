import Mathlib.Data.List.Basic

/-!
# Byte memory

Bytes at offsets from a base address, with block writes and reads, 32-bit integers in little-endian
two's complement, and NUL-terminated strings in a buffer. A write changes the bytes of its block and
no others (`write_of_lt`, `write_of_ge`), and a block reads back what was written (`read_write`).
-/

namespace NoteNew.Memory

/-- The bytes around a base address, by their offset from it. -/
abbrev Mem := Int → UInt8

def storeByte (m : Mem) (a : Int) (b : UInt8) : Mem := fun i => if i = a then b else m i

/-- Write bytes from an address on. -/
def write (m : Mem) : Int → List UInt8 → Mem
  | _, [] => m
  | a, b :: bs => write (storeByte m a b) (a + 1) bs

/-- The `n` bytes from an address on. -/
def read (m : Mem) : Int → Nat → List UInt8
  | _, 0 => []
  | a, n + 1 => m a :: read m (a + 1) n

/-! ## Frame and read-back -/

theorem storeByte_same (m : Mem) (a : Int) (b : UInt8) : storeByte m a b a = b :=
  if_pos rfl

theorem storeByte_of_ne (m : Mem) {a i : Int} (b : UInt8) (h : i ≠ a) :
    storeByte m a b i = m i :=
  if_neg h

/-- Bytes below the block are unchanged. -/
theorem write_of_lt (m : Mem) {a i : Int} (bs : List UInt8) (h : i < a) :
    write m a bs i = m i := by
  induction bs generalizing m a with
  | nil => rfl
  | cons b bs ih =>
    rw [write, ih _ (by omega), storeByte_of_ne _ _ (by omega)]

/-- Bytes above the block are unchanged. -/
theorem write_of_ge (m : Mem) {a i : Int} (bs : List UInt8) (h : a + bs.length ≤ i) :
    write m a bs i = m i := by
  induction bs generalizing m a with
  | nil => rfl
  | cons b bs ih =>
    rw [List.length_cons] at h
    rw [write, ih _ (by omega), storeByte_of_ne _ _ (by omega)]

theorem write_append (m : Mem) (a : Int) (bs cs : List UInt8) :
    write m a (bs ++ cs) = write (write m a bs) (a + bs.length) cs := by
  induction bs generalizing m a with
  | nil => simp [write]
  | cons b bs ih =>
    rw [List.cons_append, write, ih, write, List.length_cons]
    congr 1
    omega

@[simp] theorem length_read (m : Mem) (a : Int) (n : Nat) : (read m a n).length = n := by
  induction n generalizing a with
  | zero => rfl
  | succ n ih => rw [read, List.length_cons, ih]

theorem read_append (m : Mem) (a : Int) (n k : Nat) :
    read m a (n + k) = read m a n ++ read m (a + n) k := by
  induction n generalizing a with
  | zero => simp [read]
  | succ n ih =>
    have hidx : a + 1 + (n : Int) = a + ((n + 1 : Nat) : Int) := by omega
    rw [Nat.succ_add, read, ih, read, List.cons_append, hidx]

theorem read_congr {m m' : Mem} {a : Int} {n : Nat}
    (h : ∀ i, a ≤ i → i < a + n → m i = m' i) : read m a n = read m' a n := by
  induction n generalizing a with
  | zero => rfl
  | succ n ih =>
    rw [read, read, h a (by omega) (by omega), ih fun i hi hi' => h i (by omega) (by omega)]

/-- A block reads back what was written. -/
theorem read_write (m : Mem) (a : Int) (bs : List UInt8) :
    read (write m a bs) a bs.length = bs := by
  induction bs generalizing m a with
  | nil => rfl
  | cons b bs ih =>
    rw [write, List.length_cons, read, ih, write_of_lt _ _ (by omega), storeByte_same]

/-- A block that reads as two parts reads as each of them. -/
theorem read_eq_append {m : Mem} {a : Int} {bs cs : List UInt8}
    (h : read m a (bs ++ cs).length = bs ++ cs) :
    read m a bs.length = bs ∧ read m (a + bs.length) cs.length = cs := by
  rw [List.length_append, read_append] at h
  exact List.append_inj h (length_read m a bs.length)

/-! ## 32-bit integers -/

/-- The bytes of a 32-bit integer, the lowest first. -/
def encode32 (v : Int) : List UInt8 :=
  let n := (v % 4294967296).toNat
  [.ofNat n, .ofNat (n / 256), .ofNat (n / 65536), .ofNat (n / 16777216)]

/-- The integer behind four bytes. -/
def decode32 : List UInt8 → Int
  | [b₀, b₁, b₂, b₃] =>
    let n := b₀.toNat + 256 * b₁.toNat + 65536 * b₂.toNat + 16777216 * b₃.toNat
    if n < 2147483648 then n else n - 4294967296
  | _ => 0

theorem length_encode32 (v : Int) : (encode32 v).length = 4 := rfl

theorem decode32_encode32 {v : Int} (hlo : -2147483648 ≤ v) (hhi : v < 2147483648) :
    decode32 (encode32 v) = v := by
  simp only [encode32, decode32, UInt8.toNat_ofNat']
  split <;> omega

/-! ## Strings in a buffer -/

/-- The string at an address, read from a buffer of `n` bytes up to its first NUL. -/
def cstr (m : Mem) (a : Int) (n : Nat) : List UInt8 :=
  (read m a n).takeWhile (· ≠ 0)

theorem takeWhile_ne_zero {w : List UInt8} (hw : 0 ∉ w) (bs : List UInt8) :
    (w ++ bs).takeWhile (· ≠ 0) = w ++ bs.takeWhile (· ≠ 0) := by
  apply List.takeWhile_append_of_pos
  intro c hc
  rw [decide_eq_true_eq]
  exact fun h0 => hw (h0 ▸ hc)

theorem cstr_eq {m : Mem} {a : Int} {w : List UInt8} {n : Nat}
    (h : read m a (w.length + 1) = w ++ [0]) (hw : 0 ∉ w) (hn : w.length < n) :
    cstr m a n = w := by
  obtain ⟨k, rfl⟩ := Nat.exists_eq_add_of_lt hn
  rw [cstr, Nat.add_right_comm, read_append, h, List.append_assoc, takeWhile_ne_zero hw]
  simp

/-- A buffer that is full of characters is a string without a terminator. -/
theorem cstr_of_full {m : Mem} {a : Int} {w : List UInt8} {n : Nat}
    (h : read m a w.length = w) (hw : 0 ∉ w) (hn : w.length = n) : cstr m a n = w := by
  have hfull := takeWhile_ne_zero hw []
  rw [List.append_nil, List.takeWhile_nil, List.append_nil] at hfull
  rw [cstr, ← hn, h, hfull]

end NoteNew.Memory
