import Mathlib.Algebra.Group.Nat.Defs
import Mathlib.Data.Nat.Basic
import Mathlib.Data.List.Basic

/-!
# Base-128 numbers with a continuation bit

A number is written least significant group first, seven bits to a byte; every byte but
the last has its top bit set. A reader that accepts at most `k` bytes returns the number
with its length, or reports that the bytes end too early or that the number is too long.

## Main definitions

* `Base128.encode` — the shortest encoding of a number.
* `Base128.read` — read a number of at most `k` bytes from the front of a list.
* `Base128.read_encode_append` — the reader inverts the encoder, whatever follows.
* `Base128.read_append` — a number that was read is read again when more bytes follow.
-/

namespace Base128

/-- The outcome of reading a number at the front of a list of bytes. -/
inductive Reading
  /-- The number `n`, written in `len` bytes. -/
  | value (n len : ℕ)
  /-- The bytes end inside the number. -/
  | incomplete
  /-- The number has more bytes than the reader accepts. -/
  | overlong
  deriving DecidableEq, Repr

/-- Read a number of at most `k` bytes. -/
def read : ℕ → List UInt8 → Reading
  | 0, _ => .overlong
  | _ + 1, [] => .incomplete
  | k + 1, b :: bs =>
    if b.toNat < 128 then .value b.toNat 1
    else match read k bs with
      | .value n len => .value (b.toNat % 128 + 128 * n) (len + 1)
      | .incomplete => .incomplete
      | .overlong => .overlong

/-- The shortest encoding of `n`. -/
def encode (n : ℕ) : List UInt8 :=
  if n < 128 then [UInt8.ofNat n] else UInt8.ofNat (n % 128 + 128) :: encode (n / 128)
termination_by n
decreasing_by exact Nat.div_lt_self (by omega) (by omega)

@[simp] theorem read_zero (bs : List UInt8) : read 0 bs = .overlong := rfl

@[simp] theorem read_nil (k : ℕ) : read (k + 1) [] = .incomplete := rfl

theorem read_cons (k : ℕ) (b : UInt8) (bs : List UInt8) :
    read (k + 1) (b :: bs) =
      if b.toNat < 128 then .value b.toNat 1
      else match read k bs with
        | .value n len => .value (b.toNat % 128 + 128 * n) (len + 1)
        | .incomplete => .incomplete
        | .overlong => .overlong := rfl

/-- A number is read from its last group, or from its first group and a number behind it. -/
theorem read_cons_eq_value {k n len : ℕ} {b : UInt8} {bs : List UInt8} :
    read (k + 1) (b :: bs) = .value n len ↔
      (b.toNat < 128 ∧ n = b.toNat ∧ len = 1) ∨
      (128 ≤ b.toNat ∧ ∃ m l, read k bs = .value m l ∧ n = b.toNat % 128 + 128 * m ∧ len = l + 1) := by
  rw [read_cons]
  by_cases hb : b.toNat < 128
  · rw [if_pos hb, Reading.value.injEq]
    simp [hb, Nat.not_le.mpr hb, eq_comm]
  · rw [if_neg hb]
    cases read k bs with
    | value m l =>
      simp only [Reading.value.injEq, hb, false_and, false_or, Nat.not_lt.mp hb, true_and]
      constructor
      · intro h
        exact ⟨m, l, ⟨rfl, rfl⟩, h.1.symm, h.2.symm⟩
      · intro h
        obtain ⟨_, _, ⟨rfl, rfl⟩, hn, hlen⟩ := h
        exact ⟨hn.symm, hlen.symm⟩
    | incomplete => simp [hb]
    | overlong => simp [hb]

theorem read_cons_eq_incomplete {k : ℕ} {b : UInt8} {bs : List UInt8} :
    read (k + 1) (b :: bs) = .incomplete ↔ 128 ≤ b.toNat ∧ read k bs = .incomplete := by
  rw [read_cons]
  by_cases hb : b.toNat < 128
  · simp [hb, Nat.not_le.mpr hb]
  · cases hread : read k bs <;> simp [hb, Nat.not_lt.mp hb]

theorem read_cons_eq_overlong {k : ℕ} {b : UInt8} {bs : List UInt8} :
    read (k + 1) (b :: bs) = .overlong ↔ 128 ≤ b.toNat ∧ read k bs = .overlong := by
  rw [read_cons]
  by_cases hb : b.toNat < 128
  · simp [hb, Nat.not_le.mpr hb]
  · cases hread : read k bs <;> simp [hb, Nat.not_lt.mp hb]

theorem encode_of_lt {n : ℕ} (h : n < 128) : encode n = [UInt8.ofNat n] := by
  rw [encode, if_pos h]

theorem encode_of_ge {n : ℕ} (h : 128 ≤ n) :
    encode n = UInt8.ofNat (n % 128 + 128) :: encode (n / 128) := by
  rw [encode, if_neg (by omega)]

theorem length_encode_pos (n : ℕ) : 0 < (encode n).length := by
  rw [encode]
  split <;> simp

theorem encode_ne_nil (n : ℕ) : encode n ≠ [] := List.ne_nil_of_length_pos (length_encode_pos n)

/-- What is left after the first group of a number of at most `k + 1` groups. -/
theorem div_lt_pow {k n : ℕ} (hn : 128 ≤ n) (h : n < 128 ^ (k + 1)) : 0 < k ∧ n / 128 < 128 ^ k := by
  refine ⟨?_, Nat.div_lt_of_lt_mul (by rw [Nat.pow_succ] at h; omega)⟩
  rcases Nat.eq_zero_or_pos k with rfl | hk
  · simp at h; omega
  · exact hk

/-- A number below `128 ^ k` is written in at most `k` bytes. -/
theorem length_encode_le {k n : ℕ} (hk : 0 < k) (h : n < 128 ^ k) : (encode n).length ≤ k := by
  induction k generalizing n with
  | zero => omega
  | succ k ih =>
    by_cases hn : n < 128
    · rw [encode_of_lt hn]; simp
    · obtain ⟨hk, hdiv⟩ := div_lt_pow (by omega) h
      rw [encode_of_ge (by omega), List.length_cons]
      exact Nat.succ_le_succ (ih hk hdiv)

/-- The reader inverts the encoder, whatever bytes follow. -/
theorem read_encode_append {k n : ℕ} (hk : 0 < k) (h : n < 128 ^ k) (t : List UInt8) :
    read k (encode n ++ t) = .value n (encode n).length := by
  induction k generalizing n with
  | zero => omega
  | succ k ih =>
    by_cases hn : n < 128
    · have htoNat : (UInt8.ofNat n).toNat = n := by
        rw [UInt8.toNat_ofNat']; omega
      rw [encode_of_lt hn, List.singleton_append, read_cons_eq_value]
      exact .inl ⟨by omega, htoNat.symm, rfl⟩
    · have htoNat : (UInt8.ofNat (n % 128 + 128)).toNat = n % 128 + 128 := by
        rw [UInt8.toNat_ofNat']; omega
      obtain ⟨hk, hdiv⟩ := div_lt_pow (by omega) h
      rw [encode_of_ge (by omega), List.cons_append, read_cons_eq_value]
      exact .inr ⟨by omega, _, _, ih hk hdiv, by omega, rfl⟩

/-- A number from `128 ^ k` on takes more than `k` bytes. -/
theorem read_encode_of_le {k n : ℕ} (h : 128 ^ k ≤ n) (t : List UInt8) :
    read k (encode n ++ t) = .overlong := by
  induction k generalizing n with
  | zero => rfl
  | succ k ih =>
    have hpos : 0 < 128 ^ k := Nat.pow_pos (by omega)
    rw [Nat.pow_succ] at h
    have htoNat : (UInt8.ofNat (n % 128 + 128)).toNat = n % 128 + 128 := by
      rw [UInt8.toNat_ofNat']
      omega
    have hdiv : 128 ^ k ≤ n / 128 := (Nat.le_div_iff_mul_le (by omega)).mpr h
    rw [encode_of_ge (by omega), List.cons_append, read_cons_eq_overlong]
    exact ⟨by omega, ih hdiv⟩

/-- What comes behind an encoded number can be told from it. -/
theorem encode_append_inj {m n : ℕ} {t u : List UInt8} (h : encode m ++ t = encode n ++ u) :
    m = n ∧ t = u := by
  have hlt {i : ℕ} (hi : i ≤ m + n) : i < 128 ^ (m + n + 1) :=
    lt_of_lt_of_le (Nat.lt_pow_self (by omega)) (Nat.pow_le_pow_right (by omega) (by omega))
  have hm := read_encode_append (Nat.succ_pos _) (hlt (Nat.le_add_right m n)) t
  have hn := read_encode_append (Nat.succ_pos _) (hlt (Nat.le_add_left n m)) u
  rw [h, hn] at hm
  obtain rfl : n = m := (Reading.value.inj hm).1
  exact ⟨rfl, List.append_cancel_left h⟩

/-- What a successful reading says: the number fits in its bytes, which are all there. -/
theorem read_eq_value {k n len : ℕ} {bs : List UInt8} (h : read k bs = .value n len) :
    0 < len ∧ len ≤ k ∧ len ≤ bs.length ∧ n < 128 ^ k := by
  induction k generalizing bs n len with
  | zero => cases h
  | succ k ih =>
    cases bs with
    | nil => cases h
    | cons b bs =>
      rw [Nat.pow_succ, List.length_cons]
      rcases read_cons_eq_value.mp h with ⟨hb, rfl, rfl⟩ | ⟨hb, m, l, hread, rfl, rfl⟩
      · have hpow : 0 < 128 ^ k := Nat.pow_pos (by omega)
        omega
      · have := ih hread
        omega

/-- A number that was read is below the power of 128 that its bytes can hold. -/
theorem read_lt_pow {k n len : ℕ} {bs : List UInt8} (h : read k bs = .value n len) :
    n < 128 ^ len := by
  induction k generalizing bs n len with
  | zero => cases h
  | succ k ih =>
    cases bs with
    | nil => cases h
    | cons b bs =>
      rcases read_cons_eq_value.mp h with ⟨hb, rfl, rfl⟩ | ⟨hb, m, l, hread, rfl, rfl⟩
      · simpa using hb
      · have := ih hread
        rw [Nat.pow_succ]
        omega

/-- The shortest encoding of a number is no longer than the one it was read from. -/
theorem length_encode_le_of_read {k n len : ℕ} {bs : List UInt8} (h : read k bs = .value n len) :
    (encode n).length ≤ len :=
  length_encode_le (read_eq_value h).1 (read_lt_pow h)

/-- A number is read from its own bytes. -/
theorem read_take_of_le {k n len m : ℕ} {bs : List UInt8} (h : read k bs = .value n len)
    (hm : len ≤ m) : read k (bs.take m) = .value n len := by
  induction k generalizing bs n len m with
  | zero => cases h
  | succ k ih =>
    cases bs with
    | nil => cases h
    | cons b bs =>
      have hpos := (read_eq_value h).1
      obtain ⟨m, rfl⟩ : ∃ m', m = m' + 1 := ⟨m - 1, by omega⟩
      rw [List.take_succ_cons, read_cons_eq_value]
      rcases read_cons_eq_value.mp h with hlast | ⟨hb, n', l, hread, rfl, rfl⟩
      · exact .inl hlast
      · exact .inr ⟨hb, n', l, ih hread (by omega), rfl, rfl⟩

/-- A number that was read is read again when more bytes follow. -/
theorem read_append {k n len : ℕ} {bs : List UInt8} (h : read k bs = .value n len)
    (t : List UInt8) : read k (bs ++ t) = .value n len := by
  induction k generalizing bs n len with
  | zero => cases h
  | succ k ih =>
    cases bs with
    | nil => cases h
    | cons b bs =>
      rw [List.cons_append, read_cons_eq_value]
      rcases read_cons_eq_value.mp h with hlast | ⟨hb, m, l, hread, rfl, rfl⟩
      · exact .inl hlast
      · exact .inr ⟨hb, m, l, ih hread, rfl, rfl⟩

/-- A number that is cut short is reported as incomplete. -/
theorem read_take {k n len m : ℕ} {bs : List UInt8} (h : read k bs = .value n len)
    (hm : m < len) : read k (bs.take m) = .incomplete := by
  induction k generalizing bs n len m with
  | zero => cases h
  | succ k ih =>
    cases bs with
    | nil => cases h
    | cons b bs =>
      cases m with
      | zero => rfl
      | succ m =>
        rw [List.take_succ_cons, read_cons_eq_incomplete]
        rcases read_cons_eq_value.mp h with ⟨-, -, rfl⟩ | ⟨hb, n', l, hread, rfl, rfl⟩
        · omega
        · exact ⟨hb, ih hread (by omega)⟩

/-- A number that is too long stays too long when more bytes follow. -/
theorem read_append_of_overlong {k : ℕ} {bs : List UInt8} (h : read k bs = .overlong)
    (t : List UInt8) : read k (bs ++ t) = .overlong := by
  induction k generalizing bs with
  | zero => rfl
  | succ k ih =>
    cases bs with
    | nil => cases h
    | cons b bs =>
      obtain ⟨hb, hread⟩ := read_cons_eq_overlong.mp h
      rw [List.cons_append, read_cons_eq_overlong]
      exact ⟨hb, ih hread⟩

/-- Enough bytes that continue make a number too long. -/
theorem read_replicate {b : UInt8} (hb : 128 ≤ b.toNat) {k n : ℕ} (h : k ≤ n) :
    read k (List.replicate n b) = .overlong := by
  induction k generalizing n with
  | zero => rfl
  | succ k ih =>
    obtain ⟨n, rfl⟩ : ∃ m, n = m + 1 := ⟨n - 1, by omega⟩
    rw [List.replicate_succ, read_cons_eq_overlong]
    exact ⟨hb, ih (by omega)⟩

/-- An incomplete number that only continues becomes too long. -/
theorem read_append_replicate {b : UInt8} {k n : ℕ} {bs : List UInt8}
    (h : read k bs = .incomplete) (hb : 128 ≤ b.toNat) (hn : k ≤ n) :
    read k (bs ++ List.replicate n b) = .overlong := by
  induction k generalizing bs with
  | zero => rfl
  | succ k ih =>
    cases bs with
    | nil => exact read_replicate hb hn
    | cons c bs =>
      obtain ⟨hc, hread⟩ := read_cons_eq_incomplete.mp h
      rw [List.cons_append, read_cons_eq_overlong]
      exact ⟨hc, ih hread (by omega)⟩

/-- With enough bytes a number is not incomplete. -/
theorem read_ne_incomplete {k : ℕ} {bs : List UInt8} (h : k ≤ bs.length) :
    read k bs ≠ .incomplete := by
  induction k generalizing bs with
  | zero => simp
  | succ k ih =>
    cases bs with
    | nil => simp at h
    | cons b bs =>
      intro hread
      exact ih (by simpa using h) (read_cons_eq_incomplete.mp hread).2

end Base128
