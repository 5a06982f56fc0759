import Mathlib.Data.List.Basic
import Mathlib.Tactic.Basic

/-!
# Lossy UTF-8 decoding

`lossyChars` decodes any bytes. What is not well formed is replaced: each longest start of a
sequence that could still have become a character, or a single byte that starts none, gives one
U+FFFD.

Well-formed bytes are decoded unchanged, whatever follows them (`lossyChars_encode_append`). Bytes
cut off from a well-formed text do not decode to that text when more is missing than the
replacements of one character can stand for (`lossy_take_ne`).

## Main definitions

* `illFormed` — the length of a malformed sequence.
* `lossyChars` — the decoder.
-/

namespace Utf8

/-- The bytes of some characters. -/
def encode (cs : List Char) : List UInt8 := cs.flatMap String.utf8EncodeChar

@[simp] theorem encode_nil : encode [] = [] := rfl

@[simp] theorem encode_cons (c : Char) (cs : List Char) :
    encode (c :: cs) = String.utf8EncodeChar c ++ encode cs := rfl

theorem encode_append (cs ds : List Char) : encode (cs ++ ds) = encode cs ++ encode ds :=
  List.flatMap_append

/-- The bytes of an ASCII text are the codes of its characters. -/
theorem encode_of_ascii {cs : List Char} (h : ∀ c ∈ cs, c.toNat < 128) :
    encode cs = cs.map fun c => UInt8.ofNat c.toNat := by
  induction cs with
  | nil => rfl
  | cons c cs ih =>
    have hsize : c.utf8Size = 1 := by
      have hlt := h c (by simp)
      rw [Char.utf8Size_eq_one_iff, UInt32.le_iff_toNat_le]
      exact Nat.le_of_lt_succ hlt
    have hbyte : String.utf8EncodeChar c = [UInt8.ofNat c.toNat] := by
      rw [String.utf8EncodeChar_eq_singleton hsize]
      rfl
    rw [encode_cons, hbyte, ih fun d hd => h d (by simp [hd])]
    rfl

theorem length_le_encode (cs : List Char) : cs.length ≤ (encode cs).length := by
  induction cs with
  | nil => simp
  | cons c cs ih =>
    have hpos := c.utf8Size_pos
    simp only [encode_cons, List.length_cons, List.length_append, String.length_utf8EncodeChar]
    omega

theorem length_encode_le (cs : List Char) : (encode cs).length ≤ 4 * cs.length := by
  induction cs with
  | nil => simp
  | cons c cs ih =>
    have hle := c.utf8Size_le_four
    simp only [encode_cons, List.length_cons, List.length_append, String.length_utf8EncodeChar]
    omega

/-! ## The decoder -/

/-- The two bytes start a character of three or four bytes. The second byte is narrower than a
continuation byte where the character would be encoded too long, be a surrogate, or lie beyond
the last code point. -/
def opens (first second : UInt8) : Bool :=
  if first = 0xE0 then 0xA0 ≤ second && second ≤ 0xBF
  else if first = 0xED then 0x80 ≤ second && second ≤ 0x9F
  else if 0xE1 ≤ first && first ≤ 0xEF then 0x80 ≤ second && second ≤ 0xBF
  else if first = 0xF0 then 0x90 ≤ second && second ≤ 0xBF
  else if 0xF1 ≤ first && first ≤ 0xF3 then 0x80 ≤ second && second ≤ 0xBF
  else first == 0xF4 && (0x80 ≤ second && second ≤ 0x8F)

/-- How many bytes are replaced at once where no character starts. -/
def illFormed : List UInt8 → ℕ
  | first :: second :: rest =>
    if opens first second then
      match rest with
      | third :: _ => if 0xF0 ≤ first && (0x80 ≤ third && third ≤ 0xBF) then 3 else 2
      | [] => 2
    else 1
  | _ => 1

theorem illFormed_pos (bytes : List UInt8) : 0 < illFormed bytes := by
  unfold illFormed
  split
  · split
    · split
      · split <;> omega
      · omega
    · omega
  · omega

/-- The character that starts the bytes. -/
def decodeChar? (bytes : List UInt8) : Option Char :=
  (ByteArray.mk bytes.toArray).utf8DecodeChar? 0

/-- The decoder. `fuel` bounds the characters. -/
def lossyChars : ℕ → List UInt8 → List Char
  | 0, _ => []
  | fuel + 1, bytes =>
    if bytes = [] then []
    else
      match decodeChar? bytes with
      | some c => c :: lossyChars fuel (bytes.drop c.utf8Size)
      | none => '\uFFFD' :: lossyChars fuel (bytes.drop (illFormed bytes))

/-- The characters of bytes that need not be well formed. -/
def lossy (bytes : List UInt8) : List Char := lossyChars bytes.length bytes

example : lossy [0x61, 0xE2, 0x82, 0x62, 0xFF, 0xF0, 0x9F, 0x98] =
    ['a', '\uFFFD', 'b', '\uFFFD', '\uFFFD'] := by decide

/-! ## Well-formed bytes -/

theorem decodeChar?_encode (c : Char) (rest : List UInt8) :
    decodeChar? (String.utf8EncodeChar c ++ rest) = some c := by
  have h := ByteArray.utf8DecodeChar?_utf8EncodeChar_append (b := ByteArray.mk rest.toArray) (c := c)
  rw [decodeChar?, ← h]
  congr 1
  ext1
  simp

theorem lossyChars_encodeChar (c : Char) (fuel : ℕ) (rest : List UInt8) :
    lossyChars (fuel + 1) (String.utf8EncodeChar c ++ rest) = c :: lossyChars fuel rest := by
  have hne : String.utf8EncodeChar c ++ rest ≠ [] := by
    simp [String.utf8EncodeChar_ne_nil]
  have hdrop : (String.utf8EncodeChar c ++ rest).drop c.utf8Size = rest :=
    List.drop_left' (String.length_utf8EncodeChar c)
  rw [lossyChars, if_neg hne, decodeChar?_encode]
  simp only [hdrop]

/-- Well-formed bytes are decoded whatever follows them. -/
theorem lossyChars_encode_append (cs : List Char) (fuel : ℕ) (rest : List UInt8) :
    lossyChars (cs.length + fuel) (encode cs ++ rest) = cs ++ lossyChars fuel rest := by
  induction cs with
  | nil => simp
  | cons c cs ih =>
    rw [List.length_cons, Nat.add_right_comm, encode_cons, List.append_assoc,
      lossyChars_encodeChar, ih, List.cons_append]

@[simp] theorem lossyChars_nil (fuel : ℕ) : lossyChars fuel [] = [] := by
  cases fuel <;> rfl

@[simp] theorem lossy_encode (cs : List Char) : lossy (encode cs) = cs := by
  have hfuel : (encode cs).length = cs.length + ((encode cs).length - cs.length) := by
    have hle := length_le_encode cs
    omega
  have h := lossyChars_encode_append cs ((encode cs).length - cs.length) []
  rw [← hfuel] at h
  simpa [lossy] using h

/-! ## Bytes cut off -/

theorem length_lossyChars_le (fuel : ℕ) (bytes : List UInt8) :
    (lossyChars fuel bytes).length ≤ bytes.length := by
  induction fuel generalizing bytes with
  | zero => simp [lossyChars]
  | succ fuel ih =>
    rw [lossyChars]
    split
    · simp
    · rename_i hne
      have hpos : 0 < bytes.length := List.length_pos_of_ne_nil hne
      split
      · rename_i c _
        have hsize := c.utf8Size_pos
        have hle := ih (bytes.drop c.utf8Size)
        simp only [List.length_cons, List.length_drop] at hle ⊢
        omega
      · have hsize := illFormed_pos bytes
        have hle := ih (bytes.drop (illFormed bytes))
        simp only [List.length_cons, List.length_drop] at hle ⊢
        omega

/-- Where the cut falls into a character, at most three bytes of it are left to be replaced. -/
theorem length_encode_of_take (cs : List Char) {fuel k : ℕ}
    (h : lossyChars fuel ((encode cs).take k) = cs) : (encode cs).length ≤ k + 12 := by
  induction cs generalizing fuel k with
  | nil => simp
  | cons c cs ih =>
    have hsize := String.length_utf8EncodeChar c
    have hfour := c.utf8Size_le_four
    by_cases hk : c.utf8Size ≤ k
    · -- The character is whole, so the cut falls into the rest.
      have htake : (encode (c :: cs)).take k =
          String.utf8EncodeChar c ++ (encode cs).take (k - c.utf8Size) := by
        rw [encode_cons, List.take_append, hsize, List.take_of_length_le (by omega)]
      rw [htake] at h
      cases fuel with
      | zero => simp [lossyChars] at h
      | succ fuel =>
        rw [lossyChars_encodeChar] at h
        have hrest := ih (List.cons.inj h).2
        simp only [encode_cons, List.length_append]
        omega
    · have hcount := length_lossyChars_le fuel ((encode (c :: cs)).take k)
      have hlength := length_encode_le (c :: cs)
      rw [h, List.length_take] at hcount
      omega

theorem lossy_take_ne {cs : List Char} {k : ℕ} (h : k + 12 < (encode cs).length) :
    lossy ((encode cs).take k) ≠ cs := fun heq =>
  absurd (length_encode_of_take cs heq) (by omega)

end Utf8
