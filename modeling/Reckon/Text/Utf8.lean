import Reckon.Text.Basic

/-!
# UTF-8

`Utf8.encode` writes a text as bytes. `Utf8.decode` reads any bytes as a list of steps: `some c`
for a well-formed character and `none` for a longest ill-formed stretch that could have begun one.
The two ways of reading a file follow from it: `decodeReplacing` puts U+FFFD for each ill-formed
stretch, and `decode?` accepts well-formed bytes only.
-/

namespace Reckon.Utf8

/-- The byte `n`; only called with `n < 256`. -/
def byte (n : Nat) : UInt8 := UInt8.ofNat n

/-- One to four bytes: the leading byte says how many follow, and each that follows carries six
bits. -/
def encodeChar (c : Char) : Bytes :=
  let n := c.toNat
  if n < 0x80 then [byte n]
  else if n < 0x800 then [byte (0xC0 + n / 64), byte (0x80 + n % 64)]
  else if n < 0x10000 then
    [byte (0xE0 + n / 4096), byte (0x80 + n / 64 % 64), byte (0x80 + n % 64)]
  else
    [byte (0xF0 + n / 262144), byte (0x80 + n / 4096 % 64), byte (0x80 + n / 64 % 64),
      byte (0x80 + n % 64)]

def encode (t : Text) : Bytes :=
  t.flatMap encodeChar

/-- A character of which the leading byte, and perhaps some others, are read: how many bytes are
still to come, between which bounds the next one lies, and the value of the bits so far. -/
structure Begun where
  missing : Nat
  low : Nat
  high : Nat
  value : Nat

/-- What a byte means where a character may begin. -/
inductive Lead
  | whole (c : Char)
  | begun (b : Begun)
  | wrong

/-- The bounds on the second byte leave out the overlong forms, the surrogates and everything above
U+10FFFF. -/
def lead (b : UInt8) : Lead :=
  let n := b.toNat
  if n < 0x80 then .whole (Char.ofNat n)
  else if n < 0xC2 then .wrong
  else if n < 0xE0 then .begun ⟨1, 0x80, 0xBF, n - 0xC0⟩
  else if n < 0xF0 then
    .begun ⟨2, if n = 0xE0 then 0xA0 else 0x80, if n = 0xED then 0x9F else 0xBF, n - 0xE0⟩
  else if n < 0xF5 then
    .begun ⟨3, if n = 0xF0 then 0x90 else 0x80, if n = 0xF4 then 0x8F else 0xBF, n - 0xF0⟩
  else .wrong

/-- Reads one byte where a character may begin: the steps that are complete with it, and the
character that it begins, if any. -/
def start (b : UInt8) : List (Option Char) × Option Begun :=
  match lead b with
  | .whole c => ([some c], none)
  | .begun s => ([], some s)
  | .wrong => ([none], none)

/-- Reads one byte inside a character. A byte that cannot continue it ends the ill-formed stretch
before itself and is read again as a leading byte. -/
def continue? (s : Begun) (b : UInt8) : List (Option Char) × Option Begun :=
  let n := b.toNat
  if s.low ≤ n ∧ n ≤ s.high then
    let value := s.value * 64 + (n - 0x80)
    if s.missing ≤ 1 then ([some (Char.ofNat value)], none)
    else ([], some ⟨s.missing - 1, 0x80, 0xBF, value⟩)
  else
    let (steps, next) := start b
    (none :: steps, next)

/-- The steps of the bytes after `begun`. -/
def decodeFrom (begun : Option Begun) : Bytes → List (Option Char)
  | [] => match begun with
    | none => []
    | some _ => [none]
  | b :: rest =>
    let (steps, next) := match begun with
      | none => start b
      | some s => continue? s b
    steps ++ decodeFrom next rest

def decode (bytes : Bytes) : List (Option Char) :=
  decodeFrom none bytes

/-- Every ill-formed stretch is read as one U+FFFD. -/
def decodeReplacing (bytes : Bytes) : Text :=
  (decode bytes).map fun step => step.getD '\ufffd'

/-- The text, if all of the bytes are well-formed. -/
def decode? (bytes : Bytes) : Option Text :=
  (decode bytes).mapM id

@[simp] theorem encode_nil : encode [] = [] := rfl

@[simp] theorem encode_append (s t : Text) : encode (s ++ t) = encode s ++ encode t := by
  simp [encode]

/-! ## Reading what was written

`encodeChar` chooses the leading byte, and each byte after it lies within the bounds that the reader
expects, so that reading goes through the states of one character and ends with that character. -/

theorem toNat_byte {n : Nat} (h : n < 256) : (byte n).toNat = n := by
  rw [byte, UInt8.toNat_ofNat', Nat.mod_eq_of_lt h]

theorem lead_byte_whole {n : Nat} (h : n < 0x80) : lead (byte n) = .whole (Char.ofNat n) := by
  simp only [lead, toNat_byte (show n < 256 by omega), if_pos h]

theorem lead_byte_two {n : Nat} (h₁ : 0xC2 ≤ n) (h₂ : n < 0xE0) :
    lead (byte n) = .begun ⟨1, 0x80, 0xBF, n - 0xC0⟩ := by
  simp only [lead, toNat_byte (show n < 256 by omega), if_neg (show ¬n < 0x80 by omega),
    if_neg (show ¬n < 0xC2 by omega), if_pos h₂]

theorem lead_byte_three {n : Nat} (h₁ : 0xE0 ≤ n) (h₂ : n < 0xF0) :
    lead (byte n) = .begun ⟨2, if n = 0xE0 then 0xA0 else 0x80, if n = 0xED then 0x9F else 0xBF,
      n - 0xE0⟩ := by
  simp only [lead, toNat_byte (show n < 256 by omega), if_neg (show ¬n < 0x80 by omega),
    if_neg (show ¬n < 0xC2 by omega), if_neg (show ¬n < 0xE0 by omega), if_pos h₂]

theorem lead_byte_four {n : Nat} (h₁ : 0xF0 ≤ n) (h₂ : n < 0xF5) :
    lead (byte n) = .begun ⟨3, if n = 0xF0 then 0x90 else 0x80, if n = 0xF4 then 0x8F else 0xBF,
      n - 0xF0⟩ := by
  simp only [lead, toNat_byte (show n < 256 by omega), if_neg (show ¬n < 0x80 by omega),
    if_neg (show ¬n < 0xC2 by omega), if_neg (show ¬n < 0xE0 by omega),
    if_neg (show ¬n < 0xF0 by omega), if_pos h₂]

theorem decodeFrom_whole {b : UInt8} {c : Char} (h : lead b = .whole c) (rest : Bytes) :
    decodeFrom none (b :: rest) = some c :: decodeFrom none rest := by
  simp only [decodeFrom, start, h, List.cons_append, List.nil_append]

theorem decodeFrom_begun {b : UInt8} {s : Begun} (h : lead b = .begun s) (rest : Bytes) :
    decodeFrom none (b :: rest) = decodeFrom (some s) rest := by
  simp only [decodeFrom, start, h, List.nil_append]

/-- A byte within the bounds, with others still to come. -/
theorem decodeFrom_more {s : Begun} {n : Nat} (hn : n < 256) (hb : s.low ≤ n ∧ n ≤ s.high)
    (hm : ¬s.missing ≤ 1) (rest : Bytes) :
    decodeFrom (some s) (byte n :: rest)
      = decodeFrom (some ⟨s.missing - 1, 0x80, 0xBF, s.value * 64 + (n - 0x80)⟩) rest := by
  simp only [decodeFrom, continue?, toNat_byte hn, if_pos hb, if_neg hm, List.nil_append]

/-- The last byte of a character. -/
theorem decodeFrom_last {s : Begun} {n : Nat} (hn : n < 256) (hb : s.low ≤ n ∧ n ≤ s.high)
    (hm : s.missing ≤ 1) (rest : Bytes) :
    decodeFrom (some s) (byte n :: rest)
      = some (Char.ofNat (s.value * 64 + (n - 0x80))) :: decodeFrom none rest := by
  simp only [decodeFrom, continue?, toNat_byte hn, if_pos hb, if_pos hm, List.cons_append,
    List.nil_append]

/-- The bytes of a character are read as that character, whatever follows them. -/
theorem decodeFrom_encodeChar (c : Char) (rest : Bytes) :
    decodeFrom none (encodeChar c ++ rest) = some c :: decodeFrom none rest := by
  have hv : c.toNat < 0xD800 ∨ 0xDFFF < c.toNat ∧ c.toNat < 0x110000 := c.valid
  have hc : Char.ofNat c.toNat = c := Char.ofNat_toNat c
  unfold encodeChar
  generalize c.toNat = n at hv hc
  -- by the number of bytes; `value` puts the number of the character together again
  dsimp only
  split
  · next h => rw [← hc]; exact decodeFrom_whole (lead_byte_whole h) rest
  · split
    · next h₁ h₂ =>
      have value : (0xC0 + n / 64 - 0xC0) * 64 + (0x80 + n % 64 - 0x80) = n := by omega
      simp only [List.cons_append, List.nil_append]
      rw [decodeFrom_begun (lead_byte_two (by omega) (by omega)),
        decodeFrom_last (by omega) (by dsimp only; omega) (by dsimp only; omega), value, hc]
    · split
      · next h₁ h₂ h₃ =>
        have value : ((0xE0 + n / 4096 - 0xE0) * 64 + (0x80 + n / 64 % 64 - 0x80)) * 64
            + (0x80 + n % 64 - 0x80) = n := by omega
        simp only [List.cons_append, List.nil_append]
        rw [decodeFrom_begun (lead_byte_three (by omega) (by omega)),
          decodeFrom_more (by omega) (by dsimp only; constructor <;> split <;> omega)
            (by dsimp only; omega),
          decodeFrom_last (by omega) (by dsimp only; omega) (by dsimp only; omega), value, hc]
      · next h₁ h₂ h₃ =>
        have value : (((0xF0 + n / 262144 - 0xF0) * 64 + (0x80 + n / 4096 % 64 - 0x80)) * 64
            + (0x80 + n / 64 % 64 - 0x80)) * 64 + (0x80 + n % 64 - 0x80) = n := by omega
        simp only [List.cons_append, List.nil_append]
        rw [decodeFrom_begun (lead_byte_four (by omega) (by omega)),
          decodeFrom_more (by omega) (by dsimp only; constructor <;> split <;> omega)
            (by dsimp only; omega),
          decodeFrom_more (by omega) (by dsimp only; omega) (by dsimp only; omega),
          decodeFrom_last (by omega) (by dsimp only; omega) (by dsimp only; omega), value, hc]

theorem decode_encode (t : Text) : decode (encode t) = t.map some := by
  unfold decode
  induction t with
  | nil => rfl
  | cons c rest ih =>
    have h : encode (c :: rest) = encodeChar c ++ encode rest := by simp [encode]
    rw [h, decodeFrom_encodeChar, ih, List.map_cons]

/-- Text survives being written and read, also by the reader that replaces. -/
theorem decodeReplacing_encode (t : Text) : decodeReplacing (encode t) = t := by
  simp [decodeReplacing, decode_encode, List.map_map, Function.comp_def]

theorem encode_ne_nil {t : Text} (h : t ≠ []) : encode t ≠ [] := by
  intro hnil
  rw [← decodeReplacing_encode t, hnil] at h
  exact h rfl

end Reckon.Utf8
