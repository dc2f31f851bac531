import ScxSlam.Lib.Scan

/-!
# ScxSlam.Lib.Utf8

Bytes as Python handles them: `hex` and `bytes.fromhex`, and `encode` and
`decode("utf-8", errors="backslashreplace")`.

A byte is a natural.  An ill-formed sequence is escaped byte by byte: what
follows its first byte in it cannot begin a character either.
-/

namespace Utf8

open Python (Text)

/-! ## hexadecimal digits -/

/-- `[0-9a-f]`. -/
def isHex (c : Char) : Bool := c.isDigit || ('a' ≤ c && c ≤ 'f')

/-- The value of a digit. -/
def digit (c : Char) : Nat := if c.isDigit then c.toNat - '0'.toNat else c.toNat - 'a'.toNat + 10

/-- `bytes.fromhex`, of digits in lower case. -/
def fromHex : Text → List Nat
  | h :: l :: text => (16 * digit h + digit l) :: fromHex text
  | _ => []

/-- `hex` of a byte. -/
def hexByte (b : Nat) : Text := [Nat.digitChar (b / 16), Nat.digitChar (b % 16)]

/-- `hex`. -/
def hex (bytes : List Nat) : Text := bytes.flatMap hexByte

/-- A hexadecimal digit reads as itself. -/
theorem digit_digitChar : ∀ n < 16, digit (Nat.digitChar n) = n := by
  decide

/-- Bytes come back from their hexadecimal digits. -/
theorem fromHex_hex {bytes : List Nat} (h : ∀ b ∈ bytes, b < 256) :
    fromHex (hex bytes) = bytes := by
  induction bytes with
  | nil => rfl
  | cons b bytes ih =>
      have hb := h b List.mem_cons_self
      have hcons : hex (b :: bytes) =
          Nat.digitChar (b / 16) :: Nat.digitChar (b % 16) :: hex bytes := rfl
      rw [hcons, fromHex, digit_digitChar _ (by omega), digit_digitChar _ (by omega),
        ih fun b' hb' => h b' (List.mem_cons_of_mem b hb'), Nat.div_add_mod]

/-! ## characters -/

/-- A byte inside a sequence. -/
def trails (b : Nat) : Bool := 0x80 ≤ b && b < 0xc0

/-- The character in front of these bytes, with the length of its sequence. -/
def char? : List Nat → Option (Char × Nat)
  | b₀ :: rest =>
      if b₀ < 0x80 then some (.ofNat b₀, 1)
      else match rest with
        | b₁ :: rest =>
            if 0xc2 ≤ b₀ ∧ b₀ < 0xe0 ∧ trails b₁ then
              some (.ofNat ((b₀ - 0xc0) * 64 + (b₁ - 0x80)), 2)
            else match rest with
              | b₂ :: rest =>
                  let n := (b₀ - 0xe0) * 4096 + (b₁ - 0x80) * 64 + (b₂ - 0x80)
                  if 0xe0 ≤ b₀ ∧ b₀ < 0xf0 ∧ trails b₁ ∧ trails b₂ ∧ 0x800 ≤ n ∧
                      ¬(0xd800 ≤ n ∧ n < 0xe000) then
                    some (.ofNat n, 3)
                  else match rest with
                    | b₃ :: _ =>
                        let n := (b₀ - 0xf0) * 262144 + (b₁ - 0x80) * 4096 + (b₂ - 0x80) * 64 +
                          (b₃ - 0x80)
                        if 0xf0 ≤ b₀ ∧ trails b₁ ∧ trails b₂ ∧ trails b₃ ∧ 0x10000 ≤ n ∧
                            n < 0x110000 then
                          some (.ofNat n, 4)
                        else none
                    | [] => none
              | [] => none
        | [] => none
  | [] => none

/-- `decode("utf-8", errors="backslashreplace")`. -/
def decode (bytes : List Nat) : Text :=
  Scan.scan char? (fun b => '\\' :: 'x' :: hexByte b) 0 bytes

/-- `encode` of a character. -/
def encodeChar (c : Char) : List Nat :=
  let n := c.toNat
  if n < 0x80 then [n]
  else if n < 0x800 then [0xc0 + n / 64, 0x80 + n % 64]
  else if n < 0x10000 then [0xe0 + n / 4096, 0x80 + n / 64 % 64, 0x80 + n % 64]
  else [0xf0 + n / 262144, 0x80 + n / 4096 % 64, 0x80 + n / 64 % 64, 0x80 + n % 64]

/-- `encode`. -/
def encode (text : Text) : List Nat := text.flatMap encodeChar

/-- The encoding of a character is read back from the front of any bytes. -/
theorem char?_encodeChar (c : Char) (rest : List Nat) :
    char? (encodeChar c ++ rest) = some (c, (encodeChar c).length) := by
  have hvalid : c.toNat < 0xd800 ∨ 0xdfff < c.toNat ∧ c.toNat < 0x110000 := c.valid
  have hc := Char.ofNat_toNat c
  have hsix : ∀ m, trails (0x80 + m % 64) = true := by
    intro m
    simp only [trails, Bool.and_eq_true, decide_eq_true_eq]
    omega
  unfold encodeChar
  generalize c.toNat = n at hvalid hc
  dsimp only
  by_cases h₁ : n < 0x80
  · rw [if_pos h₁]
    simp only [List.cons_append, List.nil_append, char?]
    rw [if_pos h₁, hc]
    rfl
  rw [if_neg h₁]
  by_cases h₂ : n < 0x800
  · have hvalue : (0xc0 + n / 64 - 0xc0) * 64 + (0x80 + n % 64 - 0x80) = n := by omega
    rw [if_pos h₂]
    simp only [List.cons_append, List.nil_append, char?]
    rw [if_neg (by omega), if_pos ⟨by omega, by omega, hsix _⟩, hvalue, hc]
    rfl
  rw [if_neg h₂]
  by_cases h₃ : n < 0x10000
  · have hvalue : (0xe0 + n / 4096 - 0xe0) * 4096 + (0x80 + n / 64 % 64 - 0x80) * 64 +
        (0x80 + n % 64 - 0x80) = n := by omega
    rw [if_pos h₃]
    simp only [List.cons_append, List.nil_append, char?]
    rw [if_neg (by omega), if_neg (by omega), hvalue,
      if_pos ⟨by omega, by omega, hsix _, hsix _, by omega, by omega⟩, hc]
    rfl
  · have hvalue : (0xf0 + n / 262144 - 0xf0) * 262144 + (0x80 + n / 4096 % 64 - 0x80) * 4096 +
        (0x80 + n / 64 % 64 - 0x80) * 64 + (0x80 + n % 64 - 0x80) = n := by omega
    rw [if_neg h₃]
    simp only [List.cons_append, List.nil_append, char?]
    rw [if_neg (by omega), if_neg (by omega), if_neg (by omega), hvalue,
      if_pos ⟨by omega, hsix _, hsix _, hsix _, by omega, by omega⟩, hc]
    rfl

/-- What was encoded is decoded. -/
theorem decode_encode (text : Text) : decode (encode text) = text := by
  induction text with
  | nil => rfl
  | cons c text ih =>
      have hne : encodeChar c ≠ [] := by
        unfold encodeChar
        dsimp only
        repeat' split
        all_goals simp
      rw [encode, List.flatMap_cons, ← encode, decode, Scan.scan_read hne (char?_encodeChar c _),
        ← decode, ih]

/-- The encoding is made of bytes. -/
theorem lt_encode {text : Text} : ∀ b ∈ encode text, b < 256 := by
  intro b hb
  obtain ⟨c, -, hb⟩ := List.mem_flatMap.mp hb
  have hvalid : c.toNat < 0xd800 ∨ 0xdfff < c.toNat ∧ c.toNat < 0x110000 := c.valid
  simp only [encodeChar] at hb
  repeat' split at hb
  all_goals
    simp only [List.mem_cons, List.not_mem_nil, or_false] at hb
    omega

/-- Text without NUL encodes without NUL. -/
theorem ne_zero_encode {text : Text} (h : Char.ofNat 0 ∉ text) : ∀ b ∈ encode text, b ≠ 0 := by
  rintro b hb rfl
  obtain ⟨c, hc, hb⟩ := List.mem_flatMap.mp hb
  simp only [encodeChar] at hb
  repeat' split at hb
  all_goals
    simp only [List.mem_cons, List.not_mem_nil, or_false] at hb
    first
      | omega
      | exact h (by rw [hb, Char.ofNat_toNat]; exact hc)

end Utf8
