import Mathlib.Data.String.Basic
import Mathlib.Tactic.SplitIfs

/-!
# The order of bytes

Texts are ordered by their characters.  Their bytes in UTF-8 have the same order:
the first byte of a character grows with its code, and among characters with the
same first byte the bytes behind it do.
-/

namespace Dashboard.Text

/-- The bytes of a text in UTF-8. -/
def bytes (s : String) : List UInt8 :=
  s.toUTF8.data.toList

theorem bytes_eq_flatMap (s : String) : bytes s = s.toList.flatMap String.utf8EncodeChar := by
  have htext : s.toByteArray = (s.toList.flatMap String.utf8EncodeChar).toByteArray := by
    conv_lhs => rw [← String.ofList_toList (s := s)]
    exact String.toByteArray_ofList
  rw [bytes, String.toUTF8_eq_toByteArray, htext, List.toList_data_toByteArray]

/-! ## The bytes of one character -/

/-- The first byte of the character with a code.  It shows how many there are. -/
def leadingByte (n : Nat) : Nat :=
  if n ≤ 0x7f then n
  else if n ≤ 0x7ff then 0xc0 + n / 64
  else if n ≤ 0xffff then 0xe0 + n / 4096
  else 0xf0 + n / 262144

/-- The lowest six bits of a number, in a byte that is not the first one. -/
def trailingByte (n : Nat) : UInt8 :=
  UInt8.ofNat (n % 64 + 128)

/-- The bytes behind the first one. -/
def trailingBytes (n : Nat) : List UInt8 :=
  if n ≤ 0x7f then []
  else if n ≤ 0x7ff then [trailingByte n]
  else if n ≤ 0xffff then [trailingByte (n / 64), trailingByte n]
  else [trailingByte (n / 4096), trailingByte (n / 64), trailingByte n]

theorem toNat_lt_of_char (c : Char) : c.toNat < 0x110000 := by
  have hvalid : c.toNat < 0xd800 ∨ 0xdfff < c.toNat ∧ c.toNat < 0x110000 := c.valid
  omega

theorem utf8EncodeChar_eq (c : Char) :
    String.utf8EncodeChar c = UInt8.ofNat (leadingByte c.toNat) :: trailingBytes c.toNat := by
  have hlt := toNat_lt_of_char c
  have hval : c.val.toNat = c.toNat := rfl
  simp only [String.utf8EncodeChar, hval, leadingByte, trailingBytes]
  split_ifs with h1 h2 h3
  · rfl
  · have hlead : c.toNat / 64 % 32 + 0xc0 = 0xc0 + c.toNat / 64 := by omega
    rw [hlead]
    rfl
  · have hlead : c.toNat / 4096 % 16 + 0xe0 = 0xe0 + c.toNat / 4096 := by omega
    rw [hlead]
    rfl
  · have hlead : c.toNat / 262144 % 8 + 0xf0 = 0xf0 + c.toNat / 262144 := by omega
    rw [hlead]
    rfl

section Codes

variable {m n : Nat}

theorem leadingByte_le
    (h : m < n) :
    leadingByte m ≤ leadingByte n := by
  simp only [leadingByte]
  split_ifs <;> omega

theorem leadingByte_lt_of_char (c : Char) : leadingByte c.toNat < 256 := by
  have hlt := toNat_lt_of_char c
  simp only [leadingByte]
  split_ifs <;> omega

theorem trailingByte_lt_iff :
    trailingByte m < trailingByte n ↔ m % 64 < n % 64 := by
  rw [trailingByte, trailingByte, UInt8.lt_iff_toNat_lt, UInt8.toNat_ofNat', UInt8.toNat_ofNat']
  omega

theorem trailingByte_eq_iff :
    trailingByte m = trailingByte n ↔ m % 64 = n % 64 := by
  rw [trailingByte, trailingByte, ← UInt8.toNat_inj, UInt8.toNat_ofNat', UInt8.toNat_ofNat']
  omega

/-- Among codes with the same first byte, the other bytes are as many and in the order of
the codes. -/
theorem trailingBytes_append_lt
    (h : m < n)
    (hlead : leadingByte m = leadingByte n)
    (hn : n < 0x110000)
    (r s : List UInt8) :
    trailingBytes m ++ r < trailingBytes n ++ s := by
  simp only [leadingByte] at hlead
  simp only [trailingBytes]
  split_ifs at hlead ⊢
  all_goals
    first
    | omega
    | simp only [List.cons_append, List.nil_append, List.cons_lt_cons_iff, trailingByte_lt_iff,
        trailingByte_eq_iff]
  · exact .inl (by omega)
  · by_cases hmid : m / 64 % 64 < n / 64 % 64
    · exact .inl hmid
    · exact .inr ⟨by omega, .inl (by omega)⟩
  · by_cases hhigh : m / 4096 % 64 < n / 4096 % 64
    · exact .inl hhigh
    · refine .inr ⟨by omega, ?_⟩
      by_cases hmid : m / 64 % 64 < n / 64 % 64
      · exact .inl hmid
      · exact .inr ⟨by omega, .inl (by omega)⟩

end Codes

/-- A smaller character has smaller bytes, whatever comes behind them. -/
theorem utf8EncodeChar_append_lt
    {c d : Char}
    (h : c < d)
    (r s : List UInt8) :
    String.utf8EncodeChar c ++ r < String.utf8EncodeChar d ++ s := by
  have hlt : c.toNat < d.toNat := h
  have hc := leadingByte_lt_of_char c
  have hd := leadingByte_lt_of_char d
  rw [utf8EncodeChar_eq, utf8EncodeChar_eq, List.cons_append, List.cons_append,
    List.cons_lt_cons_iff, UInt8.lt_iff_toNat_lt, ← UInt8.toNat_inj,
    UInt8.toNat_ofNat_of_lt' hc, UInt8.toNat_ofNat_of_lt' hd]
  rcases Nat.lt_or_eq_of_le (leadingByte_le hlt) with hlead | hlead
  · exact .inl hlead
  · exact .inr ⟨hlead, trailingBytes_append_lt hlt hlead (toNat_lt_of_char d) r s⟩

/-! ## Texts -/

theorem flatMap_utf8EncodeChar_lt
    {cs ds : List Char}
    (h : cs < ds) :
    cs.flatMap String.utf8EncodeChar < ds.flatMap String.utf8EncodeChar := by
  induction h with
  | nil =>
      rw [List.flatMap_nil, List.flatMap_cons, utf8EncodeChar_eq]
      exact List.nil_lt_cons _ _
  | rel hcd =>
      exact utf8EncodeChar_append_lt hcd _ _
  | cons _ ih =>
      exact List.append_left_lt ih

theorem bytes_lt_of_lt
    {s t : String}
    (h : s < t) :
    bytes s < bytes t := by
  rw [bytes_eq_flatMap, bytes_eq_flatMap]
  exact flatMap_utf8EncodeChar_lt (String.lt_iff_toList_lt.1 h)

/-- Texts are in the order of their bytes. -/
theorem bytes_lt_bytes_iff {s t : String} : bytes s < bytes t ↔ s < t := by
  constructor
  · intro h
    rcases lt_trichotomy s t with hst | rfl | hts
    · exact hst
    · exact absurd h (List.lt_irrefl _)
    · exact absurd h (List.lt_asymm (bytes_lt_of_lt hts))
  · exact bytes_lt_of_lt

end Dashboard.Text
