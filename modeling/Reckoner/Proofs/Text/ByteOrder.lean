import Mathlib.Tactic.SplitIfs

/-!
# The order of encoded texts

Texts are compared by their characters, and encoded texts by their bytes. The two orders are one
(`utf8Bytes_lt`): a character that comes first has the smaller byte where its encoding and the
other's first differ, and neither encoding ends before that, so what follows it in the text has no
say.
-/

namespace Reckoner

/-- The bytes that encode a text. -/
def utf8Bytes (text : String) : List UInt8 :=
  text.toUTF8.data.toList

theorem utf8Bytes_eq_flatMap (text : String) :
    utf8Bytes text = text.toList.flatMap String.utf8EncodeChar := by
  rw [utf8Bytes, String.toUTF8_eq_toByteArray, ← String.utf8Encode_toList, List.utf8Encode,
    List.data_toByteArray]

/-- Some bytes come before others whatever follows either: no list of them is the other's prefix. -/
def Precedes (bytes bytes' : List UInt8) : Prop :=
  ∀ rest rest', bytes ++ rest < bytes' ++ rest'

theorem not_precedes_nil : ¬ Precedes [] [] :=
  fun h => List.not_lt_nil _ (h [] [])

theorem precedes_cons_iff {m n : Nat} (hm : m < 256) (hn : n < 256) {bytes bytes' : List UInt8} :
    Precedes (.ofNat m :: bytes) (.ofNat n :: bytes') ↔
      m < n ∨ m = n ∧ Precedes bytes bytes' := by
  have hlt : UInt8.ofNat m < .ofNat n ↔ m < n := UInt8.ofNat_lt_iff_lt hm hn
  have heq : UInt8.ofNat m = .ofNat n ↔ m = n := by
    constructor
    · intro h
      have := congrArg UInt8.toNat h
      rwa [UInt8.toNat_ofNat_of_lt' hm, UInt8.toNat_ofNat_of_lt' hn] at this
    · exact congrArg _
  simp only [Precedes, List.cons_append, List.cons_lt_cons_iff, hlt, heq]
  constructor
  · intro h
    by_cases hmn : m < n
    · exact .inl hmn
    · exact .inr ⟨((h [] []).resolve_left hmn).1, fun rest rest' =>
        ((h rest rest').resolve_left hmn).2⟩
  · intro h rest rest'
    exact h.imp_right fun h => ⟨h.1, h.2 rest rest'⟩

theorem precedes_utf8EncodeChar {c d : Char} (h : c < d) :
    Precedes (String.utf8EncodeChar c) (String.utf8EncodeChar d) := by
  have hlt : c.val.toNat < d.val.toNat := h
  have hd : d.val.toNat < 0x110000 := by
    have := d.valid
    simp only [UInt32.isValidChar, Nat.isValidChar] at this
    omega
  -- Every byte after the first is a digit to base 64, so the shifts are taken digit by digit.
  have square (v : Nat) : v / 4096 = v / 64 / 64 := by omega
  have cube (v : Nat) : v / 262144 = v / 64 / 64 / 64 := by omega
  simp only [String.utf8EncodeChar, square, cube]
  split_ifs <;> first
    | omega
    | simp (disch := omega) only [precedes_cons_iff, not_precedes_nil]
      omega

theorem flatMap_utf8EncodeChar_lt {cs ds : List Char} (h : cs < ds) :
    cs.flatMap String.utf8EncodeChar < ds.flatMap String.utf8EncodeChar := by
  induction h with
  | @nil d ds =>
    obtain ⟨byte, bytes, hd⟩ : ∃ byte bytes, String.utf8EncodeChar d = byte :: bytes := by
      refine List.exists_cons_of_length_pos ?_
      rw [String.length_utf8EncodeChar]
      exact Char.utf8Size_pos d
    rw [List.flatMap_nil, List.flatMap_cons, hd, List.cons_append]
    exact List.nil_lt_cons byte _
  | @cons c cs ds _ ih =>
    rw [List.flatMap_cons, List.flatMap_cons]
    exact List.append_left_lt ih
  | @rel c cs d ds hcd =>
    rw [List.flatMap_cons, List.flatMap_cons]
    exact precedes_utf8EncodeChar hcd _ _

/-- **The order of texts is that of their bytes.** -/
theorem utf8Bytes_lt {text text' : String} (h : text < text') :
    utf8Bytes text < utf8Bytes text' := by
  rw [utf8Bytes_eq_flatMap, utf8Bytes_eq_flatMap]
  exact flatMap_utf8EncodeChar_lt h

end Reckoner
