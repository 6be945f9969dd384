import BuildServer.Path.FileUri
import BuildServer.Proofs.Text.Utf8

namespace BuildServer

inductive Escapes : Bytes → UInt8 → Prop
  | plain {b : UInt8} (h : b ≠ 0x25) : Escapes [b] b
  | escaped {b x y : UInt8} (hx : hexValue? x = some (b.toNat / 16))
    (hy : hexValue? y = some (b.toNat % 16)) : Escapes [0x25, x, y] b

theorem percentDecode_escapes {bytes : Bytes} {b : UInt8} (h : Escapes bytes b) (rest : Bytes) :
    percentDecode (bytes ++ rest) = b :: percentDecode rest := by
  cases h with
  | plain h =>
    rw [List.singleton_append, percentDecode]
    intro x y more he
    exact absurd he h
  | @escaped b x y hx hy =>
    have hb : b.toNat / 16 * 16 + b.toNat % 16 = b.toNat := by omega
    simp only [List.cons_append, List.nil_append, percentDecode, hx, hy, hb]
    simp

theorem percentDecode_flatMap {f : UInt8 → List Char}
    (h : ∀ b, Escapes (Utf8.encodeChars (f b)) b) (bytes : Bytes) :
    percentDecode (Utf8.encodeChars (bytes.flatMap f)) = bytes := by
  induction bytes with
  | nil => simp [Utf8.encodeChars, percentDecode]
  | cons b bytes ih =>
    have happend : Utf8.encodeChars ((b :: bytes).flatMap f) =
        Utf8.encodeChars (f b) ++ Utf8.encodeChars (bytes.flatMap f) := by
      simp [Utf8.encodeChars]
    rw [happend, percentDecode_escapes (h b), ih]

theorem upperHexDigit_value : ∀ n < 16, (upperHexDigit n).toNat < 0x80 ∧
    hexValue? (UInt8.ofNat (upperHexDigit n).toNat) = some n := by
  decide

theorem escapes_percentEscape (b : UInt8) : Escapes (Utf8.encodeChars (percentEscape b)) b := by
  have hb := b.toNat_lt
  obtain ⟨hhigh, hx⟩ := upperHexDigit_value (b.toNat / 16) (by omega)
  obtain ⟨hlow, hy⟩ := upperHexDigit_value (b.toNat % 16) (by omega)
  have hbytes : Utf8.encodeChars (percentEscape b) =
      [0x25, UInt8.ofNat (upperHexDigit (b.toNat / 16)).toNat,
        UInt8.ofNat (upperHexDigit (b.toNat % 16)).toNat] := by
    simp only [Utf8.encodeChars, percentEscape, List.flatMap_cons, List.flatMap_nil,
      Utf8.utf8EncodeChar_ascii hhigh, Utf8.utf8EncodeChar_ascii hlow]
    rfl
  rw [hbytes]
  exact .escaped hx hy

theorem toNat_ofNat_ascii : ∀ n < 0x80, (Char.ofNat n).toNat = n := by
  decide

theorem encodeChars_ascii {b : UInt8} (hb : b.toNat < 0x80) :
    Utf8.encodeChars [Char.ofNat b.toNat] = [b] := by
  have hn := toNat_ofNat_ascii _ hb
  simp only [Utf8.encodeChars, List.flatMap_cons, List.flatMap_nil,
    Utf8.utf8EncodeChar_ascii (hn ▸ hb), hn]
  simp

theorem escapes_ascii {b : UInt8} (hb : b.toNat < 0x80) (hp : b ≠ 0x25) :
    Escapes (Utf8.encodeChars [Char.ofNat b.toNat]) b := by
  rw [encodeChars_ascii hb]
  exact .plain hp

end BuildServer
