import RewardPlot.Text.Utf8
/-!
# Decoding what was encoded

The machine that decodes goes once through the bytes of each character and is between
characters again after the last of them.
-/

namespace RewardPlot.Utf8

/-! ## First bytes and following bytes -/

theorem toNat_ofNat_of_lt {n : Nat} (hn : n < 256) : (UInt8.ofNat n).toNat = n := by
  rw [UInt8.toNat_ofNat']
  exact Nat.mod_eq_of_lt hn

theorem announced_two : ∀ n < 32, 2 ≤ n →
    announced (UInt8.ofNat (n + 0xC0)) = some ⟨n, 1, 0x80, 0xBF⟩ := by decide

theorem announced_three : ∀ n < 16, announced (UInt8.ofNat (n + 0xE0)) =
    some ⟨n, 2, if n = 0 then 0xA0 else 0x80, if n = 13 then 0x9F else 0xBF⟩ := by decide

theorem announced_four : ∀ n < 5, announced (UInt8.ofNat (n + 0xF0)) =
    some ⟨n, 3, if n = 0 then 0x90 else 0x80, if n = 4 then 0x8F else 0xBF⟩ := by decide

theorem partsAfter_announced {b : UInt8} {p : Pending} (hascii : 0x80 ≤ b.toNat)
    (hannounced : announced b = some p) (rest : List UInt8) :
    partsAfter none (b :: rest) = partsAfter (some p) rest := by
  have hbegin : step none b = ([], some p) := by
    have hnot : ¬b < 0x80 := by
      rw [UInt8.lt_iff_toNat_lt]
      exact Nat.not_lt.mpr hascii
    rw [step, begin, if_neg hnot, hannounced]
  rw [partsAfter, hbegin]
  rfl

/-- A following byte in the wanted range adds six bits. -/
theorem partsAfter_following {p : Pending} {k : Nat} (hk : k < 64)
    (hlow : p.low.toNat ≤ k + 0x80) (hhigh : k + 0x80 ≤ p.high.toNat) (rest : List UInt8) :
    partsAfter (some p) (UInt8.ofNat (k + 0x80) :: rest) =
      if p.missing = 1 then some (Char.ofNat (p.value * 64 + k)) :: partsAfter none rest
      else partsAfter (some ⟨p.value * 64 + k, p.missing - 1, 0x80, 0xBF⟩) rest := by
  have hrange : p.low ≤ UInt8.ofNat (k + 0x80) ∧ UInt8.ofNat (k + 0x80) ≤ p.high := by
    rw [UInt8.le_iff_toNat_le, UInt8.le_iff_toNat_le, toNat_ofNat_of_lt (by omega)]
    exact ⟨hlow, hhigh⟩
  have hbits : (UInt8.ofNat (k + 0x80)).toNat % 64 = k := by
    rw [toNat_ofNat_of_lt (by omega)]
    omega
  rw [partsAfter, step, if_pos hrange, hbits]
  dsimp only
  split <;> rfl

/-- A following byte after which others follow may have any six bits, if it is not the
first. -/
theorem partsAfter_middle {value missing k : Nat} (hk : k < 64) (hmissing : missing ≠ 1)
    {low high : UInt8} (hlow : low.toNat ≤ k + 0x80) (hhigh : k + 0x80 ≤ high.toNat)
    (rest : List UInt8) :
    partsAfter (some ⟨value, missing, low, high⟩) (UInt8.ofNat (k + 0x80) :: rest) =
      partsAfter (some ⟨value * 64 + k, missing - 1, 0x80, 0xBF⟩) rest :=
  (partsAfter_following hk hlow hhigh rest).trans (if_neg hmissing)

theorem partsAfter_last {value k : Nat} (hk : k < 64) (rest : List UInt8) :
    partsAfter (some ⟨value, 1, 0x80, 0xBF⟩) (UInt8.ofNat (k + 0x80) :: rest) =
      some (Char.ofNat (value * 64 + k)) :: partsAfter none rest := by
  have hlow : (0x80 : UInt8).toNat ≤ k + 0x80 := Nat.le_add_left _ _
  have hhigh : k + 0x80 ≤ (0xBF : UInt8).toNat := by
    show k + 0x80 ≤ 191
    omega
  exact (partsAfter_following hk hlow hhigh rest).trans (if_pos rfl)

/-! ## Characters -/

theorem partsAfter_ascii {v : Nat} (hv : v < 0x80) (rest : List UInt8) :
    partsAfter none (UInt8.ofNat v :: rest) = some (Char.ofNat v) :: partsAfter none rest := by
  have htoNat : (UInt8.ofNat v).toNat = v := toNat_ofNat_of_lt (by omega)
  have hascii : UInt8.ofNat v < 0x80 := by
    rw [UInt8.lt_iff_toNat_lt, htoNat]
    exact hv
  rw [partsAfter, step, begin, if_pos hascii, htoNat]
  rfl

theorem partsAfter_two {v : Nat} (hlow : 0x80 ≤ v) (hhigh : v ≤ 0x7FF) (rest : List UInt8) :
    partsAfter none
      (UInt8.ofNat (v / 64 % 0x20 + 0xC0) :: UInt8.ofNat (v % 0x40 + 0x80) :: rest) =
      some (Char.ofNat v) :: partsAfter none rest := by
  have hfirst := announced_two (v / 64 % 0x20) (by omega) (by omega)
  have hascii : 0x80 ≤ (UInt8.ofNat (v / 64 % 0x20 + 0xC0)).toNat := by
    rw [toNat_ofNat_of_lt (by omega)]
    omega
  rw [partsAfter_announced hascii hfirst, partsAfter_last (by omega)]
  rw [show v / 64 % 0x20 * 64 + v % 0x40 = v by omega]

theorem partsAfter_three {v : Nat} (hlow : 0x800 ≤ v) (hhigh : v ≤ 0xFFFF)
    (hsurrogate : v < 0xD800 ∨ 0xDFFF < v) (rest : List UInt8) :
    partsAfter none (UInt8.ofNat (v / 4096 % 0x10 + 0xE0) ::
      UInt8.ofNat (v / 64 % 0x40 + 0x80) :: UInt8.ofNat (v % 0x40 + 0x80) :: rest) =
      some (Char.ofNat v) :: partsAfter none rest := by
  have hfirst := announced_three (v / 4096 % 0x10) (by omega)
  have hascii : 0x80 ≤ (UInt8.ofNat (v / 4096 % 0x10 + 0xE0)).toNat := by
    rw [toNat_ofNat_of_lt (by omega)]
    omega
  have hsecond : (if v / 4096 % 0x10 = 0 then 0xA0 else 0x80 : UInt8).toNat ≤
      v / 64 % 0x40 + 0x80 := by
    split
    · show 160 ≤ _
      omega
    · show 128 ≤ _
      omega
  have hsecond' : v / 64 % 0x40 + 0x80 ≤
      (if v / 4096 % 0x10 = 13 then 0x9F else 0xBF : UInt8).toNat := by
    split
    · show _ ≤ 159
      omega
    · show _ ≤ 191
      omega
  rw [partsAfter_announced hascii hfirst, partsAfter_middle (by omega) (by omega) hsecond hsecond',
    partsAfter_last (by omega)]
  rw [show (v / 4096 % 0x10 * 64 + v / 64 % 0x40) * 64 + v % 0x40 = v by omega]

theorem partsAfter_four {v : Nat} (hlow : 0x10000 ≤ v) (hhigh : v < 0x110000)
    (rest : List UInt8) :
    partsAfter none (UInt8.ofNat (v / 262144 % 0x08 + 0xF0) ::
      UInt8.ofNat (v / 4096 % 0x40 + 0x80) :: UInt8.ofNat (v / 64 % 0x40 + 0x80) ::
      UInt8.ofNat (v % 0x40 + 0x80) :: rest) =
      some (Char.ofNat v) :: partsAfter none rest := by
  have hfirst := announced_four (v / 262144 % 0x08) (by omega)
  have hascii : 0x80 ≤ (UInt8.ofNat (v / 262144 % 0x08 + 0xF0)).toNat := by
    rw [toNat_ofNat_of_lt (by omega)]
    omega
  have hsecond : (if v / 262144 % 0x08 = 0 then 0x90 else 0x80 : UInt8).toNat ≤
      v / 4096 % 0x40 + 0x80 := by
    split
    · show 144 ≤ _
      omega
    · show 128 ≤ _
      omega
  have hsecond' : v / 4096 % 0x40 + 0x80 ≤
      (if v / 262144 % 0x08 = 4 then 0x8F else 0xBF : UInt8).toNat := by
    split
    · show _ ≤ 143
      omega
    · show _ ≤ 191
      omega
  have hthird : (0x80 : UInt8).toNat ≤ v / 64 % 0x40 + 0x80 := Nat.le_add_left _ _
  have hthird' : v / 64 % 0x40 + 0x80 ≤ (0xBF : UInt8).toNat := by
    show _ ≤ 191
    omega
  rw [partsAfter_announced hascii hfirst, partsAfter_middle (by omega) (by omega) hsecond hsecond',
    partsAfter_middle (by omega) (by omega) hthird hthird', partsAfter_last (by omega)]
  rw [show ((v / 262144 % 0x08 * 64 + v / 4096 % 0x40) * 64 + v / 64 % 0x40) * 64 + v % 0x40 = v
    by omega]

theorem partsAfter_encodeChar (c : Char) (rest : List UInt8) :
    partsAfter none (String.utf8EncodeChar c ++ rest) = some c :: partsAfter none rest := by
  have hvalid : c.val.toNat < 0xD800 ∨ 0xDFFF < c.val.toNat ∧ c.val.toNat < 0x110000 := c.valid
  have hchar : Char.ofNat c.val.toNat = c := Char.ofNat_toNat c
  rw [String.utf8EncodeChar]
  split
  · rw [List.singleton_append, partsAfter_ascii (by omega), hchar]
  · split
    · rw [List.cons_append, List.singleton_append, partsAfter_two (by omega) (by omega), hchar]
    · split
      · rw [List.cons_append, List.cons_append, List.singleton_append,
          partsAfter_three (by omega) (by omega) (by omega), hchar]
      · rw [List.cons_append, List.cons_append, List.cons_append, List.singleton_append,
          partsAfter_four (by omega) (by omega), hchar]

theorem parts_encode (text : List Char) : parts (encode text) = text.map some := by
  rw [parts]
  induction text with
  | nil => rfl
  | cons c text ih =>
      rw [encode, List.flatMap_cons, partsAfter_encodeChar, List.map_cons]
      exact congrArg _ ih

theorem decode?_encode (text : List Char) : decode? (encode text) = some text := by
  rw [decode?, parts_encode]
  induction text with
  | nil => rfl
  | cons c text ih =>
      rw [List.map_cons, List.mapM_cons, ih]
      rfl

theorem decodeLossy_encode (text : List Char) : decodeLossy (encode text) = text := by
  rw [decodeLossy, parts_encode, List.map_map]
  exact List.map_id text

/-- Bytes that are the encoding of a text. -/
def WellFormed (bytes : List UInt8) : Prop := ∃ text, bytes = encode text

/-- No two texts are the same when they are read with replacements; other bytes can be. -/
theorem WellFormed.eq_of_toStringLossy_eq {bytes bytes' : List UInt8}
    (hbytes : WellFormed bytes) (hbytes' : WellFormed bytes')
    (hsame : toStringLossy bytes = toStringLossy bytes') : bytes = bytes' := by
  obtain ⟨text, rfl⟩ := hbytes
  obtain ⟨text', rfl⟩ := hbytes'
  have hdecoded := String.ofList_injective hsame
  rw [decodeLossy_encode, decodeLossy_encode] at hdecoded
  rw [hdecoded]

end RewardPlot.Utf8
